/-
  Computations that may end with a fault.

  A computation is opened step by step: it gives a result exactly when each of its steps does.  A
  test that never ends with a fault decides a property, and tests over a list are then the plain
  quantifiers.
-/
import Mathlib.Data.List.Forall2
import TreeLint.Fault

set_option autoImplicit false

namespace TreeLint

section Steps

variable {α β : Type}

@[simp] theorem ok_bind (a : α) (f : α → Except Fault β) : (Except.ok a >>= f) = f a := rfl

@[simp] theorem error_bind (fault : Fault) (f : α → Except Fault β) :
    (Except.error fault >>= f) = .error fault := rfl

@[simp] theorem pure_eq_ok (a : α) : (pure a : Except Fault α) = .ok a := rfl

/-- Two steps give a result when the first gives one and the second gives one from it. -/
theorem bind_eq_ok_iff {x : Except Fault α} {f : α → Except Fault β} {b : β} :
    (x >>= f) = .ok b ↔ ∃ a, x = .ok a ∧ f a = .ok b := by
  cases x with
  | error fault => simp
  | ok a => simp

theorem toOption_eq_some_iff {x : Except Fault α} {a : α} : x.toOption = some a ↔ x = .ok a := by
  cases x with
  | error fault => simp [Except.toOption]
  | ok b => simp [Except.toOption]

/-- Steps that agree on each element give the same outcome. -/
theorem mapM_congr {f g : α → Except Fault β} {xs : List α} (h : ∀ x ∈ xs, f x = g x) :
    xs.mapM f = xs.mapM g := by
  induction xs with
  | nil => rfl
  | cons x xs ih =>
    rw [List.mapM_cons, List.mapM_cons, h x List.mem_cons_self,
      ih fun y hy => h y (List.mem_cons_of_mem _ hy)]

/-- Steps over a row give results exactly when each step gives the one in its place. -/
theorem mapM_eq_ok_iff {f : α → Except Fault β} {xs : List α} {ys : List β} :
    xs.mapM f = .ok ys ↔ List.Forall₂ (fun x y => f x = .ok y) xs ys := by
  induction xs generalizing ys with
  | nil =>
    rw [List.mapM_nil, pure_eq_ok, List.forall₂_nil_left_iff, Except.ok.injEq]
    exact eq_comm
  | cons x xs ih =>
    rw [List.mapM_cons, bind_eq_ok_iff, List.forall₂_cons_left_iff]
    constructor
    · rintro ⟨y, hy, h⟩
      obtain ⟨rest, hrest, heq⟩ := bind_eq_ok_iff.mp h
      exact ⟨y, rest, hy, ih.mp hrest, (Except.ok.inj heq).symm⟩
    · rintro ⟨y, rest, hy, hrest, rfl⟩
      exact ⟨y, hy, bind_eq_ok_iff.mpr ⟨rest, ih.mpr hrest, rfl⟩⟩

/-- Each result of steps over a row is that of one of the steps. -/
theorem exists_of_mem_mapM {f : α → Except Fault β} {xs : List α} {ys : List β}
    (h : xs.mapM f = .ok ys) {y : β} (hy : y ∈ ys) : ∃ x ∈ xs, f x = .ok y := by
  induction mapM_eq_ok_iff.mp h with
  | nil => cases hy
  | @cons x y' xs ys hhere hrest ih =>
    rcases List.mem_cons.mp hy with rfl | hy
    · exact ⟨x, List.mem_cons_self, hhere⟩
    · obtain ⟨z, hz, hresult⟩ := ih (mapM_eq_ok_iff.mpr hrest) hy
      exact ⟨z, List.mem_cons_of_mem _ hz, hresult⟩

/-- Each of the steps over a row has its result among the results. -/
theorem exists_mem_of_mapM {f : α → Except Fault β} {xs : List α} {ys : List β}
    (h : xs.mapM f = .ok ys) {x : α} (hx : x ∈ xs) : ∃ y ∈ ys, f x = .ok y := by
  induction mapM_eq_ok_iff.mp h with
  | nil => cases hx
  | @cons x' y xs ys hhere hrest ih =>
    rcases List.mem_cons.mp hx with rfl | hx
    · exact ⟨y, List.mem_cons_self, hhere⟩
    · obtain ⟨z, hz, hresult⟩ := ih (mapM_eq_ok_iff.mpr hrest) hx
      exact ⟨z, List.mem_cons_of_mem _ hz, hresult⟩

/-- Steps over a row give results when each of them gives one. -/
theorem exists_mapM_eq_ok_iff {f : α → Except Fault β} {xs : List α} :
    (∃ ys, xs.mapM f = .ok ys) ↔ ∀ x ∈ xs, ∃ y, f x = .ok y := by
  simp only [mapM_eq_ok_iff]
  constructor
  · rintro ⟨ys, h⟩ x hx
    obtain ⟨i, hi, rfl⟩ := List.getElem_of_mem hx
    exact ⟨_, h.get hi (h.length_eq ▸ hi)⟩
  · intro h
    induction xs with
    | nil => exact ⟨[], .nil⟩
    | cons x xs ih =>
      obtain ⟨y, hy⟩ := h x List.mem_cons_self
      obtain ⟨ys, hys⟩ := ih fun z hz => h z (List.mem_cons_of_mem _ hz)
      exact ⟨y :: ys, .cons hy hys⟩

/-- Outcomes that are all results are the results of a row. -/
theorem exists_eq_map_ok {P : α → Prop} {xs : List (Except Fault α)}
    (h : ∀ x ∈ xs, ∃ a, x = .ok a ∧ P a) : ∃ row : List α, xs = row.map .ok ∧ ∀ a ∈ row, P a := by
  induction xs with
  | nil => exact ⟨[], rfl, by simp⟩
  | cons x rest ih =>
    obtain ⟨a, rfl, ha⟩ := h x List.mem_cons_self
    obtain ⟨row, rfl, hrow⟩ := ih fun y hy => h y (List.mem_cons_of_mem _ hy)
    refine ⟨a :: row, rfl, ?_⟩
    intro b hb
    rcases List.mem_cons.mp hb with rfl | hb
    · exact ha
    · exact hrow b hb

end Steps

/-! ## Results with a property -/

/-- The computation ends without a fault, and its result has the property. -/
def Gives {α : Type} (x : Except Fault α) (P : α → Prop) : Prop :=
  ∃ a, x = .ok a ∧ P a

namespace Gives

variable {α β : Type} {x : Except Fault α} {P : α → Prop}

theorem ok {a : α} (h : P a) : Gives (.ok a) P :=
  ⟨a, rfl, h⟩

theorem of_exists_ok (h : ∃ a, x = .ok a) : Gives x fun _ => True := by
  obtain ⟨a, rfl⟩ := h
  exact .ok trivial

theorem exists_ok (h : Gives x P) : ∃ a, x = .ok a := by
  obtain ⟨a, ha, _⟩ := h
  exact ⟨a, ha⟩

/-- Two steps give a result when the second gives one from each result of the first. -/
theorem bind (h : Gives x P) {f : α → Except Fault β} {Q : β → Prop}
    (hstep : ∀ a, P a → Gives (f a) Q) : Gives (x >>= f) Q := by
  obtain ⟨a, rfl, ha⟩ := h
  exact hstep a ha

theorem ite {y : Except Fault α} {c : Prop} [Decidable c] (hpos : c → Gives x P)
    (hneg : ¬ c → Gives y P) : Gives (if c then x else y) P := by
  by_cases hc : c
  · rw [if_pos hc]
    exact hpos hc
  · rw [if_neg hc]
    exact hneg hc

end Gives

/-! ## Tests -/

/-- The test ends without a fault, and its answer says whether the property holds. -/
def Decides (x : Except Fault Bool) (P : Prop) : Prop :=
  (x = .ok true ∧ P) ∨ (x = .ok false ∧ ¬ P)

namespace Decides

variable {x : Except Fault Bool} {P Q : Prop}

/-- A plain answer decides that it is yes. -/
theorem of_bool (b : Bool) : Decides (.ok b) (b = true) := by
  cases b
  · exact .inr ⟨rfl, Bool.false_ne_true⟩
  · exact .inl ⟨rfl, rfl⟩

theorem ok_true_iff (h : Decides x P) : x = .ok true ↔ P := by
  rcases h with ⟨rfl, hp⟩ | ⟨rfl, hp⟩
  · exact ⟨fun _ => hp, fun _ => rfl⟩
  · exact ⟨fun h => (by cases h), fun h => absurd h hp⟩

theorem ok_false_iff (h : Decides x P) : x = .ok false ↔ ¬ P := by
  rcases h with ⟨rfl, hp⟩ | ⟨rfl, hp⟩
  · exact ⟨fun h => (by cases h), fun h => absurd hp h⟩
  · exact ⟨fun _ => hp, fun _ => rfl⟩

/-- A property may be replaced by an equivalent one. -/
theorem congr (h : Decides x P) (hpq : P ↔ Q) : Decides x Q := by
  rcases h with ⟨hx, hp⟩ | ⟨hx, hp⟩
  · exact .inl ⟨hx, hpq.mp hp⟩
  · exact .inr ⟨hx, fun hq => hp (hpq.mpr hq)⟩

/-- A test that decides gives an answer. -/
theorem exists_ok (h : Decides x P) : ∃ b, x = .ok b := by
  rcases h with ⟨hx, _⟩ | ⟨hx, _⟩
  · exact ⟨true, hx⟩
  · exact ⟨false, hx⟩

/-- A test that gives an answer decides whether that answer is yes. -/
theorem of_exists_ok (h : ∃ b, x = .ok b) : Decides x (x = .ok true) := by
  obtain ⟨b, rfl⟩ := h
  exact (of_bool b).congr (by simp)

/-- A test that goes on in one of two ways decides what both of them decide. -/
theorem ite {y : Except Fault Bool} {c : Prop} [Decidable c] (hpos : c → Decides x P)
    (hneg : ¬ c → Decides y P) : Decides (if c then x else y) P := by
  by_cases hc : c
  · rw [if_pos hc]
    exact hpos hc
  · rw [if_neg hc]
    exact hneg hc

/-- A test that goes on from the answer of another one. -/
theorem bind {next : Bool → Except Fault Bool} (h : Decides x P)
    (hyes : P → Decides (next true) Q) (hno : ¬ P → Decides (next false) Q) :
    Decides (x >>= next) Q := by
  rcases h with ⟨rfl, hp⟩ | ⟨rfl, hp⟩
  · exact hyes hp
  · exact hno hp

/-- The test that stops at the first element with a property decides whether there is one. -/
theorem anyM {α : Type} {test : α → Except Fault Bool} {P : α → Prop} {xs : List α}
    (h : ∀ a ∈ xs, Decides (test a) (P a)) : Decides (xs.anyM test) (∃ a ∈ xs, P a) := by
  induction xs with
  | nil => exact .inr ⟨rfl, by simp⟩
  | cons a rest ih =>
    have hrest := ih fun b hb => h b (List.mem_cons_of_mem a hb)
    rw [List.anyM_cons]
    rcases h a List.mem_cons_self with ⟨ha, hp⟩ | ⟨ha, hp⟩
    · rw [ha]
      exact .inl ⟨rfl, a, List.mem_cons_self, hp⟩
    · rw [ha]
      exact hrest.congr (by simp [hp])

/-- The test that stops at the first element without a property decides whether all have it. -/
theorem allM {α : Type} {test : α → Except Fault Bool} {P : α → Prop} {xs : List α}
    (h : ∀ a ∈ xs, Decides (test a) (P a)) : Decides (xs.allM test) (∀ a ∈ xs, P a) := by
  induction xs with
  | nil => exact .inl ⟨rfl, by simp⟩
  | cons a rest ih =>
    have hrest := ih fun b hb => h b (List.mem_cons_of_mem a hb)
    rw [List.allM_cons]
    rcases h a List.mem_cons_self with ⟨ha, hp⟩ | ⟨ha, hp⟩
    · rw [ha]
      exact hrest.congr (by simp [hp])
    · rw [ha]
      exact .inr ⟨rfl, fun hall => hp (hall a List.mem_cons_self)⟩

end Decides

end TreeLint

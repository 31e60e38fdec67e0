/-
  The order of diagnostics.

  The diagnostics of a run stand in the order of their places, and those of one place as they were
  reported.  The two facts determine the row, so that it makes no difference whether some of the
  diagnostics are picked out before they are put in order or after.
-/
import TreeLint.Rule.Engine

set_option autoImplicit false

namespace TreeLint.Rule

/-- The diagnostics stand in the order of their places. -/
def Ordered (ds : List Diagnostic) : Prop :=
  ds.Pairwise fun a b => a.position ≤ b.position

/-- The diagnostics of one place. -/
def atPosition (n : Int) (ds : List Diagnostic) : List Diagnostic :=
  ds.filter fun d => decide (d.position = n)

theorem mem_atPosition {n : Int} {ds : List Diagnostic} {d : Diagnostic} :
    d ∈ atPosition n ds ↔ d ∈ ds ∧ d.position = n := by
  simp [atPosition]

@[simp] theorem atPosition_cons_self (d : Diagnostic) (ds : List Diagnostic) :
    atPosition d.position (d :: ds) = d :: atPosition d.position ds := by
  simp [atPosition]

theorem atPosition_cons_of_ne {n : Int} {d : Diagnostic} (ds : List Diagnostic)
    (h : d.position ≠ n) : atPosition n (d :: ds) = atPosition n ds := by
  simp [atPosition, h]

/-- Picking out by place and picking out by anything else can change places. -/
theorem atPosition_filter (n : Int) (p : Diagnostic → Bool) (ds : List Diagnostic) :
    atPosition n (ds.filter p) = (atPosition n ds).filter p := by
  simp only [atPosition, List.filter_filter, Bool.and_comm]

/-! ## Rows in order -/

theorem Ordered.filter {ds : List Diagnostic} (h : Ordered ds) (p : Diagnostic → Bool) :
    Ordered (ds.filter p) :=
  List.Pairwise.sublist List.filter_sublist h

theorem inOrder_perm (ds : List Diagnostic) : (inOrder ds).Perm ds :=
  List.mergeSort_perm ds _

theorem position_le_trans (a b c : Diagnostic) (hab : decide (a.position ≤ b.position) = true)
    (hbc : decide (b.position ≤ c.position) = true) : decide (a.position ≤ c.position) = true := by
  simp only [decide_eq_true_eq] at *
  exact Int.le_trans hab hbc

theorem position_le_total (a b : Diagnostic) :
    (decide (a.position ≤ b.position) || decide (b.position ≤ a.position)) = true := by
  simpa using Int.le_total a.position b.position

theorem ordered_inOrder (ds : List Diagnostic) : Ordered (inOrder ds) := by
  have h := List.pairwise_mergeSort position_le_trans position_le_total ds
  exact h.imp fun hle => of_decide_eq_true hle

/-- The diagnostics of one place stay as they were reported. -/
theorem atPosition_inOrder (n : Int) (ds : List Diagnostic) :
    atPosition n (inOrder ds) = atPosition n ds := by
  have hordered : (atPosition n ds).Pairwise fun a b => decide (a.position ≤ b.position) = true := by
    refine List.pairwise_of_forall_mem_list fun a ha b hb => ?_
    rw [(mem_atPosition.mp ha).2, (mem_atPosition.mp hb).2]
    exact decide_eq_true (Int.le_refl n)
  have hsublist : (atPosition n ds).Sublist (inOrder ds) :=
    List.sublist_mergeSort position_le_trans position_le_total hordered List.filter_sublist
  have hpicked : (atPosition n ds).Sublist (atPosition n (inOrder ds)) := by
    have h := hsublist.filter fun d => decide (d.position = n)
    simpa only [atPosition, List.filter_filter, Bool.and_self] using h
  have hlength : (atPosition n ds).length = (atPosition n (inOrder ds)).length :=
    ((inOrder_perm ds).filter _).length_eq.symm
  exact (hpicked.eq_of_length hlength).symm

/-- The first diagnostic of a row in order does not come after any diagnostic of a row that has the same
places. -/
theorem Ordered.head_le {d e : Diagnostic} {ds es : List Diagnostic} (h : Ordered (d :: ds))
    (hsame : ∀ n, atPosition n (d :: ds) = atPosition n (e :: es)) : d.position ≤ e.position := by
  have hmem : e ∈ atPosition e.position (d :: ds) := by
    rw [hsame]
    exact mem_atPosition.mpr ⟨List.mem_cons_self, rfl⟩
  rcases List.mem_cons.mp (mem_atPosition.mp hmem).1 with rfl | hmem
  · exact Int.le_refl _
  · exact (List.pairwise_cons.mp h).1 e hmem

/-- Rows in order that have the same diagnostics at each place are the same. -/
theorem Ordered.eq {ds es : List Diagnostic} (hds : Ordered ds) (hes : Ordered es)
    (hsame : ∀ n, atPosition n ds = atPosition n es) : ds = es := by
  induction ds generalizing es with
  | nil =>
    cases es with
    | nil => rfl
    | cons e es =>
      have hnil := hsame e.position
      rw [atPosition_cons_self] at hnil
      cases hnil
  | cons d ds ih =>
    cases es with
    | nil =>
      have hnil := hsame d.position
      rw [atPosition_cons_self] at hnil
      cases hnil
    | cons e es =>
      have hposition : d.position = e.position :=
        Int.le_antisymm (hds.head_le hsame) (hes.head_le fun n => (hsame n).symm)
      have hhere := hsame d.position
      rw [atPosition_cons_self, hposition, atPosition_cons_self] at hhere
      obtain ⟨rfl, htail⟩ := List.cons.inj hhere
      have hrest : ∀ n, atPosition n ds = atPosition n es := by
        intro n
        by_cases hn : d.position = n
        · rw [← hn]
          exact htail
        · have h := hsame n
          rwa [atPosition_cons_of_ne _ hn, atPosition_cons_of_ne _ hn] at h
      rw [ih (List.pairwise_cons.mp hds).2 (List.pairwise_cons.mp hes).2 hrest]

/-- Diagnostics may be picked out before they are put in order or after. -/
theorem filter_inOrder (p : Diagnostic → Bool) (ds : List Diagnostic) :
    (inOrder ds).filter p = inOrder (ds.filter p) := by
  refine ((ordered_inOrder ds).filter p).eq (ordered_inOrder _) fun n => ?_
  rw [atPosition_filter, atPosition_inOrder, atPosition_inOrder, atPosition_filter]

/-- Rows may be put in order one by one before they are put in order together. -/
theorem inOrder_append_inOrder (ds es : List Diagnostic) :
    inOrder (inOrder ds ++ inOrder es) = inOrder (ds ++ es) := by
  have happend : ∀ (n : Int) (xs ys : List Diagnostic),
      atPosition n (xs ++ ys) = atPosition n xs ++ atPosition n ys := by
    intro n xs ys
    rw [atPosition, List.filter_append]
    rfl
  refine (ordered_inOrder _).eq (ordered_inOrder _) fun n => ?_
  rw [atPosition_inOrder, atPosition_inOrder, happend, happend, atPosition_inOrder, atPosition_inOrder]

end TreeLint.Rule

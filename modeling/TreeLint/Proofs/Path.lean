/-
  Places in a tree.

  The steps from a node to its children are all different, so that the way from the root tells the
  places of a tree apart.  Two places part when neither lies on the way to the other; what lies
  below them is then different.
-/
import Mathlib.Data.List.Infix
import Mathlib.Data.List.Nodup
import TreeLint.Syntax.Node

set_option autoImplicit false

namespace TreeLint.Syntax

open TreeLint.Json

/-! ## Steps to children -/

/-- What is told from the images of some elements is told from the elements, in the same order. -/
theorem map_filterMap_sublist {α β γ : Type} {f : α → Option β} {g : β → γ} {h : α → γ}
    {xs : List α} (hf : ∀ a b, f a = some b → g b = h a) :
    ((xs.filterMap f).map g).Sublist (xs.map h) := by
  induction xs with
  | nil => exact .slnil
  | cons a rest ih =>
    rw [List.filterMap_cons, List.map_cons]
    cases hfa : f a with
    | none => exact ih.cons _
    | some b =>
      rw [List.map_cons, hf a b hfa]
      exact ih.cons_cons _

/-- The steps into one field all name that field. -/
theorem field_of_mem_fieldEdges {field : String} {value : Value} {e : Edge}
    (h : e ∈ fieldEdges field value) : e.step.field = field := by
  unfold fieldEdges at h
  split at h
  · obtain ⟨⟨item, i⟩, _, heq⟩ := List.mem_filterMap.mp h
    dsimp only at heq
    split at heq
    · obtain rfl := Option.some.inj heq
      rfl
    · cases heq
  · split at h
    · obtain rfl := List.mem_singleton.mp h
      rfl
    · cases h

/-- The steps into one field are all different. -/
theorem nodup_fieldEdges_steps (field : String) (value : Value) :
    ((fieldEdges field value).map Edge.step).Nodup := by
  unfold fieldEdges
  split
  · next items =>
    have hindex : ((items.zipIdx).map fun p => (⟨field, some p.2⟩ : Step)).Nodup := by
      have hsnd : ((items.zipIdx).map Prod.snd).Nodup := by
        rw [List.zipIdx_map_snd]
        exact List.nodup_range'
      have := hsnd.map (f := fun i => (⟨field, some i⟩ : Step)) fun i j hij => by simpa using hij
      rwa [List.map_map] at this
    refine hindex.sublist (map_filterMap_sublist ?_)
    rintro ⟨item, i⟩ e heq
    dsimp only at heq
    split at heq
    · obtain rfl := Option.some.inj heq
      rfl
    · cases heq
  · split
    · exact List.nodup_singleton _
    · exact List.nodup_nil

/-- The steps to the children of a node are all different. -/
theorem nodup_edges_steps (v : Value) : ((edges v).map Edge.step).Nodup := by
  cases v with
  | obj fields =>
    rw [edges, List.map_flatMap, List.nodup_flatMap]
    refine ⟨fun name _ => nodup_fieldEdges_steps name _, ?_⟩
    refine (nodup_childFields fields).imp fun {a b} hne => ?_
    intro step ha hb
    obtain ⟨e, he, rfl⟩ := List.mem_map.mp ha
    obtain ⟨e', he', heq⟩ := List.mem_map.mp hb
    refine hne ?_
    rw [← field_of_mem_fieldEdges he, ← field_of_mem_fieldEdges he', heq]
  | _ => exact List.nodup_nil

/-- A step leads to one child only. -/
theorem edge_eq_of_step_eq {v : Value} {e e' : Edge} (he : e ∈ edges v) (he' : e' ∈ edges v)
    (h : e.step = e'.step) : e = e' :=
  List.inj_on_of_nodup_map (nodup_edges_steps v) he he' h

/-! ## Parting ways -/

/-- Neither place lies on the way to the other. -/
def Part (a b : Path) : Prop :=
  ¬ a <:+ b ∧ ¬ b <:+ a

/-- Places below two that part are different. -/
theorem Part.ne {a b p q : Path} (h : Part a b) (hp : a <:+ p) (hq : b <:+ q) : p ≠ q := by
  rintro rfl
  rcases List.suffix_or_suffix_of_suffix hp hq with hab | hba
  · exact h.1 hab
  · exact h.2 hba

/-- Different steps from one place part. -/
theorem part_of_step_ne {s t : Step} (path : Path) (h : s ≠ t) : Part (s :: path) (t :: path) := by
  refine ⟨fun hsuffix => ?_, fun hsuffix => ?_⟩
  · exact h (List.cons.inj (hsuffix.eq_of_length rfl)).1
  · exact h (List.cons.inj (hsuffix.eq_of_length rfl)).1.symm

/-- One step further, a place still parts from the places that it parted from. -/
theorem Part.step {a b : Path} (h : Part a b) (s : Step) : Part (s :: a) b := by
  refine ⟨fun hsuffix => h.1 ((List.suffix_cons s a).trans hsuffix), fun hsuffix => ?_⟩
  rcases List.suffix_cons_iff.mp hsuffix with rfl | hba
  · exact h.1 (List.suffix_cons s a)
  · exact h.2 hba

end TreeLint.Syntax

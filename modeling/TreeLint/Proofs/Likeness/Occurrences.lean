/-
  Occurrences in programs that look the same.

  In programs that a likeness relates, corresponding names occur at the same places, with the same
  roles and in the same order.
-/
import TreeLint.Proofs.Likeness.Basic
import TreeLint.Usage.Occurrence

set_option autoImplicit false

namespace TreeLint.Usage

open TreeLint.Json TreeLint.Syntax

/-! ## Places -/

/-- What a field for types holds has no role. -/
theorem childRole_of_typed {e : Edge} (h : typeFields.contains e.step.field = true) (parent : Value)
    (role : Role) : childRole parent e role = none := by
  unfold childRole
  exact if_pos (by rw [h, Bool.true_or])

/-- The search goes on below untyped children only. -/
theorem children_eq_untyped (place : Place) :
    place.children = (untypedEdges place.node).filterMap fun e =>
      (childRole place.node e place.role).map (e, ·) := by
  rw [untypedEdges, List.filterMap_filter, Place.children]
  refine List.filterMap_congr fun e _ => ?_
  cases htyped : typeFields.contains e.step.field with
  | false => rfl
  | true =>
    rw [childRole_of_typed htyped]
    rfl

/-- The search has reached related nodes at the same place, with the same role. -/
def LikePlaces (R : Value → Value → Prop) (p q : Place) : Prop :=
  p.path = q.path ∧ p.role = q.role ∧ R p.node q.node

/-- The occurrences are at the same place, with the same role and like spans. -/
def LikeOccurrences (o p : Occurrence) : Prop :=
  o.role = p.role ∧ o.path = p.path ∧ Both (Option.Rel LikeSpans) (span o.node) (span p.node)

end TreeLint.Usage

namespace TreeLint.Syntax.Likeness

open TreeLint.Json TreeLint.Usage

variable {ρ : Renaming} {R : Value → Value → Prop} (L : Likeness ρ R) {v w : Value} {fs gs : Fields}

include L

/-! ## Occurrences -/

/-- Related children of related nodes have the same role. -/
theorem childRole_eq (h : R v w) {e d : Edge} (hstep : e.step = d.step) (hchild : R e.child d.child)
    (role : Role) : childRole v e role = childRole w d role := by
  simp only [childRole, L.kind?_eq h, L.kind?_eq hchild, hstep]
  cases L.form h with
  | plain => rfl
  | arr => rfl
  | obj =>
    simp only [(L.formOf h "computed" (by decide)).truthy_eq,
      (L.formOf h "declare" (by decide)).truthy_eq,
      (L.formOf h "importKind" (by decide)).isText_eq]

/-- Related children of a place that have a role, with that role. -/
theorem children_like {p q : Place} (h : LikePlaces R p q) :
    List.Forall₂ (fun a b => (a.1.step = b.1.step ∧ R a.1.child b.1.child) ∧ a.2 = b.2)
      p.children q.children := by
  obtain ⟨hpath, hrole, hnode⟩ := h
  rw [children_eq_untyped, children_eq_untyped]
  refine List.rel_filterMap ?_ (L.edges hnode)
  rintro e d ⟨hstep, hchild⟩
  dsimp only
  rw [L.childRole_eq hnode hstep hchild, hrole]
  cases childRole q.node d q.role with
  | none => exact .none
  | some role => exact .some ⟨⟨hstep, hchild⟩, rfl⟩

/-- Related tags stand for a variable both or none. -/
theorem isTagReference_eq (h : R v w) {e d : Edge} (hstep : e.step = d.step)
    (hchild : R e.child d.child) (htag : isKind e.child "JSXIdentifier" = true) :
    isTagReference v e = isTagReference w d := by
  obtain ⟨step, child⟩ := e
  obtain ⟨_, child'⟩ := d
  obtain rfl : step = _ := hstep
  obtain ⟨fs, _, rfl, _⟩ := isNode_iff.mp (isNode_of_isKind htag)
  obtain ⟨gs, rfl⟩ := L.exists_obj hchild
  have hname := L.named hchild (by simp [isName, htag])
  have hcomponent : isComponentName fs = isComponentName gs := by
    unfold isComponentName
    generalize fs.lookup "name" = a at hname ⊢
    generalize gs.lookup "name" = b at hname ⊢
    cases hname with
    | none => rfl
    | some related =>
      cases related with
      | text s => exact congrArg Except.ok (ρ.startsUppercase_apply s).symm
      | other form => cases form <;> rfl
  simp only [isTagReference, L.kind?_eq h, hcomponent]

/-- Related children are both occurrences of corresponding names, or neither. -/
theorem occurrence?_like {p q : Place} (h : LikePlaces R p q) {e d : Edge} (hstep : e.step = d.step)
    (hchild : R e.child d.child) (role : Role) {n : Value} (hn : n.isKey = true) :
    Option.Rel (Both LikeOccurrences) (p.occurrence? n e role)
      (q.occurrence? (ρ.name n) d role) := by
  obtain ⟨hpath, hrole, hnode⟩ := h
  have htagEq := L.isTagReference_eq hnode hstep hchild
  have hidEq := L.isKind_eq hchild "Identifier"
  have hjsxEq := L.isKind_eq hchild "JSXIdentifier"
  obtain ⟨step, child⟩ := e
  obtain ⟨_, child'⟩ := d
  obtain rfl : step = _ := hstep
  dsimp only at hchild htagEq hidEq hjsxEq
  cases L.form hchild with
  | @plain child hplain =>
    cases child with
    | obj => cases hplain
    | _ => exact .none
  | arr => exact .none
  | @obj fs gs =>
    by_cases hname : isName (.obj fs) = true
    · have hsame : (Fields.get fs "name").same n = (Fields.get gs "name").same (ρ.name n) :=
        LikeName.same_eq (rel_getD (L.named hchild hname) .null) hn
      have hspan : Both (Option.Rel LikeSpans) (span (.obj fs)) (span (.obj gs)) :=
        .ok (L.use hchild hname)
      simp only [Place.occurrence?, ← hjsxEq, ← hidEq, hsame, hpath]
      cases hjsx : isKind (.obj fs) "JSXIdentifier" with
      | true =>
        rw [htagEq hjsx, if_pos rfl, if_pos rfl]
        by_cases hspelled : (Fields.get gs "name").same (ρ.name n) = true
        · rw [if_pos hspelled, if_pos hspelled]
          cases isTagReference q.node ⟨step, .obj gs⟩ with
          | error fault => exact .some (.error fault)
          | ok stands =>
            cases stands with
            | false => exact .none
            | true => exact .some (.ok ⟨rfl, rfl, hspan⟩)
        · rw [if_neg hspelled, if_neg hspelled]
          exact .none
      | false =>
        rw [if_neg Bool.false_ne_true, if_neg Bool.false_ne_true]
        split
        · exact .some (.ok ⟨rfl, rfl, hspan⟩)
        · exact .none
    · obtain ⟨hid, hjsx⟩ := Bool.or_eq_false_iff.mp (Bool.eq_false_iff.mpr hname)
      simp only [Place.occurrence?, ← hjsxEq, ← hidEq, hid, hjsx]
      exact .none

/-- At related places the same is found. -/
theorem found_like {p q : Place} (h : LikePlaces R p q) {n : Value} (hn : n.isKey = true) :
    List.Forall₂ (Both LikeOccurrences) (p.found n) (q.found (ρ.name n)) := by
  refine List.rel_filterMap ?_ (L.children_like h)
  rintro ⟨e, role⟩ ⟨d, _⟩ ⟨⟨hstep, hchild⟩, heq⟩
  obtain rfl : role = _ := heq
  exact L.occurrence?_like h hstep hchild role hn

/-- From related places the search goes on to related places. -/
theorem next_like {p q : Place} (h : LikePlaces R p q) :
    List.Forall₂ (LikePlaces R) p.next q.next := by
  refine List.rel_filterMap ?_ (L.children_like h)
  rintro ⟨e, role⟩ ⟨d, _⟩ ⟨⟨hstep, hchild⟩, heq⟩
  obtain rfl : role = _ := heq
  dsimp only
  rw [L.isKind_eq hchild]
  split
  · exact .none
  · refine .some ⟨?_, rfl, hchild⟩
    rw [Place.child, Place.child, hstep, h.1]

/-- From related places the search finds the same, in the same order. -/
theorem search_like {n : Value} (hn : n.isKey = true) {ps qs : List Place}
    (h : List.Forall₂ (LikePlaces R) ps qs) :
    List.Forall₂ (Both LikeOccurrences) (search n ps) (search (ρ.name n) qs) := by
  fun_induction search n ps generalizing qs with
  | case1 =>
    cases h
    rw [search]
    exact .nil
  | case2 place rest ih =>
    cases h with
    | cons hhere hrest =>
      rw [search]
      exact List.rel_append (L.found_like hhere hn) (ih (List.rel_append (L.next_like hhere) hrest))

/-- Corresponding names occur at the same places of related roots, in the same order. -/
theorem occurrences_like (h : R v w) {n : Value} (hn : n.isKey = true) :
    List.Forall₂ (Both LikeOccurrences) (occurrences v n) (occurrences w (ρ.name n)) := by
  have hchecked := L.checkedEdges_like h
  unfold occurrences
  generalize checkedEdges v = x at hchecked ⊢
  generalize checkedEdges w = y at hchecked ⊢
  cases hchecked with
  | error fault => exact .cons (.error fault) .nil
  | ok => exact L.search_like hn (.cons ⟨rfl, rfl, h⟩ .nil)

end TreeLint.Syntax.Likeness

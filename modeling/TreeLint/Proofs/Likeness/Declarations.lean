/-
  Declarations of programs that look the same.

  Programs that a likeness relates declare corresponding names, in the same order and as bindings of
  the same kinds.
-/
import TreeLint.Proofs.Likeness.Basic
import TreeLint.Usage.Declaration

set_option autoImplicit false

namespace TreeLint.Usage

open TreeLint.Json TreeLint.Syntax

/-! ## Rows -/

/-- What the items of a list give, one after the other; anything else is gone through for nodes. -/
def rowOf {α : Type} (parts : Value → List (Except Fault α)) : Value → List (Except Fault α)
  | .arr items => items.flatMap parts
  | v => (strayElements v).map .error

theorem rowOf_of_ne {α : Type} (parts : Value → List (Except Fault α)) {v : Value}
    (h : ∀ items, v ≠ .arr items) : rowOf parts v = (strayElements v).map .error := by
  cases v with
  | arr items => exact absurd rfl (h items)
  | _ => rfl

/-- What is found for each element of related rows, one after the other. -/
theorem forall₂_flatMap {α β γ δ : Type} {R : α → β → Prop} {S : γ → δ → Prop} {xs : List α}
    {ys : List β} {f : α → List γ} {g : β → List δ} (h : List.Forall₂ R xs ys)
    (hstep : ∀ a ∈ xs, ∀ b, R a b → List.Forall₂ S (f a) (g b)) :
    List.Forall₂ S (xs.flatMap f) (ys.flatMap g) := by
  induction h with
  | nil => exact .nil
  | cons hhere _ ih =>
    rw [List.flatMap_cons, List.flatMap_cons]
    exact List.rel_append (hstep _ List.mem_cons_self _ hhere)
      (ih fun a ha => hstep a (List.mem_cons_of_mem _ ha))

theorem strayElements_eq {R : Value → Value → Prop} {v w : Value} (h : SameForm R v w) :
    strayElements v = strayElements w := by
  unfold strayElements
  rw [h.truthy_eq]
  cases h <;> rfl

/-- Values of the same form give like rows, if their items do. -/
theorem forall₂_rowOf {α β : Type} {S : α → β → Prop} {R : Value → Value → Prop} {v w : Value}
    {f : Value → List (Except Fault α)} {g : Value → List (Except Fault β)} (h : SameForm R v w)
    (hitem : ∀ a b, sizeOf a < sizeOf v → R a b → List.Forall₂ (Both S) (f a) (g b)) :
    List.Forall₂ (Both S) (rowOf f v) (rowOf g w) := by
  have hstray : ∀ row : List Fault, List.Forall₂ (Both S) (row.map .error) (row.map .error) := by
    intro row
    rw [List.forall₂_map_left_iff, List.forall₂_map_right_iff, List.forall₂_same]
    exact fun fault _ => .error fault
  cases h with
  | @plain v hplain =>
    cases v with
    | arr => cases hplain
    | _ => exact hstray _
  | arr items =>
    exact forall₂_flatMap items fun a ha b hab => hitem a b (sizeOf_lt_of_mem ha) hab
  | @obj fs gs empty =>
    simp only [rowOf, strayElements_eq (SameForm.obj empty : SameForm R (.obj fs) (.obj gs))]
    exact hstray _

/-! ## Patterns, one level at a time -/

/-- What a member of an object pattern binds. -/
def memberNames : Value → List (Except Fault Value)
  | .obj member =>
    if (Fields.get member "type").isText "RestElement" then
      patternNames (Fields.get member "argument")
    else patternNames (Fields.get member "value")
  | _ => [.error .notObject]

theorem flatMap_memberNames (items : List Value) :
    items.flatMap memberNames = items.attach.flatMap fun item =>
      match item.1 with
      | .obj member =>
        if (Fields.get member "type").isText "RestElement" then
          patternNames (Fields.get member "argument")
        else patternNames (Fields.get member "value")
      | _ => [.error .notObject] := by
  simp only [List.flatMap_subtype, List.unattach_attach]
  rfl

/-- What an object of the given kind binds as a pattern. -/
def boundNames (fields : Fields) : Option String → List (Except Fault Value)
  | some "Identifier" => [.ok (Fields.get fields "name")]
  | some "ObjectPattern" => rowOf memberNames (Fields.get fields "properties")
  | some "ArrayPattern" => rowOf patternNames (Fields.get fields "elements")
  | some "RestElement" => patternNames (Fields.get fields "argument")
  | some "AssignmentPattern" => patternNames (Fields.get fields "left")
  | _ => []

/-- What an object binds as a pattern depends on its kind. -/
theorem patternNames_obj (fields : Fields) :
    patternNames (.obj fields) = boundNames fields (Fields.get fields "type").text? := by
  rw [patternNames]
  split
  · next heq => rw [heq, boundNames]
  · next heq =>
    rw [heq, boundNames]
    split
    · next items hitems =>
      rw [hitems, rowOf, flatMap_memberNames]
      refine congrArg (items.attach.flatMap ·) (funext fun item => ?_)
      split
      · next member hmember => simp only [hmember]
      · next hno =>
        split
        · next member hmember => exact (hno member hmember).elim
        · rfl
    · next hno => rw [rowOf_of_ne _ hno]
  · next heq =>
    rw [heq, boundNames]
    split
    · next items hitems => simp only [hitems, rowOf, List.flatMap_subtype, List.unattach_attach]
    · next hno => rw [rowOf_of_ne _ hno]
  · next heq => rw [heq, boundNames]
  · next heq => rw [heq, boundNames]
  · next hidentifier hobject harray hrest hassignment =>
    rw [boundNames]
    · exact hidentifier
    · exact hobject
    · exact harray
    · exact hrest
    · exact hassignment

/-! ## Declarations -/

/-- The declarations are of the same kind, and their names correspond. -/
def LikeDeclarations (ρ : Renaming) (R : Value → Value → Prop) (d e : Declaration) : Prop :=
  LikeName ρ R d.name e.name ∧ d.kind = e.kind

/-- Under corresponding names, in the same order, the same kinds are declared. -/
def LikeGathered (ρ : Renaming) (a b : Gathered) : Prop :=
  List.Forall₂ (fun x y => y.1 = ρ.name x.1 ∧
    x.2.map Declaration.kind = y.2.map Declaration.kind) a b

namespace LikeGathered

variable {ρ : Renaming} {a b : Gathered}

theorem add (h : LikeGathered ρ a b) {d e : Declaration} (hname : e.name = ρ.name d.name)
    (hkind : d.kind = e.kind) : LikeGathered ρ (a.add d) (b.add e) := by
  induction h with
  | nil => exact .cons ⟨hname, by simp [hkind]⟩ .nil
  | @cons x y xs ys hhere hrest ih =>
    obtain ⟨n, ds⟩ := x
    obtain ⟨m, es⟩ := y
    obtain ⟨hm, hkinds⟩ := hhere
    dsimp only at hm hkinds
    unfold Gathered.add
    rw [hm, hname, ρ.alike_name]
    split
    · exact .cons ⟨rfl, by simp [hkinds, hkind]⟩ hrest
    · exact .cons ⟨rfl, hkinds⟩ ih

theorem kinds_eq (h : LikeGathered ρ a b) (n : Value) :
    (a.of n).map Declaration.kind = (b.of (ρ.name n)).map Declaration.kind := by
  induction h with
  | nil => rfl
  | @cons x y xs ys hhere hrest ih =>
    obtain ⟨k, ds⟩ := x
    obtain ⟨l, es⟩ := y
    obtain ⟨hl, hkinds⟩ := hhere
    dsimp only at hl hkinds
    unfold Gathered.of at ih ⊢
    simp only [List.find?_cons, hl, ρ.alike_name]
    cases k.alike n with
    | false => exact ih
    | true => exact hkinds

/-- Declarations of a kind are found under both names or under none. -/
theorem any_eq (h : LikeGathered ρ a b) (n : Value) (test : BindingKind → Bool) :
    ((a.of n).any fun d => test d.kind) = (b.of (ρ.name n)).any fun d => test d.kind := by
  have hany : ∀ ds : List Declaration, (ds.any fun d => test d.kind) =
      (ds.map Declaration.kind).any test := fun ds => List.any_map.symm
  rw [hany, hany, h.kinds_eq]

end LikeGathered

/-- Like declarations are gathered alike. -/
theorem gather_like {ρ : Renaming} {R : Value → Value → Prop}
    {xs ys : List (Except Fault Declaration)}
    (h : List.Forall₂ (Both (LikeDeclarations ρ R)) xs ys) :
    Both (LikeGathered ρ) (gather xs) (gather ys) := by
  have hfold : ∀ a b, LikeGathered ρ a b → Both (LikeGathered ρ)
      (xs.foldlM (fun gathered declaration => do
        let d ← declaration
        let _ ← d.name.key
        return gathered.add d) a)
      (ys.foldlM (fun gathered declaration => do
        let d ← declaration
        let _ ← d.name.key
        return gathered.add d) b) := by
    induction h with
    | nil => exact fun a b hab => .ok hab
    | cons hhere _ ih =>
      intro a b hab
      rw [List.foldlM_cons, List.foldlM_cons]
      refine Both.bind (R := LikeGathered ρ) ?_ ih
      refine hhere.bind fun d e hde => ?_
      obtain ⟨hname, hkind⟩ := hde
      rcases hname.key_cases with ⟨hkey, heq⟩ | ⟨hd, he⟩
      · simp only [Value.key, heq, ρ.isKey_name, hkey, if_true, ok_bind]
        exact .ok (hab.add heq hkind)
      · simp only [Value.key, hd, he]
        exact .error _
  exact hfold [] [] .nil

end TreeLint.Usage

namespace TreeLint.Syntax.Likeness

open TreeLint.Json TreeLint.Usage

variable {ρ : Renaming} {R : Value → Value → Prop} (L : Likeness ρ R) {v w : Value} {fs gs : Fields}

include L

/-- Related members of object patterns bind corresponding names, if the patterns in them do. -/
theorem memberNames_like (h : R v w) (hpart : ∀ a b, sizeOf a < sizeOf v → R a b →
      List.Forall₂ (Both (LikeName ρ R)) (patternNames a) (patternNames b)) :
    List.Forall₂ (Both (LikeName ρ R)) (memberNames v) (memberNames w) := by
  cases L.form h with
  | @plain v hplain =>
    cases v with
    | obj => cases hplain
    | _ => exact .cons (.error _) .nil
  | arr => exact .cons (.error _) .nil
  | @obj fs gs =>
    simp only [memberNames, (L.formOf h "type" (by decide)).isText_eq]
    split
    · exact hpart _ _ (sizeOf_get_lt fs "argument") (L.field h "argument" (by decide) (by decide))
    · exact hpart _ _ (sizeOf_get_lt fs "value") (L.field h "value" (by decide) (by decide))

/-- Related patterns bind corresponding names. -/
theorem patternNames_like (h : R v w) :
    List.Forall₂ (Both (LikeName ρ R)) (patternNames v) (patternNames w) := by
  induction hsize : sizeOf v using Nat.strongRecOn generalizing v w with
  | ind size ih =>
    cases L.form h with
    | @plain v hplain =>
      cases v with
      | null => simp [patternNames]
      | obj => cases hplain
      | _ => simpa [patternNames] using Both.error _
    | arr => simpa [patternNames] using Both.error _
    | @obj fs gs =>
      have hpart : ∀ key, key ∉ typeFields → key ≠ "name" → List.Forall₂ (Both (LikeName ρ R))
          (patternNames (Fields.get fs key)) (patternNames (Fields.get gs key)) :=
        fun key htyped hname => ih _ (hsize ▸ sizeOf_get_lt fs key) (L.field h key htyped hname) rfl
      rw [patternNames_obj, patternNames_obj, ← (L.formOf h "type" (by decide)).text?_eq]
      generalize hkind : (Fields.get fs "type").text? = kind
      unfold boundNames
      split
      · have hname : isName (.obj fs) = true := by simp [isName, isKind_iff, kind?, hkind]
        exact .cons (.ok (rel_getD (L.named h hname) .null)) .nil
      · refine forall₂_rowOf (L.formOf h "properties" (by decide)) fun a b ha hab => ?_
        refine L.memberNames_like hab fun c d hc hcd => ih _ ?_ hcd rfl
        exact hsize ▸ Nat.lt_trans (Nat.lt_trans hc ha) (sizeOf_get_lt fs "properties")
      · refine forall₂_rowOf (L.formOf h "elements" (by decide)) fun a b ha hab => ih _ ?_ hab rfl
        exact hsize ▸ Nat.lt_trans ha (sizeOf_get_lt fs "elements")
      · exact hpart "argument" (by decide) (by decide)
      · exact hpart "left" (by decide) (by decide)
      · exact .nil

theorem declaratorDeclarations_like (h : R v w) :
    List.Forall₂ (Both (LikeDeclarations ρ R)) (declaratorDeclarations v)
      (declaratorDeclarations w) := by
  cases L.form h with
  | @plain v hplain =>
    cases v with
    | obj => cases hplain
    | _ => exact .cons (.error _) .nil
  | arr => exact .cons (.error _) .nil
  | obj =>
    refine List.rel_map ?_ (L.patternNames_like (L.field h "id" (by decide) (by decide)))
    intro a b hab
    exact hab.map fun c d hcd => ⟨hcd, rfl⟩

theorem namedDeclaration_like (h : R (.obj fs) (.obj gs)) (hkind : declaresOne (.obj fs) = true)
    (kind : BindingKind) :
    List.Forall₂ (Both (LikeDeclarations ρ R)) (namedDeclaration kind fs)
      (namedDeclaration kind gs) := by
  have hid := L.formOf h "id" (by decide)
  have hdeclared := @L.declared fs gs
  unfold namedDeclaration
  generalize Fields.get fs "id" = a at hid hdeclared ⊢
  generalize Fields.get gs "id" = b at hid hdeclared ⊢
  cases hid with
  | @plain a hplain =>
    cases a with
    | null => exact .nil
    | obj => cases hplain
    | _ => exact .cons (.error _) .nil
  | arr => exact .cons (.error _) .nil
  | obj => exact .cons (.ok ⟨rel_getD (hdeclared h hkind rfl rfl) .null, rfl⟩) .nil

/-- Related statements declare corresponding names. -/
theorem statementDeclarations_like (h : R v w) :
    List.Forall₂ (Both (LikeDeclarations ρ R)) (statementDeclarations v)
      (statementDeclarations w) := by
  induction hsize : sizeOf v using Nat.strongRecOn generalizing v w with
  | ind size ih =>
    cases L.form h with
    | @plain v hplain =>
      cases v with
      | null => simp [statementDeclarations]
      | obj => cases hplain
      | _ => simpa [statementDeclarations] using Both.error _
    | arr => simpa [statementDeclarations] using Both.error _
    | @obj fs gs =>
      have hbelow := ih _ (hsize ▸ sizeOf_get_lt fs "declaration")
        (L.field h "declaration" (by decide) (by decide)) rfl
      rw [statementDeclarations, statementDeclarations,
        ← (L.formOf h "type" (by decide)).text?_eq]
      generalize hkind : (Fields.get fs "type").text? = kind
      split
      · exact L.namedDeclaration_like h (by simp [declaresOne, isKind_iff, kind?, hkind]) _
      · exact L.namedDeclaration_like h (by simp [declaresOne, isKind_iff, kind?, hkind]) _
      · exact forall₂_rowOf (L.formOf h "declarations" (by decide)) fun a b _ hab =>
          L.declaratorDeclarations_like hab
      · exact hbelow
      · exact hbelow
      · exact .nil

/-- Related programs declare corresponding names, in the same order. -/
theorem programDeclarations_like (h : R v w) :
    List.Forall₂ (Both (LikeDeclarations ρ R)) (programDeclarations v) (programDeclarations w) := by
  cases L.form h with
  | @plain v hplain =>
    cases v with
    | obj => cases hplain
    | _ => exact .cons (.error _) .nil
  | arr => exact .cons (.error _) .nil
  | obj =>
    exact forall₂_rowOf (L.formOf h "body" (by decide)) fun a b _ hab =>
      L.statementDeclarations_like hab

/-- Related programs have corresponding names under which the same kinds are declared. -/
theorem declarations_like (h : R v w) :
    Both (LikeGathered ρ) (declarations v) (declarations w) :=
  gather_like (L.programDeclarations_like h)

end TreeLint.Syntax.Likeness

/-
  The patterns of variables, and the places where they bind names.

  A pattern is a name, or is made of patterns: the members of an object, the elements of an array, what takes
  the rest, and what has a default value.  The names that are read off a pattern belong to the identifiers in
  it that bind them, one for one.
-/
import TreeLint.Proofs.Declared
import TreeLint.Proofs.ExportedWrapper
import TreeLint.Proofs.OccurrencePath

set_option autoImplicit false

namespace TreeLint.Usage

open TreeLint.Json TreeLint.Syntax

/-! ## Patterns -/

/-- The kinds that make a pattern of one of their fields. -/
def binderKinds : List String :=
  functionKinds ++ ["CatchClause", "VariableDeclarator", "TSParameterProperty"]

/-- No node of the tree makes a pattern of one of its fields. -/
def BindsNothing (root : Value) : Prop :=
  Everywhere (fun v => ∀ kind ∈ binderKinds, isKind v kind = false) root

/-- What the field holds has no bindings of its own. -/
def QuietAt (v : Value) (field : String) : Prop :=
  ∀ e ∈ edges v, e.step.field = field → BindsNothing e.child

/-- The value is a pattern that binds names, at any depth.  Its decorators, default values and computed keys
have no bindings of their own. -/
inductive BindingPattern : Value → Prop
  /-- A name. -/
  | identifier {v : Value} {name : String} (kind : isKind v "Identifier" = true)
      (named : fieldOf v "name" = .str name) (decorators : QuietAt v "decorators") : BindingPattern v
  /-- The members of an object: properties, and what takes the rest. -/
  | object {v : Value} {items : List Value} (kind : isKind v "ObjectPattern" = true)
      (list : fieldOf v "properties" = .arr items)
      (members : ∀ m ∈ items, isKind m "Property" = true ∨ isKind m "RestElement" = true)
      (keys : ∀ m ∈ items, isKind m "Property" = true → (fieldOf m "computed").truthy = true →
        QuietAt m "key")
      (inner : ∀ m ∈ items, BindingPattern (fieldOf m (memberField m))) : BindingPattern v
  /-- The elements of an array, with gaps. -/
  | array {v : Value} {items : List Value} (kind : isKind v "ArrayPattern" = true)
      (list : fieldOf v "elements" = .arr items)
      (inner : ∀ item ∈ items, item ≠ .null → BindingPattern item) : BindingPattern v
  /-- What takes the rest. -/
  | rest {v : Value} (kind : isKind v "RestElement" = true)
      (inner : BindingPattern (fieldOf v "argument")) : BindingPattern v
  /-- A pattern with a default value. -/
  | assignment {v : Value} (kind : isKind v "AssignmentPattern" = true)
      (inner : BindingPattern (fieldOf v "left")) (value : QuietAt v "right") : BindingPattern v

/-- The value declares variables by a pattern, and its initial value has no bindings of its own. -/
structure BindingDeclarator (v : Value) : Prop where
  kind : isKind v "VariableDeclarator" = true
  pattern : BindingPattern (fieldOf v "id")
  init : QuietAt v "init"

/-- The pattern at the first path binds a name at the second, where the identifier stands. -/
inductive Binds : Path → Value → Path → Value → Prop
  /-- A name binds itself. -/
  | identifier {base : Path} {v : Value} (kind : isKind v "Identifier" = true) : Binds base v base v
  /-- In a member of an object. -/
  | member {base path : Path} {v m x : Value} {items : List Value} {i : Nat}
      (kind : isKind v "ObjectPattern" = true) (list : fieldOf v "properties" = .arr items)
      (here : items[i]? = some m)
      (inner : Binds (⟨memberField m, none⟩ :: ⟨"properties", some i⟩ :: base)
        (fieldOf m (memberField m)) path x) : Binds base v path x
  /-- In an element of an array. -/
  | element {base path : Path} {v item x : Value} {items : List Value} {i : Nat}
      (kind : isKind v "ArrayPattern" = true) (list : fieldOf v "elements" = .arr items)
      (here : items[i]? = some item) (inner : Binds (⟨"elements", some i⟩ :: base) item path x) :
      Binds base v path x
  /-- In what takes the rest. -/
  | rest {base path : Path} {v x : Value} (kind : isKind v "RestElement" = true)
      (inner : Binds (⟨"argument", none⟩ :: base) (fieldOf v "argument") path x) : Binds base v path x
  /-- In a pattern with a default value. -/
  | assignment {base path : Path} {v x : Value} (kind : isKind v "AssignmentPattern" = true)
      (inner : Binds (⟨"left", none⟩ :: base) (fieldOf v "left") path x) : Binds base v path x

/-! ## Names -/

section Names

variable {v : Value}

/-- What a node of a kind binds as a pattern. -/
theorem patternNames_of_isKind {kind : String} (h : isKind v kind = true) :
    ∃ fields, v = .obj fields ∧ patternNames v = boundNames fields (some kind) := by
  obtain ⟨fields, _, rfl, _⟩ := isNode_iff.mp (isNode_of_isKind h)
  have htype : (Fields.get fields "type").text? = some kind := isKind_iff.mp h
  exact ⟨fields, rfl, by rw [patternNames_obj, htype]⟩

theorem patternNames_identifier (h : isKind v "Identifier" = true) :
    patternNames v = [.ok (fieldOf v "name")] := by
  obtain ⟨fields, rfl, hnames⟩ := patternNames_of_isKind h
  rw [hnames, boundNames, fieldOf_obj]

theorem memberNames_of_isNode {m : Value} (h : isNode m = true) :
    memberNames m = patternNames (fieldOf m (memberField m)) := by
  obtain ⟨member, _, rfl, _⟩ := isNode_iff.mp h
  rw [memberNames, memberField, isText_type]
  split
  · rfl
  · rfl

theorem patternNames_object {items : List Value} (h : isKind v "ObjectPattern" = true)
    (hitems : fieldOf v "properties" = .arr items) (hmembers : ∀ m ∈ items, isNode m = true) :
    patternNames v = items.flatMap fun m => patternNames (fieldOf m (memberField m)) := by
  obtain ⟨fields, rfl, hnames⟩ := patternNames_of_isKind h
  rw [fieldOf_obj] at hitems
  rw [hnames, boundNames, hitems, rowOf]
  exact List.flatMap_congr fun m hm => memberNames_of_isNode (hmembers m hm)

theorem patternNames_array {items : List Value} (h : isKind v "ArrayPattern" = true)
    (hitems : fieldOf v "elements" = .arr items) : patternNames v = items.flatMap patternNames := by
  obtain ⟨fields, rfl, hnames⟩ := patternNames_of_isKind h
  rw [fieldOf_obj] at hitems
  rw [hnames, boundNames, hitems, rowOf]

theorem patternNames_rest (h : isKind v "RestElement" = true) :
    patternNames v = patternNames (fieldOf v "argument") := by
  obtain ⟨fields, rfl, hnames⟩ := patternNames_of_isKind h
  rw [hnames, boundNames, fieldOf_obj]

theorem patternNames_assignment (h : isKind v "AssignmentPattern" = true) :
    patternNames v = patternNames (fieldOf v "left") := by
  obtain ⟨fields, rfl, hnames⟩ := patternNames_of_isKind h
  rw [hnames, boundNames, fieldOf_obj]

end Names

/-! ## Places -/

section Places

variable {base path : Path} {v x : Value} {items : List Value}

theorem binds_identifier_iff (h : isKind v "Identifier" = true) :
    Binds base v path x ↔ path = base ∧ x = v := by
  constructor
  · intro hbinds
    cases hbinds with
    | identifier => exact ⟨rfl, rfl⟩
    | member kind | element kind | rest kind | assignment kind =>
      exact absurd (isKind_unique h kind) (by decide)
  · rintro ⟨rfl, rfl⟩
    exact .identifier h

theorem binds_object_iff (h : isKind v "ObjectPattern" = true)
    (hitems : fieldOf v "properties" = .arr items) :
    Binds base v path x ↔ ∃ i m, items[i]? = some m ∧
      Binds (⟨memberField m, none⟩ :: ⟨"properties", some i⟩ :: base) (fieldOf m (memberField m))
        path x := by
  refine ⟨fun hbinds => ?_, fun ⟨i, m, here, inner⟩ => .member h hitems here inner⟩
  cases hbinds with
  | member _ list here inner =>
    cases list.symm.trans hitems
    exact ⟨_, _, here, inner⟩
  | identifier kind | element kind | rest kind | assignment kind =>
    exact absurd (isKind_unique h kind) (by decide)

theorem binds_array_iff (h : isKind v "ArrayPattern" = true)
    (hitems : fieldOf v "elements" = .arr items) :
    Binds base v path x ↔ ∃ i item, items[i]? = some item ∧
      Binds (⟨"elements", some i⟩ :: base) item path x := by
  refine ⟨fun hbinds => ?_, fun ⟨i, m, here, inner⟩ => .element h hitems here inner⟩
  cases hbinds with
  | element _ list here inner =>
    cases list.symm.trans hitems
    exact ⟨_, _, here, inner⟩
  | identifier kind | member kind | rest kind | assignment kind =>
    exact absurd (isKind_unique h kind) (by decide)

theorem binds_rest_iff (h : isKind v "RestElement" = true) :
    Binds base v path x ↔ Binds (⟨"argument", none⟩ :: base) (fieldOf v "argument") path x := by
  refine ⟨fun hbinds => ?_, .rest h⟩
  cases hbinds with
  | rest _ inner => exact inner
  | identifier kind | member kind | element kind | assignment kind =>
    exact absurd (isKind_unique h kind) (by decide)

theorem binds_assignment_iff (h : isKind v "AssignmentPattern" = true) :
    Binds base v path x ↔ Binds (⟨"left", none⟩ :: base) (fieldOf v "left") path x := by
  refine ⟨fun hbinds => ?_, .assignment h⟩
  cases hbinds with
  | assignment _ inner => exact inner
  | identifier kind | member kind | element kind | rest kind =>
    exact absurd (isKind_unique h kind) (by decide)

end Places

/-- What stands at a gap binds nothing. -/
theorem not_binds_null {base path : Path} {x : Value} : ¬ Binds base .null path x := by
  intro h
  cases h with
  | identifier kind | member kind | element kind | rest kind | assignment kind => cases kind

theorem Binds.isIdentifier {base path : Path} {v x : Value} (h : Binds base v path x) :
    isKind x "Identifier" = true := by
  induction h with
  | identifier kind => exact kind
  | member _ _ _ _ ih | element _ _ _ _ ih | rest _ _ ih | assignment _ _ ih => exact ih

theorem Binds.suffix {base path : Path} {v x : Value} (h : Binds base v path x) : base <:+ path := by
  induction h with
  | identifier => exact List.suffix_refl _
  | member _ _ _ _ ih => exact ((List.suffix_cons _ _).trans (List.suffix_cons _ _)).trans ih
  | element _ _ _ _ ih | rest _ _ ih | assignment _ _ ih => exact (List.suffix_cons _ _).trans ih

/-- What a pattern binds is a name with a text. -/
theorem BindingPattern.named {base path : Path} {v x : Value} (h : BindingPattern v)
    (hsite : Binds base v path x) : ∃ name, fieldOf x "name" = .str name := by
  induction h generalizing base with
  | identifier kind named =>
    obtain ⟨_, rfl⟩ := (binds_identifier_iff kind).mp hsite
    exact ⟨_, named⟩
  | object kind list _ _ _ ih =>
    obtain ⟨i, m, here, hsite⟩ := (binds_object_iff kind list).mp hsite
    exact ih m (List.mem_of_getElem? here) hsite
  | array kind list _ ih =>
    obtain ⟨i, item, here, hsite⟩ := (binds_array_iff kind list).mp hsite
    exact ih item (List.mem_of_getElem? here) (fun hgap => not_binds_null (hgap ▸ hsite)) hsite
  | rest kind _ ih => exact ih ((binds_rest_iff kind).mp hsite)
  | assignment kind _ _ ih => exact ih ((binds_assignment_iff kind).mp hsite)

/-- The row lists the identifiers of the given names, each with its place: those that have the property, no
place twice, all of them below the first path. -/
structure SitesOf (names : List (Except Fault Value)) (base : Path) (P : Path → Value → Prop)
    (sites : List (Path × Value)) : Prop where
  names : names = sites.map fun site => .ok (fieldOf site.2 "name")
  distinct : (sites.map Prod.fst).Nodup
  exact : ∀ path x, (path, x) ∈ sites ↔ P path x
  below : ∀ site ∈ sites, base <:+ site.1

/-- A part of a pattern lists what it binds for the whole. -/
theorem SitesOf.part {names : List (Except Fault Value)} {base : Path} {P Q : Path → Value → Prop}
    {sites : List (Path × Value)} {step : Step} (h : SitesOf names (step :: base) P sites)
    (hsame : ∀ path x, P path x ↔ Q path x) : SitesOf names base Q sites where
  names := h.names
  distinct := h.distinct
  exact path x := (h.exact path x).trans (hsame path x)
  below site hsite := (List.suffix_cons step base).trans (h.below site hsite)

/-- The items of a list together list what each of them lists. -/
theorem exists_sites_of_items (field : String) (base : Path) (parts : Value → List (Except Fault Value))
    (B : Nat → Value → Path → Value → Prop) {items : List Value} (first : Nat)
    (h : ∀ i item, items[i]? = some item → ∃ sites,
      SitesOf (parts item) (⟨field, some (first + i)⟩ :: base) (B (first + i) item) sites) :
    ∃ sites, SitesOf (items.flatMap parts) base
      (fun path x => ∃ i item, items[i]? = some item ∧ B (first + i) item path x) sites ∧
      ∀ site ∈ sites, ∃ i, first ≤ i ∧ (⟨field, some i⟩ :: base) <:+ site.1 := by
  -- Along the items.  Places in different items part at the number of the item.
  induction items generalizing first with
  | nil => exact ⟨[], ⟨rfl, List.nodup_nil, by simp, by simp⟩, by simp⟩
  | cons item items ih =>
    obtain ⟨here, hhere⟩ := h 0 item rfl
    have hnext : ∀ i, first + (i + 1) = first + 1 + i := fun i => by omega
    obtain ⟨later, hlater, hplaces⟩ := ih (first + 1) fun i other hother =>
      hnext i ▸ h (i + 1) other hother
    refine ⟨here ++ later, ⟨?_, ?_, fun path x => ?_, ?_⟩, ?_⟩
    · rw [List.flatMap_cons, List.map_append, hhere.names, hlater.names]
    · rw [List.map_append, List.nodup_append']
      refine ⟨hhere.distinct, hlater.distinct, fun path hpath hother => ?_⟩
      obtain ⟨site, hsite, rfl⟩ := List.mem_map.mp hpath
      obtain ⟨other, hmem, heq⟩ := List.mem_map.mp hother
      obtain ⟨i, hi, hbelow⟩ := hplaces other hmem
      have hsteps : (⟨field, some (first + 0)⟩ : Step) ≠ ⟨field, some i⟩ := by
        intro hstep
        have : first + 0 = i := by injection hstep with _ hindex; injection hindex
        omega
      exact (part_of_step_ne base hsteps).ne (hhere.below site hsite) hbelow heq.symm
    · rw [List.mem_append, hhere.exact, hlater.exact]
      constructor
      · rintro (hbinds | ⟨i, other, hother, hbinds⟩)
        · exact ⟨0, item, rfl, hbinds⟩
        · exact ⟨i + 1, other, hother, hnext i ▸ hbinds⟩
      · rintro ⟨i, other, hother, hbinds⟩
        cases i with
        | zero =>
          cases hother
          exact .inl hbinds
        | succ i => exact .inr ⟨i, other, hother, hnext i ▸ hbinds⟩
    · intro site hsite
      rcases List.mem_append.mp hsite with hsite | hsite
      · exact (List.suffix_cons _ base).trans (hhere.below site hsite)
      · exact hlater.below site hsite
    · intro site hsite
      rcases List.mem_append.mp hsite with hsite | hsite
      · exact ⟨first, Nat.le_refl first, hhere.below site hsite⟩
      · obtain ⟨i, hi, hbelow⟩ := hplaces site hsite
        exact ⟨i, Nat.le_of_succ_le hi, hbelow⟩

/-- The names of a pattern belong to the identifiers that bind them, one for one. -/
theorem BindingPattern.exists_sites {v : Value} (h : BindingPattern v) (base : Path) :
    ∃ sites, SitesOf (patternNames v) base (Binds base v) sites := by
  induction h generalizing base with
  | @identifier v name kind named decorators =>
    refine ⟨[(base, v)], ⟨patternNames_identifier kind, List.nodup_singleton _, fun path x => ?_, ?_⟩⟩
    · rw [List.mem_singleton, Prod.mk.injEq, binds_identifier_iff kind]
    · rintro site hsite
      rw [List.mem_singleton.mp hsite]
  | @object v items kind list members keys inner ih =>
    have hnodes : ∀ m ∈ items, isNode m = true := fun m hm =>
      (members m hm).elim isNode_of_isKind isNode_of_isKind
    have hmember : ∀ i m, items[i]? = some m → ∃ sites,
        SitesOf (patternNames (fieldOf m (memberField m))) (⟨"properties", some (0 + i)⟩ :: base)
          (Binds (⟨memberField m, none⟩ :: ⟨"properties", some (0 + i)⟩ :: base)
            (fieldOf m (memberField m))) sites := by
      intro i m hm
      obtain ⟨sites, hsites⟩ := ih m (List.mem_of_getElem? hm)
        (⟨memberField m, none⟩ :: ⟨"properties", some (0 + i)⟩ :: base)
      exact ⟨sites, hsites.part fun _ _ => Iff.rfl⟩
    obtain ⟨sites, hsites, _⟩ := exists_sites_of_items "properties" base
      (fun m => patternNames (fieldOf m (memberField m)))
      (fun i m => Binds (⟨memberField m, none⟩ :: ⟨"properties", some i⟩ :: base)
        (fieldOf m (memberField m))) 0 hmember
    rw [patternNames_object kind list hnodes]
    simp only [Nat.zero_add, ← binds_object_iff kind list] at hsites
    exact ⟨sites, hsites⟩
  | @array v items kind list inner ih =>
    have hgap : patternNames .null = [] := by rw [patternNames]
    have hitem : ∀ i item, items[i]? = some item → ∃ sites,
        SitesOf (patternNames item) (⟨"elements", some (0 + i)⟩ :: base)
          (Binds (⟨"elements", some (0 + i)⟩ :: base) item) sites := by
      intro i item here
      by_cases hnull : item = .null
      · subst hnull
        exact ⟨[], hgap, List.nodup_nil, fun path x => by simp [not_binds_null], by simp⟩
      · exact ih item (List.mem_of_getElem? here) hnull _
    obtain ⟨sites, hsites, _⟩ := exists_sites_of_items "elements" base patternNames
      (fun i item => Binds (⟨"elements", some i⟩ :: base) item) 0 hitem
    rw [patternNames_array kind list]
    simp only [Nat.zero_add, ← binds_array_iff kind list] at hsites
    exact ⟨sites, hsites⟩
  | @rest v kind inner ih =>
    obtain ⟨sites, hsites⟩ := ih (⟨"argument", none⟩ :: base)
    rw [patternNames_rest kind]
    exact ⟨sites, hsites.part fun path x => (binds_rest_iff kind).symm⟩
  | @assignment v kind inner value ih =>
    obtain ⟨sites, hsites⟩ := ih (⟨"left", none⟩ :: base)
    rw [patternNames_assignment kind]
    exact ⟨sites, hsites.part fun path x => (binds_assignment_iff kind).symm⟩

/-- Every name that is read off a pattern is that of an identifier in it. -/
theorem BindingPattern.exists_site {v : Value} {name : Except Fault Value} (h : BindingPattern v) (base : Path)
    (hname : name ∈ patternNames v) :
    ∃ path x text, Binds base v path x ∧ fieldOf x "name" = .str text ∧ name = .ok (.str text) := by
  obtain ⟨sites, hsites⟩ := h.exists_sites base
  rw [hsites.names] at hname
  obtain ⟨⟨path, x⟩, hsite, rfl⟩ := List.mem_map.mp hname
  have hbinds := (hsites.exact path x).mp hsite
  obtain ⟨text, htext⟩ := h.named hbinds
  exact ⟨path, x, text, hbinds, htext, congrArg Except.ok htext⟩

end TreeLint.Usage

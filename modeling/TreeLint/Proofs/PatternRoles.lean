/-
  The roles of what stands in a pattern.

  The search for occurrences goes through a pattern child by child.  It comes to each place where the pattern
  binds a name, as part of a pattern, and everything else that it comes to is used, not bound, as long as the
  default values, the computed keys and the decorators have no bindings of their own.
-/
import TreeLint.Proofs.Pattern

set_option autoImplicit false

namespace TreeLint.Usage

open TreeLint.Json TreeLint.Syntax

/-! ## Children of patterns -/

theorem mem_fieldEdges_items_iff {name : String} {items : List Value} {e : Edge} :
    e ∈ fieldEdges name (.arr items) ↔ ∃ i item, items[i]? = some item ∧ isNode item = true ∧
      e = ⟨⟨name, some i⟩, item⟩ := by
  simp only [fieldEdges, itemEdges, List.mem_filterMap, Prod.exists, List.mk_mem_zipIdx_iff_getElem?]
  constructor
  · rintro ⟨item, i, hitem, heq⟩
    split at heq
    · next hnode => exact ⟨i, item, hitem, hnode, (Option.some.inj heq).symm⟩
    · cases heq
  · rintro ⟨i, item, hitem, hnode, rfl⟩
    exact ⟨item, i, hitem, if_pos hnode⟩

theorem mem_fieldEdges_node_iff {name : String} {v : Value} {e : Edge} (h : isNode v = true) :
    e ∈ fieldEdges name v ↔ e = ⟨⟨name, none⟩, v⟩ := by
  obtain ⟨fields, _, rfl, _⟩ := isNode_iff.mp h
  rw [fieldEdges, if_pos h, List.mem_singleton]
  intro items heq
  cases heq

/-- The children of a node of a kind of the language stand in its listed fields. -/
theorem mem_edges_iff_listed {v : Value} {kind : String} {names : List String} {e : Edge}
    (hkind : isKind v kind = true) (hlisted : listedFields? kind = some names) :
    e ∈ edges v ↔ ∃ name ∈ names, e ∈ fieldEdges name (fieldOf v name) := by
  obtain ⟨fields, _, rfl, _⟩ := isNode_iff.mp (isNode_of_isKind hkind)
  rw [edges, childFields_of_kind (isKind_obj_iff.mp hkind) hlisted, List.mem_flatMap]
  rfl

/-- The kinds of patterns and members, each with the field that holds what is inside. -/
def patternParts : List (String × String) :=
  [("ObjectPattern", "properties"), ("ArrayPattern", "elements"), ("RestElement", "argument"),
   ("AssignmentPattern", "left"), ("Property", "value")]

/-- In a pattern, the pattern decides the role of each child that is no type. -/
theorem childRole_in_pattern {parent : Value} {e : Edge} {kind : String} (hkind : isKind parent kind = true)
    (hmem : kind ∈ patternKinds) :
    childRole parent e .pattern =
      if typeFields.contains e.step.field || isTypeKind ((kind? e.child).getD "") then none
      else (patternRole? kind e.step.field (fieldOf parent "computed").truthy).getD none := by
  obtain ⟨fields, _, rfl, _⟩ := isNode_iff.mp (isNode_of_isKind hkind)
  have hplain : ∀ kind ∈ patternKinds, typedExpressionFields.lookup kind = none ∧
      kind ≠ "TSModuleDeclaration" ∧ kind ≠ "TSImportEqualsDeclaration" := by decide
  obtain ⟨hlookup, hmodule, himport⟩ := hplain kind hmem
  have hdecided : ∀ field computed, ∃ decided, patternRole? kind field computed = some decided := by
    intro field computed
    unfold patternRole?
    split
    · exact ⟨_, rfl⟩
    · split
      · exact ⟨_, rfl⟩
      · rw [if_pos (List.contains_iff_mem.mpr hmem)]
        exact ⟨_, rfl⟩
  obtain ⟨decided, hrole⟩ := hdecided e.step.field (Fields.get fields "computed").truthy
  simp only [childRole, isKind_iff.mp hkind, Option.getD_some, hmodule, himport, hlookup, false_and,
    if_false, if_true, fieldOf_obj, hrole]

/-- By its kind alone, only what makes a pattern of a field gives a child that role. -/
theorem plainRole_ne_pattern {kind field : String} {computed : Bool} (h : kind ∉ binderKinds) :
    plainRole kind field computed ≠ some .pattern := by
  have hfunction : ¬ functionKinds.contains kind = true := fun hkind =>
    h (List.mem_append_left _ (List.contains_iff_mem.mp hkind))
  have hcatch : kind ≠ "CatchClause" := by
    rintro rfl
    exact h (by decide)
  have hvariable : kind ≠ "VariableDeclarator" := by
    rintro rfl
    exact h (by decide)
  have hbranch {c : Prop} [Decidable c] {a b : Option Role} (ha : a ≠ some .pattern)
      (hb : b ≠ some .pattern) : (if c then a else b) ≠ some .pattern := by
    by_cases hc : c
    · rwa [if_pos hc]
    · rwa [if_neg hc]
  simp only [plainRole, hfunction, hcatch, hvariable, Bool.false_eq_true, and_false, if_false]
  repeat' apply hbranch
  all_goals decide

theorem patternRole?_eq_none {kind field : String} {computed : Bool} (h : kind ∉ patternKinds) :
    patternRole? kind field computed = none := by
  have hproperty : kind ≠ "Property" := by
    rintro rfl
    exact h (by decide)
  have hassignment : kind ≠ "AssignmentPattern" := by
    rintro rfl
    exact h (by decide)
  have hpattern : ¬ patternKinds.contains kind = true := fun hkind => h (List.contains_iff_mem.mp hkind)
  rw [patternRole?, if_neg fun hkey => hproperty hkey.1, if_neg fun hvalue => hassignment hvalue.1,
    if_neg hpattern]

/-- Outside patterns, only what makes a pattern of a field gives a child that role. -/
theorem childRole_ne_pattern {parent : Value} {e : Edge} (he : e ∈ edges parent) {above : Role}
    (hparent : ∀ kind ∈ binderKinds, isKind parent kind = false)
    (habove : above = .pattern → ∀ kind ∈ patternKinds, isKind parent kind = false) :
    childRole parent e above ≠ some .pattern := by
  have hkinds : ∀ kinds : List String, (∀ kind ∈ kinds, isKind parent kind = false) → "" ∉ kinds →
      (kind? parent).getD "" ∉ kinds := by
    intro kinds hnone hempty hmem
    cases hkind : kind? parent with
    | none =>
      rw [hkind] at hmem
      exact hempty hmem
    | some kind =>
      rw [hkind] at hmem
      exact Bool.false_ne_true ((hnone kind hmem).symm.trans (isKind_iff.mpr hkind))
  have hbinder := hkinds binderKinds hparent (by decide)
  have hpattern := fun hrole => hkinds patternKinds (habove hrole) (by decide)
  have hdecides : ∀ field computed,
      (if above = .pattern then patternRole? ((kind? parent).getD "") field computed else none) = none := by
    intro field computed
    split
    · next hrole => exact patternRole?_eq_none (hpattern hrole)
    · rfl
  have hproperty : (kind? parent).getD "" ≠ "TSParameterProperty" := by
    intro hkind
    rw [hkind] at hbinder
    exact hbinder (by decide)
  cases parent with
  | obj fields =>
    simp only [childRole, hdecides, if_neg hproperty]
    split
    · decide
    · split
      · decide
      · split
        · decide
        · split
          · split
            · decide
            · decide
          · exact plainRole_ne_pattern hbinder
  | _ => cases he

/-- The value has the kind of a name, of a pattern, or of a member of one. -/
def IsPart (v : Value) : Prop :=
  ∃ kind ∈ "Identifier" :: patternKinds, isKind v kind = true

theorem IsPart.not_type {v : Value} (h : IsPart v) : isTypeKind ((kind? v).getD "") = false := by
  have hall : ∀ kind ∈ "Identifier" :: patternKinds, isTypeKind kind = false := by decide +kernel
  obtain ⟨kind, hmem, hkind⟩ := h
  rw [isKind_iff.mp hkind]
  exact hall kind hmem

theorem BindingPattern.isPart {v : Value} (h : BindingPattern v) : IsPart v := by
  cases h with
  | identifier kind | object kind | array kind | rest kind | assignment kind =>
    exact ⟨_, by decide, kind⟩

theorem BindingPattern.isNode {v : Value} (h : BindingPattern v) : Syntax.isNode v = true := by
  obtain ⟨kind, _, hkind⟩ := h.isPart
  exact isNode_of_isKind hkind

section Parts

variable {parent : Value} {e : Edge} {kind field : String} (hkind : isKind parent kind = true)
  (hpart : (kind, field) ∈ patternParts) (hfield : e.step.field = field)

include hkind hpart hfield

/-- What is inside a pattern is part of it. -/
theorem childRole_of_part (hchild : IsPart e.child) : childRole parent e .pattern = some .pattern := by
  have hparts : ∀ part ∈ patternParts, part.1 ∈ patternKinds ∧ typeFields.contains part.2 = false ∧
      ∀ computed, patternRole? part.1 part.2 computed = some (some .pattern) := by decide
  obtain ⟨hmem, htyped, hrole⟩ := hparts _ hpart
  rw [childRole_in_pattern hkind hmem, hfield, htyped, hchild.not_type, hrole]
  rfl

/-- The way to what is inside a pattern goes on. -/
theorem Live.part {root : Value} {base : Path} (h : Live root base parent .pattern) (he : e ∈ edges parent)
    (hchild : IsPart e.child) : Live root (e.step :: base) e.child .pattern := by
  have hparts : ∀ part ∈ patternParts, part.1 ≠ "JSXIdentifier" := by decide
  refine .step h (.inr (Bool.eq_false_iff.mpr fun htag => ?_)) he
    (childRole_of_part hkind hpart hfield hchild)
  exact hparts _ hpart (isKind_unique hkind htag)

end Parts

section Edges

variable {v : Value} {kind field : String} (hkind : isKind v kind = true)
  (hpart : (kind, field) ∈ patternParts)

include hkind hpart

theorem mem_edges_of_part {e : Edge} (h : e ∈ fieldEdges field (fieldOf v field)) : e ∈ edges v := by
  have hlisted : ∀ part ∈ patternParts, ∃ names ∈ listedFields? part.1, part.2 ∈ names := by decide
  obtain ⟨names, hnames, hmem⟩ := hlisted _ hpart
  exact (mem_edges_iff_listed hkind hnames).mpr ⟨field, hmem, h⟩

/-- The way to the pattern that a field holds. -/
theorem Live.held {root : Value} {base : Path} (h : Live root base v .pattern)
    (hinner : BindingPattern (fieldOf v field)) :
    Live root (⟨field, none⟩ :: base) (fieldOf v field) .pattern :=
  Live.part hkind hpart rfl h
    (mem_edges_of_part hkind hpart ((mem_fieldEdges_node_iff hinner.isNode).mpr rfl)) hinner.isPart

/-- The way to a part in a list that a field holds. -/
theorem Live.item {root item : Value} {base : Path} {items : List Value} {i : Nat}
    (h : Live root base v .pattern) (hlist : fieldOf v field = .arr items) (hitem : items[i]? = some item)
    (hinner : IsPart item) : Live root (⟨field, some i⟩ :: base) item .pattern := by
  obtain ⟨_, _, hnode⟩ := id hinner
  refine Live.part (e := ⟨⟨field, some i⟩, item⟩) hkind hpart rfl h (mem_edges_of_part hkind hpart ?_) hinner
  rw [hlist]
  exact mem_fieldEdges_items_iff.mpr ⟨i, item, hitem, isNode_of_isKind hnode, rfl⟩

end Edges

theorem memberField_of_property {m : Value} (h : isKind m "Property" = true) : memberField m = "value" := by
  have hother : ¬ isKind m "RestElement" = true := fun hrest => absurd (isKind_unique h hrest) (by decide)
  rw [memberField, if_neg hother]

theorem memberField_of_rest {m : Value} (h : isKind m "RestElement" = true) : memberField m = "argument" := by
  rw [memberField, if_pos h]

/-- A member of an object pattern holds a pattern in one of its fields. -/
theorem exists_member_part {m : Value} (h : isKind m "Property" = true ∨ isKind m "RestElement" = true) :
    ∃ kind, isKind m kind = true ∧ (kind, memberField m) ∈ patternParts := by
  rcases h with hproperty | hrest
  · rw [memberField_of_property hproperty]
    exact ⟨_, hproperty, by decide⟩
  · rw [memberField_of_rest hrest]
    exact ⟨_, hrest, by decide⟩

theorem isPart_of_member {m : Value} (h : isKind m "Property" = true ∨ isKind m "RestElement" = true) :
    IsPart m := by
  rcases h with hproperty | hrest
  · exact ⟨_, by decide, hproperty⟩
  · exact ⟨_, by decide, hrest⟩

/-- Where a pattern is searched as one, the places where it binds names are found as parts of it. -/
theorem BindingPattern.live {root v x : Value} {base path : Path} (h : BindingPattern v)
    (hlive : Live root base v .pattern) (hsite : Binds base v path x) : Live root path x .pattern := by
  induction h generalizing base with
  | identifier kind =>
    obtain ⟨rfl, rfl⟩ := (binds_identifier_iff kind).mp hsite
    exact hlive
  | object kind list members _ inner ih =>
    obtain ⟨i, m, here, hsite⟩ := (binds_object_iff kind list).mp hsite
    have hm := List.mem_of_getElem? here
    obtain ⟨memberKind, hmember, hpart⟩ := exists_member_part (members m hm)
    have hstep := Live.item kind (by decide : ("ObjectPattern", "properties") ∈ patternParts) hlive list here
      (isPart_of_member (members m hm))
    exact ih m hm (Live.held hmember hpart hstep (inner m hm)) hsite
  | array kind list inner ih =>
    obtain ⟨i, item, here, hsite⟩ := (binds_array_iff kind list).mp hsite
    have hitem := List.mem_of_getElem? here
    have hgap : item ≠ .null := fun hgap => not_binds_null (hgap ▸ hsite)
    exact ih item hitem hgap (Live.item kind (by decide : ("ArrayPattern", "elements") ∈ patternParts) hlive
      list here (inner item hitem hgap).isPart) hsite
  | rest kind inner ih =>
    exact ih (Live.held kind (by decide : ("RestElement", "argument") ∈ patternParts) hlive inner)
      ((binds_rest_iff kind).mp hsite)
  | assignment kind inner _ ih =>
    exact ih (Live.held kind (by decide : ("AssignmentPattern", "left") ∈ patternParts) hlive inner)
      ((binds_assignment_iff kind).mp hsite)

/-! ## What else is found -/

theorem BindsNothing.child {v : Value} (h : BindsNothing v) {e : Edge} (he : e ∈ edges v) :
    BindsNothing e.child :=
  (everywhere_iff.mp h).2 e he

/-- Below what binds nothing, nothing becomes part of a pattern. -/
theorem BindsNothing.role_ne {v : Value} (h : BindsNothing v) {e : Edge} (he : e ∈ edges v)
    {above role : Role} (habove : above ≠ .pattern) (hrole : childRole v e above = some role) : role ≠ .pattern := by
  rintro rfl
  exact childRole_ne_pattern he (everywhere_iff.mp h).1 (fun hpattern => absurd hpattern habove) hrole

/-- The node stands in a pattern as one of its parts.  All that it binds has the property. -/
inductive InPattern (S : Path → Value → Prop) (path : Path) (v : Value) : Prop
  /-- It is a pattern itself. -/
  | pattern (pattern : BindingPattern v) (sites : ∀ p x, Binds path v p x → S p x) : InPattern S path v
  /-- It is a property, and holds a pattern. -/
  | property (kind : isKind v "Property" = true)
      (key : (fieldOf v "computed").truthy = true → QuietAt v "key")
      (value : BindingPattern (fieldOf v "value"))
      (sites : ∀ p x, Binds (⟨"value", none⟩ :: path) (fieldOf v "value") p x → S p x) :
      InPattern S path v

theorem isKind_eq_false_of_not_mem {v : Value} {kind : String} (h : isKind v kind = true)
    {kinds : List String} (hnot : kind ∉ kinds) : ∀ other ∈ kinds, isKind v other = false := by
  intro other hother
  refine Bool.eq_false_iff.mpr fun hyes => hnot ?_
  rwa [isKind_unique h hyes]

section Roles

variable {v : Value} {e : Edge} {role : Role}

/-- Types have no role.  In a node with a type and one other field, what has a role stands in that field. -/
theorem mem_fieldEdges_of_childRole {kind : String} (field : String) {above : Role}
    (hkind : isKind v kind = true) (hlisted : listedFields? kind = some [field, "typeAnnotation"])
    (he : e ∈ edges v) (hrole : childRole v e above = some role) : e ∈ fieldEdges field (fieldOf v field) := by
  obtain ⟨name, hname, hmem⟩ := (mem_edges_iff_listed hkind hlisted).mp he
  rcases List.mem_pair.mp hname with rfl | rfl
  · exact hmem
  · have htyped : typeFields.contains e.step.field = true := by
      rw [field_of_mem_fieldEdges hmem]
      decide
    cases (childRole_of_typed htyped v above).symm.trans hrole

/-- The key of a property is used, and only where it is computed. -/
theorem role_of_key (hkind : isKind v "Property" = true) (hfield : e.step.field = "key")
    (hrole : childRole v e .pattern = some role) :
    role ≠ .pattern ∧ (fieldOf v "computed").truthy = true := by
  rw [childRole_in_pattern hkind (by decide), hfield] at hrole
  split at hrole
  · cases hrole
  · cases hcomputed : (fieldOf v "computed").truthy with
    | true =>
      rw [hcomputed] at hrole
      cases hrole
      exact ⟨by decide, rfl⟩
    | false =>
      rw [hcomputed] at hrole
      cases hrole

/-- A default value is used. -/
theorem role_of_default (hkind : isKind v "AssignmentPattern" = true) (hfield : e.step.field = "right")
    (hrole : childRole v e .pattern = some role) : role ≠ .pattern := by
  rw [childRole_in_pattern hkind (by decide), hfield] at hrole
  split at hrole
  · cases hrole
  · cases hrole
    decide

end Roles

section Children

variable {S : Path → Value → Prop} {path : Path} {v : Value} {e : Edge} {role : Role}

/-- A child that the field of a part holds is a pattern again. -/
theorem role_and_child_of_field {kind field : String} (hkind : isKind v kind = true)
    (hpart : (kind, field) ∈ patternParts) (hpattern : BindingPattern (fieldOf v field))
    (he : e ∈ fieldEdges field (fieldOf v field)) (hrole : childRole v e .pattern = some role)
    (sites : ∀ p x, Binds (⟨field, none⟩ :: path) (fieldOf v field) p x → S p x) :
    role = .pattern ∧ InPattern S (e.step :: path) e.child := by
  obtain rfl := (mem_fieldEdges_node_iff hpattern.isNode).mp he
  cases (childRole_of_part hkind hpart rfl hpattern.isPart).symm.trans hrole
  exact ⟨rfl, .pattern hpattern sites⟩

/-- A member of an object pattern is a part of it. -/
theorem inPattern_of_member {m : Value} {i : Nat}
    (hmember : isKind m "Property" = true ∨ isKind m "RestElement" = true)
    (hkey : isKind m "Property" = true → (fieldOf m "computed").truthy = true → QuietAt m "key")
    (hpattern : BindingPattern (fieldOf m (memberField m)))
    (sites : ∀ p x, Binds (⟨memberField m, none⟩ :: ⟨"properties", some i⟩ :: path)
      (fieldOf m (memberField m)) p x → S p x) : InPattern S (⟨"properties", some i⟩ :: path) m := by
  rcases hmember with hproperty | hrest
  · rw [memberField_of_property hproperty] at hpattern sites
    exact .property hproperty (hkey hproperty) hpattern sites
  · rw [memberField_of_rest hrest] at hpattern sites
    exact .pattern (.rest hrest hpattern) fun p x hbinds => sites p x ((binds_rest_iff hrest).mp hbinds)

/-- The children of a pattern. -/
theorem BindingPattern.child (h : BindingPattern v) (sites : ∀ p x, Binds path v p x → S p x)
    (he : e ∈ edges v) (hrole : childRole v e .pattern = some role) :
    (role = .pattern ∧ InPattern S (e.step :: path) e.child) ∨
      (role ≠ .pattern ∧ BindsNothing e.child) := by
  cases h with
  | identifier kind _ decorators =>
    have hmem := mem_fieldEdges_of_childRole "decorators" kind (by decide) he hrole
    refine .inr ⟨?_, decorators e he (field_of_mem_fieldEdges hmem)⟩
    rintro rfl
    exact childRole_ne_pattern he (isKind_eq_false_of_not_mem kind (by decide))
      (fun _ => isKind_eq_false_of_not_mem kind (by decide)) hrole
  | object kind list members keys inner =>
    have hmem := mem_fieldEdges_of_childRole "properties" kind (by decide) he hrole
    rw [list] at hmem
    obtain ⟨i, m, hm, _, rfl⟩ := mem_fieldEdges_items_iff.mp hmem
    have hitem := List.mem_of_getElem? hm
    cases (childRole_of_part kind (by decide : ("ObjectPattern", "properties") ∈ patternParts) rfl
      (isPart_of_member (members m hitem))).symm.trans hrole
    exact .inl ⟨rfl, inPattern_of_member (members m hitem) (keys m hitem) (inner m hitem)
      fun p x hbinds => sites p x (.member kind list hm hbinds)⟩
  | array kind list inner =>
    have hmem := mem_fieldEdges_of_childRole "elements" kind (by decide) he hrole
    rw [list] at hmem
    obtain ⟨i, item, hitem, hnode, rfl⟩ := mem_fieldEdges_items_iff.mp hmem
    have hpattern : BindingPattern item := by
      refine inner item (List.mem_of_getElem? hitem) ?_
      rintro rfl
      cases hnode
    cases (childRole_of_part kind (by decide : ("ArrayPattern", "elements") ∈ patternParts) rfl
      hpattern.isPart).symm.trans hrole
    exact .inl ⟨rfl, .pattern hpattern fun p x hbinds => sites p x (.element kind list hitem hbinds)⟩
  | rest kind inner =>
    have hmem := mem_fieldEdges_of_childRole "argument" kind (by decide) he hrole
    exact .inl (role_and_child_of_field kind (by decide) inner hmem hrole
      fun p x hbinds => sites p x (.rest kind hbinds))
  | assignment kind inner value =>
    obtain ⟨name, hname, hmem⟩ := (mem_edges_iff_listed kind
      (by decide : listedFields? "AssignmentPattern" = some ["left", "right"])).mp he
    rcases List.mem_pair.mp hname with rfl | rfl
    · exact .inl (role_and_child_of_field kind (by decide) inner hmem hrole
        fun p x hbinds => sites p x (.assignment kind hbinds))
    · have hfield := field_of_mem_fieldEdges hmem
      exact .inr ⟨role_of_default kind hfield hrole, value e he hfield⟩

/-- A child of a part of a pattern is a part of the pattern again, or has no bindings of its own. -/
theorem InPattern.child (h : InPattern S path v) (he : e ∈ edges v)
    (hrole : childRole v e .pattern = some role) :
    (role = .pattern ∧ InPattern S (e.step :: path) e.child) ∨
      (role ≠ .pattern ∧ BindsNothing e.child) := by
  cases h with
  | pattern pattern sites => exact pattern.child sites he hrole
  | property kind key value sites =>
    obtain ⟨name, hname, hmem⟩ :=
      (mem_edges_iff_listed kind (by decide : listedFields? "Property" = some ["key", "value"])).mp he
    rcases List.mem_pair.mp hname with rfl | rfl
    · obtain ⟨hne, hcomputed⟩ := role_of_key kind (field_of_mem_fieldEdges hmem) hrole
      exact .inr ⟨hne, key hcomputed e he (field_of_mem_fieldEdges hmem)⟩
    · exact .inl (role_and_child_of_field kind (by decide) value hmem hrole sites)

end Children

end TreeLint.Usage

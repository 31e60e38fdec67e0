/-
  Tags of elements as uses.

  An element names what it is made of by a tag.  A tag of a name that starts with an upper-case character
  is a use of the variable of that name, like an identifier that refers to it.  A tag of any other name is
  none, whether the name starts with a lower-case letter or not: for such a name only identifiers, and
  the objects of members that name elements, are uses.
-/
import TreeLint.Proofs.Monotonicity
import TreeLint.Proofs.PatternRoles

set_option autoImplicit false

namespace TreeLint.Usage

open TreeLint.Json TreeLint.Syntax

/-! ## Tags that stand for variables -/

/-- A node in a field of a kind that the language does not list is a child, unless the field is the way
back. -/
theorem mem_edges_of_own_field {v : Value} {kind name : String} (hkind : isKind v kind = true)
    (hlisted : listedFields? kind = none) (hname : name ≠ parentField)
    (hnode : isNode (fieldOf v name) = true) : ⟨⟨name, none⟩, fieldOf v name⟩ ∈ edges v := by
  obtain ⟨fields, _, rfl, _⟩ := isNode_iff.mp (isNode_of_isKind hkind)
  obtain ⟨content, _, hcontent, _⟩ := isNode_iff.mp hnode
  have hfields : childFields fields = distinct ((fields.map Prod.fst).filter (· ≠ parentField)) := by
    unfold childFields
    rw [isKind_obj_iff.mp hkind]
    simp [Value.text?, hlisted]
  rw [fieldOf_obj] at hnode hcontent ⊢
  have hlookup := lookup_of_get_eq hcontent (by simp)
  rw [edges, hfields, List.mem_flatMap]
  refine ⟨name, mem_distinct.mpr (List.mem_filter.mpr ⟨?_, by simpa using hname⟩), ?_⟩
  · exact List.mem_map.mpr ⟨_, mem_of_lookup_eq_some hlookup, rfl⟩
  · exact (mem_fieldEdges_node_iff hnode).mpr rfl

/-- The node is one end of an element, which has a tag. -/
def IsElementEnd (v : Value) : Prop :=
  isKind v "JSXOpeningElement" = true ∨ isKind v "JSXClosingElement" = true

theorem kind?_getD_eq_iff {v : Value} {kind : String} (h : kind ≠ "") :
    (kind? v).getD "" = kind ↔ isKind v kind = true := by
  rw [isKind_iff]
  cases kind? v with
  | none => simpa using h.symm
  | some other => simp

theorem isElementEnd_iff {v : Value} : IsElementEnd v ↔
    (kind? v).getD "" = "JSXOpeningElement" ∨ (kind? v).getD "" = "JSXClosingElement" := by
  rw [kind?_getD_eq_iff (by decide), kind?_getD_eq_iff (by decide), IsElementEnd]

/-- The tag of an element stands for a variable when its name starts with an upper-case character. -/
theorem isTagReference_of_element {parent : Value} {e : Edge} {name : String} (h : IsElementEnd parent)
    (hfield : e.step.field = "name") (hnode : isNode e.child = true)
    (hname : fieldOf e.child "name" = .str name) :
    isTagReference parent e = .ok (Text.startsUppercase name) := by
  obtain ⟨fields, _, hfields, _⟩ := isNode_iff.mp hnode
  rw [hfields, fieldOf_obj] at hname
  unfold isTagReference
  dsimp only
  rw [if_pos ⟨isElementEnd_iff.mp h, hfield⟩, hfields]
  simp only [isComponentName, lookup_of_get_eq hname (by simp)]

/-- Any other tag does when it is the object of a member. -/
theorem isTagReference_of_not_element {parent : Value} {e : Edge}
    (h : ¬ (IsElementEnd parent ∧ e.step.field = "name")) :
    isTagReference parent e = .ok true ↔
      isKind parent "JSXMemberExpression" = true ∧ e.step.field = "object" := by
  unfold isTagReference
  dsimp only
  rw [isElementEnd_iff] at h
  rw [if_neg h, Except.ok.injEq, Bool.and_eq_true, beq_iff_eq, beq_iff_eq, kind?_getD_eq_iff (by decide)]

/-- Outside patterns the role of a child follows from the kind of its parent and the field, whatever the
role of the parent. -/
theorem childRole_of_no_pattern {parent : Value} {e : Edge} {kind childKind : String}
    (hkind : isKind parent kind = true) (hchild : isKind e.child childKind = true)
    (hfield : typeFields.contains e.step.field = false) (htype : isTypeKind childKind = false)
    (hplain : typedExpressionFields.lookup kind = none) (hpattern : kind ∉ patternKinds) (above : Role) :
    childRole parent e above = plainRole kind e.step.field (fieldOf parent "computed").truthy := by
  rw [← childRole_of_plain hkind hchild hfield htype hplain]
  obtain ⟨fields, _, rfl, _⟩ := isNode_iff.mp (isNode_of_isKind hkind)
  simp only [childRole, isKind_iff.mp hkind, Option.getD_some, hplain, patternRole?_eq_none hpattern, ite_self]

/-- The kinds whose tags may stand for variables. -/
def taggedKinds : List String :=
  ["JSXOpeningElement", "JSXClosingElement", "JSXMemberExpression"]

/-- Such a tag has a role, so that the search looks at it. -/
theorem childRole_of_tag {parent : Value} {e : Edge} {kind : String} (hmem : kind ∈ taggedKinds)
    (hkind : isKind parent kind = true) (hfield : e.step.field ∈ ["name", "object"])
    (htag : isKind e.child "JSXIdentifier" = true) (above : Role) :
    childRole parent e above = some .reference := by
  have hplain : ∀ kind ∈ taggedKinds, typedExpressionFields.lookup kind = none ∧ kind ∉ patternKinds := by
    decide
  have hfields : ∀ field ∈ ["name", "object"], typeFields.contains field = false := by decide
  have hrole : ∀ kind ∈ taggedKinds, ∀ field ∈ ["name", "object"], ∀ computed,
      plainRole kind field computed = some .reference := by decide
  obtain ⟨hlookup, hpattern⟩ := hplain kind hmem
  rw [childRole_of_no_pattern hkind htag (hfields _ hfield) (by decide +kernel) hlookup hpattern]
  exact hrole kind hmem _ hfield _

/-! ## Uses -/

/-- The node is the tag of an element, has the name, and stands at the end of a live path. -/
inductive ElementTag (program : Value) (name : String) : Value → Prop
  | intro {path : Path} {element : Value} {role : Role} (live : Live program path element role)
      (ends : IsElementEnd element) (tag : isKind (fieldOf element "name") "JSXIdentifier" = true)
      (named : fieldOf (fieldOf element "name") "name" = .str name) :
      ElementTag program name (fieldOf element "name")

/-- The node is a use of the name and not the tag of an element: it is an identifier that refers to the
variable, or the object of a member that names an element. -/
inductive PlainUse (program : Value) (name : String) : Value → Prop
  | identifier {path : Path} {node : Value} (live : Live program path node .reference)
      (kind : isKind node "Identifier" = true) (named : fieldOf node "name" = .str name) :
      PlainUse program name node
  | object {path : Path} {member : Value} {role : Role} {e : Edge} (live : Live program path member role)
      (kind : isKind member "JSXMemberExpression" = true) (child : e ∈ edges member)
      (field : e.step.field = "object") (tag : isKind e.child "JSXIdentifier" = true)
      (named : fieldOf e.child "name" = .str name) : PlainUse program name e.child

theorem not_isKind_tag {v : Value} {kind : String} (h : isKind v kind = true)
    (hne : kind ≠ "JSXIdentifier") : isKind v "JSXIdentifier" = false :=
  Bool.eq_false_iff.mpr fun htag => hne (isKind_unique h htag)

/-- The tag of an element is found when its name starts with an upper-case character. -/
theorem ElementTag.occurs {program tag : Value} {name : String} (h : ElementTag program name tag)
    (hupper : Text.startsUppercase name = true) :
    ∃ path, Occurs program name ⟨.reference, path, tag⟩ := by
  obtain ⟨live, ends, htag, named⟩ := h
  have hkinds : ∀ kind ∈ taggedKinds, listedFields? kind = none ∧ kind ≠ "JSXIdentifier" := by decide
  obtain ⟨kind, hmem, hkind⟩ : ∃ kind ∈ taggedKinds, isKind _ kind = true := by
    rcases ends with hkind | hkind
    · exact ⟨_, .head _, hkind⟩
    · exact ⟨_, .tail _ (.head _), hkind⟩
  obtain ⟨hlisted, hne⟩ := hkinds kind hmem
  have hedge := mem_edges_of_own_field hkind hlisted (by decide) (isNode_of_isKind htag)
  have hrole := childRole_of_tag (e := ⟨⟨"name", none⟩, _⟩) hmem hkind (.head _) htag
  have hstands := isTagReference_of_element (e := ⟨⟨"name", none⟩, _⟩) ends rfl (isNode_of_isKind htag) named
  rw [hupper] at hstands
  exact ⟨_, .tag live (.inr (not_isKind_tag hkind hne)) hedge (hrole _) htag named hstands⟩

/-- A plain use is found, whatever its name starts with. -/
theorem PlainUse.occurs {program node : Value} {name : String} (h : PlainUse program name node)
    (hroot : isKind program "Program" = true) : ∃ path, Occurs program name ⟨.reference, path, node⟩ := by
  cases h with
  | identifier live kind named =>
    cases live with
    | root => exact absurd (isKind_unique hroot kind) (by decide)
    | step before inner child gives => exact ⟨_, .identifier before inner child gives kind named⟩
  | object live kind child field tag named =>
    have hmember : "JSXMemberExpression" ∈ taggedKinds := by decide
    have hrole := childRole_of_tag hmember kind (field ▸ .tail _ (.head _)) tag
    have hstands := (isTagReference_of_not_element fun ⟨_, hname⟩ => by
      rw [field] at hname
      exact absurd hname (by decide)).mpr ⟨kind, field⟩
    exact ⟨_, .tag live (.inr (not_isKind_tag kind (by decide))) child (hrole _) tag named hstands⟩

/-- Of a name that does not start with an upper-case character, nothing else is found as a use. -/
theorem Occurs.plainUse {program : Value} {name : String} {o : Occurrence} (h : Occurs program name o)
    (hrole : o.role = .reference) (hupper : Text.startsUppercase name = false) :
    PlainUse program name o.node := by
  cases h with
  | identifier before inner child gives kind named =>
    obtain rfl := hrole
    exact .identifier (.step before inner child gives) kind named
  | @tag path parent e above role before inner child gives kind named stands =>
    by_cases helement : IsElementEnd parent ∧ e.step.field = "name"
    · rw [isTagReference_of_element helement.1 helement.2 (isNode_of_isKind kind) named, hupper] at stands
      cases stands
    · obtain ⟨hmember, hfield⟩ := (isTagReference_of_not_element helement).mp stands
      exact .object before hmember child hfield kind named

/-! ## Answers -/

/-- The tag of some element has the name and lies in none of the stretches. -/
def TaggedBeyond (program : Value) (name : String) (stretches : List (Int × Int)) : Prop :=
  ∃ tag, ElementTag program name tag ∧ LiesOutside stretches tag

/-- Some plain use of the name lies in none of the stretches. -/
def PlainlyUsedBeyond (program : Value) (name : String) (stretches : List (Int × Int)) : Prop :=
  ∃ node, PlainUse program name node ∧ LiesOutside stretches node

theorem usedBeyond_of_taggedBeyond {program : Value} {name : String} {stretches : List (Int × Int)}
    (hupper : Text.startsUppercase name = true) (h : TaggedBeyond program name stretches) :
    UsedBeyond program name stretches := by
  obtain ⟨tag, htag, hout⟩ := h
  obtain ⟨path, hoccurs⟩ := htag.occurs hupper
  exact ⟨_, hoccurs, rfl, hout⟩

theorem usedBeyond_iff_plainly {program : Value} {name : String} {stretches : List (Int × Int)}
    (hroot : isKind program "Program" = true) (hupper : Text.startsUppercase name = false) :
    UsedBeyond program name stretches ↔ PlainlyUsedBeyond program name stretches := by
  constructor
  · rintro ⟨o, hoccurs, hrole, hout⟩
    exact ⟨o.node, hoccurs.plainUse hrole hupper, hout⟩
  · rintro ⟨node, huse, hout⟩
    obtain ⟨path, hoccurs⟩ := huse.occurs hroot
    exact ⟨_, hoccurs, rfl, hout⟩

/-- Which tags count as uses.  A tag outside the excluded nodes makes its name used outside them if the name
starts with an upper-case character.  A name that starts otherwise, be it with a lower-case letter or
with neither, is used outside exactly when some identifier or some object of a member says so, whatever
tags there are. -/
theorem tags_counted_by_case (program : Value) (name : String) (nodes : List Value)
    (hkind : isKind program "Program" = true) (hspans : HasPlainSpans program)
    (hnodes : ∀ node ∈ nodes, HasPlainSpan node) :
    (Text.startsUppercase name = true → TaggedBeyond program name (extents nodes) →
      freshAnswer program name nodes = .ok true) ∧
    (Text.startsUppercase name = false →
      Decides (freshAnswer program name nodes) (PlainlyUsedBeyond program name (extents nodes))) := by
  have hdecides : Decides (freshAnswer program name nodes) (UsedBeyond program name (extents nodes)) :=
    freshAnswer_decides (isNode_of_isKind hkind) hspans hnodes
  refine ⟨fun hupper htagged => ?_, fun hupper => ?_⟩
  · exact hdecides.ok_true_iff.mpr (usedBeyond_of_taggedBeyond hupper htagged)
  · exact hdecides.congr (usedBeyond_iff_plainly hkind hupper)

/-! ## A component that is used by its tag -/

section Component

variable (name : String)

/-- The element `<Card />`, from the offset 19 on, with any name of four characters in place of `Card`. -/
def componentElement : Value :=
  .obj [("type", .str "JSXElement"), ("start", .int 19), ("end", .int 27),
    ("openingElement", .obj [("type", .str "JSXOpeningElement"), ("start", .int 19), ("end", .int 27),
      ("name", .obj [("type", .str "JSXIdentifier"), ("name", .str name), ("start", .int 20),
        ("end", .int 24)]), ("attributes", .arr []), ("selfClosing", .bool true)]),
    ("children", .arr []), ("closingElement", .null)]

/-- The statement `<Card />;`. -/
def componentStatement : Value :=
  .obj [("type", .str "ExpressionStatement"), ("start", .int 19), ("end", .int 28),
    ("expression", componentElement name)]

/-- The statement `export default Card;`. -/
def componentExport : Value :=
  .obj [("type", .str "ExportDefaultDeclaration"), ("start", .int 29), ("end", .int 49),
    ("declaration", .obj [("type", .str "Identifier"), ("name", .str name), ("start", .int 44),
      ("end", .int 48)])]

/-- The program `const Card = null; <Card />; export default Card;`. -/
def componentProgram : Value :=
  .obj [("type", .str "Program"), ("start", .int 0), ("end", .int 49), ("body", .arr
    [.obj [("type", .str "VariableDeclaration"), ("kind", .str "const"), ("start", .int 0), ("end", .int 18),
      ("declarations", .arr [.obj [("type", .str "VariableDeclarator"), ("start", .int 6), ("end", .int 17),
        ("id", .obj [("type", .str "Identifier"), ("name", .str name), ("start", .int 6),
          ("end", .int 10)]),
        ("init", .obj [("type", .str "Literal"), ("start", .int 13), ("end", .int 17),
          ("value", .null)])]])],
      componentStatement name, componentExport name])]

theorem elementTag_component :
    ElementTag (componentProgram name) name
      (fieldOf (fieldOf (componentElement name) "openingElement") "name") := by
  have hprogram : isKind (componentProgram name) "Program" = true := rfl
  have hstatement : isKind (componentStatement name) "ExpressionStatement" = true := rfl
  have helement : isKind (componentElement name) "JSXElement" = true := rfl
  have hopening : isKind (fieldOf (componentElement name) "openingElement") "JSXOpeningElement" = true := rfl
  -- down the tree: statement, element, opening tag
  have hfirst : Live (componentProgram name) [⟨"body", some 1⟩] (componentStatement name) .reference := by
    refine .step .root (.inl rfl) ((mem_edges_program_iff hprogram rfl).mpr ⟨1, _, rfl, rfl, rfl⟩) ?_
    exact childRole_of_plain hprogram hstatement rfl (by decide +kernel) (by decide)
  have hsecond : Live (componentProgram name) [⟨"expression", none⟩, ⟨"body", some 1⟩]
      (componentElement name) .reference := by
    refine .step hfirst (.inr rfl) (mem_edges_of_field hstatement (by decide) rfl) ?_
    exact childRole_of_plain hstatement helement rfl (by decide +kernel) (by decide)
  have hthird : Live (componentProgram name)
      [⟨"openingElement", none⟩, ⟨"expression", none⟩, ⟨"body", some 1⟩]
      (fieldOf (componentElement name) "openingElement") .reference := by
    refine .step hsecond (.inr rfl) (mem_edges_of_own_field helement (by decide) (by decide) rfl) ?_
    exact childRole_of_plain helement hopening rfl (by decide +kernel) (by decide)
  exact .intro hthird (.inl hopening) rfl rfl

theorem taggedBeyond_component :
    TaggedBeyond (componentProgram name) name (extents [componentExport name]) := by
  refine ⟨_, elementTag_component name, ?_⟩
  intro inner hinner outer houter
  obtain rfl : (20, 24) = inner := Option.some.inj hinner
  obtain rfl : outer = (29, 49) := List.mem_singleton.mp houter
  omega

theorem hasPlainSpan_componentExport : ∀ node ∈ [componentExport name], HasPlainSpan node := by
  intro node hnode
  obtain rfl := List.mem_singleton.mp hnode
  refine ⟨some ⟨.int 29, .int 49⟩, rfl, ?_⟩
  rintro _ ⟨⟩
  exact ⟨29, 49, rfl, rfl⟩

end Component

theorem hasPlainSpans_of_nested {root : Value} (h : Nested root) : HasPlainSpans root :=
  fun visit hvisit => (h visit hvisit).hasPlainSpan

/-- In a program with the component `Card`, its tag is a use outside the export.  With `card` for the name the
tag is none, and there is no other use. -/
theorem tags_counted_by_case_component :
    HasPlainSpans (componentProgram "Card") ∧ HasPlainSpans (componentProgram "card") ∧
      Text.startsUppercase "Card" = true ∧
      TaggedBeyond (componentProgram "Card") "Card" (extents [componentExport "Card"]) ∧
      freshAnswer (componentProgram "Card") "Card" [componentExport "Card"] = .ok true ∧
      Text.startsUppercase "card" = false ∧
      freshAnswer (componentProgram "card") "card" [componentExport "card"] = .ok false ∧
      ¬ PlainlyUsedBeyond (componentProgram "card") "card" (extents [componentExport "card"]) := by
  have hcard : HasPlainSpans (componentProgram "Card") := hasPlainSpans_of_nested (by decide +kernel)
  have hlower : HasPlainSpans (componentProgram "card") := hasPlainSpans_of_nested (by decide +kernel)
  have hupper : Text.startsUppercase "Card" = true := by decide
  have hother : Text.startsUppercase "card" = false := by decide
  have hanswer : freshAnswer (componentProgram "card") "card" [componentExport "card"] = .ok false :=
    toOption_eq_some_iff.mp (by decide +kernel)
  have htagged := taggedBeyond_component "Card"
  obtain ⟨hcounted, _⟩ := tags_counted_by_case (componentProgram "Card") "Card" [componentExport "Card"] rfl
    hcard (hasPlainSpan_componentExport "Card")
  obtain ⟨_, hplain⟩ := tags_counted_by_case (componentProgram "card") "card" [componentExport "card"] rfl
    hlower (hasPlainSpan_componentExport "card")
  exact ⟨hcard, hlower, hupper, htagged, hcounted hupper htagged, hother, hanswer,
    (hplain hother).ok_false_iff.mp hanswer⟩

/-- A component whose name starts with no letter at all: its tag stands outside the export, and the name is not
used there for all that. -/
theorem tag_of_underscore_not_counted :
    isKind (componentProgram "_Foo") "Program" = true ∧ HasPlainSpans (componentProgram "_Foo") ∧
      "_Foo".toList.head? = some '_' ∧ '_'.isAlpha = false ∧
      TaggedBeyond (componentProgram "_Foo") "_Foo" (extents [componentExport "_Foo"]) ∧
      freshAnswer (componentProgram "_Foo") "_Foo" [componentExport "_Foo"] = .ok false := by
  refine ⟨rfl, hasPlainSpans_of_nested (by decide +kernel), rfl, by decide, ?_, ?_⟩
  · exact taggedBeyond_component "_Foo"
  · exact toOption_eq_some_iff.mp (by decide +kernel)

end TreeLint.Usage

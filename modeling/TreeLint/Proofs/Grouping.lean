/-
  Declarations, gathered by name without loss.

  What a statement declares is stated part by part, in the order of the source: functions and classes with a
  name, and each name in the pattern of each variable, wherever exports stand around them.  Gathering the
  declarations of a program by name only sorts them: under each name stand those of that name in their order,
  the names stand in the order in which they first appear, and all declarations are there.
-/
import Mathlib.Tactic.Choose
import TreeLint.Proofs.FirstSeen
import TreeLint.Proofs.Pattern

set_option autoImplicit false

namespace TreeLint.Usage

open TreeLint.Json TreeLint.Syntax

/-! ## What is declared, in order -/

/-- The field holds the items: a list of them, or nothing at all. -/
def Lists (v : Value) (field : String) (items : List Value) : Prop :=
  fieldOf v field = .arr items ∨ (fieldOf v field = .null ∧ items = [])

/-- The kinds of nodes that bind names in a pattern. -/
def bindingForms : List String :=
  ["Identifier", "ObjectPattern", "ArrayPattern", "RestElement", "AssignmentPattern"]

/-- The pattern binds the names, in the order of the source and as often as they stand in it. -/
inductive NamesInOrder : Value → List String → Prop
  /-- A gap binds nothing. -/
  | gap : NamesInOrder .null []
  /-- A name. -/
  | identifier {v : Value} {name : String} (kind : isKind v "Identifier" = true)
      (named : fieldOf v "name" = .str name) : NamesInOrder v [name]
  /-- The members of an object, one after the other. -/
  | object {v : Value} {members : List Value} {names : Value → List String}
      (kind : isKind v "ObjectPattern" = true) (list : Lists v "properties" members)
      (nodes : ∀ m ∈ members, isNode m = true)
      (inner : ∀ m ∈ members, NamesInOrder (fieldOf m (memberField m)) (names m)) :
      NamesInOrder v (members.flatMap names)
  /-- The elements of an array, one after the other. -/
  | array {v : Value} {elements : List Value} {names : Value → List String}
      (kind : isKind v "ArrayPattern" = true) (list : Lists v "elements" elements)
      (inner : ∀ e ∈ elements, NamesInOrder e (names e)) : NamesInOrder v (elements.flatMap names)
  /-- What takes the rest. -/
  | rest {v : Value} {names : List String} (kind : isKind v "RestElement" = true)
      (inner : NamesInOrder (fieldOf v "argument") names) : NamesInOrder v names
  /-- A pattern with a default value. -/
  | assignment {v : Value} {names : List String} (kind : isKind v "AssignmentPattern" = true)
      (inner : NamesInOrder (fieldOf v "left") names) : NamesInOrder v names
  /-- Any other node binds nothing. -/
  | other {v : Value} (node : isNode v = true) (kind : ∀ kind ∈ bindingForms, isKind v kind = false) :
      NamesInOrder v []

/-- The kinds of statements that declare what has a name, with what they declare it as. -/
def declaringKinds : List (String × BindingKind) :=
  [("FunctionDeclaration", .function), ("ClassDeclaration", .type)]

/-- The kinds of exports that may declare something. -/
def exporterKinds : List String :=
  ["ExportNamedDeclaration", "ExportDefaultDeclaration"]

/-- The statement makes the declarations, in the order of the source. -/
inductive DeclaresInOrder : Value → List Declaration → Prop
  /-- An export of nothing that it declares itself. -/
  | absent : DeclaresInOrder .null []
  /-- A function or a class with a name. -/
  | named {v : Value} {fields : Fields} {kind name : String} {binding : BindingKind}
      (listed : (kind, binding) ∈ declaringKinds) (kind : isKind v kind = true)
      (id : fieldOf v "id" = .obj fields) (named : Fields.get fields "name" = .str name) :
      DeclaresInOrder v [⟨.str name, binding, v⟩]
  /-- A function or a class without a name. -/
  | unnamed {v : Value} {kind : String} {binding : BindingKind} (listed : (kind, binding) ∈ declaringKinds)
      (kind : isKind v kind = true) (id : fieldOf v "id" = .null) : DeclaresInOrder v []
  /-- The variables of each declarator, one after the other. -/
  | declarators {v : Value} {items : List Value} {names : Value → List String}
      (kind : isKind v "VariableDeclaration" = true) (list : Lists v "declarations" items)
      (nodes : ∀ d ∈ items, isNode d = true)
      (inner : ∀ d ∈ items, NamesInOrder (fieldOf d "id") (names d)) :
      DeclaresInOrder v (items.flatMap fun d => (names d).map fun name => ⟨.str name, .variable, d⟩)
  /-- An export makes the declarations of what it exports. -/
  | exported {v : Value} {kind : String} {row : List Declaration} (listed : kind ∈ exporterKinds)
      (kind : isKind v kind = true) (inner : DeclaresInOrder (fieldOf v "declaration") row) :
      DeclaresInOrder v row
  /-- Any other node declares nothing. -/
  | other {v : Value} (node : isNode v = true)
      (kind : ∀ kind ∈ "VariableDeclaration" :: exporterKinds ++ declaringKinds.map Prod.fst,
        isKind v kind = false) : DeclaresInOrder v []

/-! ## What is read -/

/-- The items of a field are gone through one after the other. -/
theorem rowOf_of_lists {α : Type} {v : Value} {field : String} {items : List Value}
    (h : Lists v field items) (parts : Value → List (Except Fault α)) :
    rowOf parts (fieldOf v field) = items.flatMap parts := by
  rcases h with hitems | ⟨hnull, rfl⟩
  · rw [hitems, rowOf]
  · rw [hnull]
    rfl

/-- A node that is no pattern binds nothing. -/
theorem patternNames_of_no_form {v : Value} (hnode : isNode v = true)
    (h : ∀ kind ∈ bindingForms, isKind v kind = false) : patternNames v = [] := by
  obtain ⟨fields, kind, rfl, hkind⟩ := isNode_iff.mp hnode
  have hother : ∀ form ∈ bindingForms, kind ≠ form := fun form hform heq =>
    Bool.eq_false_iff.mp (h form hform) (isKind_obj_iff.mpr (heq ▸ hkind))
  rw [patternNames_obj, hkind]
  simp only [bindingForms, List.forall_mem_cons] at hother
  obtain ⟨h1, h2, h3, h4, h5, _⟩ := hother
  simp [Value.text?, boundNames, h1, h2, h3, h4, h5]

/-- The names of a pattern are read off it in their order. -/
theorem NamesInOrder.patternNames_eq {v : Value} {names : List String} (h : NamesInOrder v names) :
    patternNames v = names.map fun name => .ok (.str name) := by
  induction h with
  | gap => rw [patternNames, List.map_nil]
  | identifier kind named => rw [patternNames_identifier kind, named, List.map_singleton]
  | @object v members names kind list nodes inner ih =>
    obtain ⟨fields, rfl, hread⟩ := patternNames_of_isKind kind
    rw [hread, boundNames, ← fieldOf_obj, rowOf_of_lists list, List.map_flatMap]
    refine List.flatMap_congr fun m hm => ?_
    rw [← ih m hm, memberNames_of_isNode (nodes m hm)]
  | @array v elements names kind list inner ih =>
    obtain ⟨fields, rfl, hread⟩ := patternNames_of_isKind kind
    rw [hread, boundNames, ← fieldOf_obj, rowOf_of_lists list, List.map_flatMap]
    exact List.flatMap_congr ih
  | rest kind _ ih => rw [patternNames_rest kind, ih]
  | assignment kind _ ih => rw [patternNames_assignment kind, ih]
  | other node kind => rw [patternNames_of_no_form node kind, List.map_nil]

/-- The names of a declarator are declared in their order. -/
theorem declaratorDeclarations_of_names {d : Value} {names : List String} (hnode : isNode d = true)
    (h : NamesInOrder (fieldOf d "id") names) :
    declaratorDeclarations d = names.map fun name => .ok ⟨.str name, .variable, d⟩ := by
  obtain ⟨fields, _, rfl, _⟩ := isNode_iff.mp hnode
  rw [declaratorDeclarations, ← fieldOf_obj, h.patternNames_eq, List.map_map]
  rfl

theorem statementDeclarations_named {v : Value} {kind : String} {binding : BindingKind}
    (h : (kind, binding) ∈ declaringKinds) (hkind : isKind v kind = true) :
    ∃ fields, v = .obj fields ∧ statementDeclarations v = namedDeclaration binding fields := by
  obtain ⟨fields, _, rfl, _⟩ := isNode_iff.mp (isNode_of_isKind hkind)
  have htype : (Fields.get fields "type").text? = some kind := isKind_iff.mp hkind
  refine ⟨fields, rfl, ?_⟩
  rcases List.mem_pair.mp h with heq | heq
  · cases heq
    rw [statementDeclarations, htype]
    rfl
  · cases heq
    rw [statementDeclarations, htype]
    rfl

theorem statementDeclarations_exported {v : Value} {kind : String} (h : kind ∈ exporterKinds)
    (hkind : isKind v kind = true) :
    statementDeclarations v = statementDeclarations (fieldOf v "declaration") := by
  obtain ⟨fields, _, rfl, _⟩ := isNode_iff.mp (isNode_of_isKind hkind)
  have htype : (Fields.get fields "type").text? = some kind := isKind_iff.mp hkind
  rcases List.mem_pair.mp h with rfl | rfl
  · rw [statementDeclarations, htype]
    rfl
  · rw [statementDeclarations, htype]
    rfl

theorem statementDeclarations_variables {v : Value} (h : isKind v "VariableDeclaration" = true) :
    statementDeclarations v = rowOf declaratorDeclarations (fieldOf v "declarations") := by
  obtain ⟨fields, _, rfl, _⟩ := isNode_iff.mp (isNode_of_isKind h)
  have htype : (Fields.get fields "type").text? = some "VariableDeclaration" := isKind_iff.mp h
  rw [statementDeclarations, htype, fieldOf_obj]
  cases Fields.get fields "declarations" with
  | arr declarators => rfl
  | _ => rfl

theorem statementDeclarations_other {v : Value} (hnode : isNode v = true)
    (h : ∀ kind ∈ "VariableDeclaration" :: exporterKinds ++ declaringKinds.map Prod.fst,
      isKind v kind = false) : statementDeclarations v = [] := by
  obtain ⟨fields, kind, rfl, hkind⟩ := isNode_iff.mp hnode
  have hother : ∀ other ∈ "VariableDeclaration" :: exporterKinds ++ declaringKinds.map Prod.fst,
      kind ≠ other := fun other hmem heq =>
    Bool.eq_false_iff.mp (h other hmem) (isKind_obj_iff.mpr (heq ▸ hkind))
  simp only [exporterKinds, declaringKinds, List.map_cons, List.map_nil, List.cons_append, List.nil_append,
    List.forall_mem_cons] at hother
  obtain ⟨h1, h2, h3, h4, h5, _⟩ := hother
  rw [statementDeclarations, hkind]
  simp [Value.text?, h1, h2, h3, h4, h5]

/-- The declarations of a statement are found in their order. -/
theorem DeclaresInOrder.statementDeclarations_eq {s : Value} {row : List Declaration}
    (h : DeclaresInOrder s row) : statementDeclarations s = row.map .ok := by
  induction h with
  | absent => rw [statementDeclarations, List.map_nil]
  | named listed kind id named =>
    obtain ⟨fields, rfl, heq⟩ := statementDeclarations_named listed kind
    rw [fieldOf_obj] at id
    rw [heq, namedDeclaration, id, ← named]
    rfl
  | unnamed listed kind id =>
    obtain ⟨fields, rfl, heq⟩ := statementDeclarations_named listed kind
    rw [fieldOf_obj] at id
    rw [heq, namedDeclaration, id]
    rfl
  | @declarators v items names kind list nodes inner =>
    rw [statementDeclarations_variables kind, rowOf_of_lists list, List.map_flatMap]
    refine List.flatMap_congr fun d hd => ?_
    rw [declaratorDeclarations_of_names (nodes d hd) (inner d hd), List.map_map]
    rfl
  | exported listed kind _ ih => rw [statementDeclarations_exported listed kind, ih]
  | other node kind => rw [statementDeclarations_other node kind, List.map_nil]

/-- There is one order only. -/
theorem DeclaresInOrder.unique {s : Value} {row other : List Declaration} (h : DeclaresInOrder s row)
    (hother : DeclaresInOrder s other) : row = other := by
  have hok : Function.Injective (Except.ok : Declaration → Except Fault Declaration) :=
    fun _ _ => Except.ok.inj
  exact hok.list_map (h.statementDeclarations_eq.symm.trans hother.statementDeclarations_eq)

/-! ## Well-shaped statements -/

section Reading

variable {S : Value → Prop} (R : ExportReading S)

include R

/-- A readable pattern binds names, in some order. -/
theorem exists_names {v : Value} (h : OrAbsent S v) : ∃ names, NamesInOrder v names := by
  fun_induction patternNames v with
  | case1 => exact ⟨[], .gap⟩
  | case2 fields hkind =>
    obtain ⟨n, hn⟩ := R.name (h.resolve_left (by simp)) (isKind_iff.mpr hkind)
    exact ⟨[n], .identifier (isKind_iff.mpr hkind) hn⟩
  | case3 fields hkind items hitems ihArgument ihValue =>
    have hkind : isKind (.obj fields) "ObjectPattern" = true := isKind_iff.mpr hkind
    have hall := (R.members (h.resolve_left (by simp)) hkind).forall_mem hitems
    have hnames : ∀ m ∈ items, ∃ names, NamesInOrder (fieldOf m (memberField m)) names := by
      intro m hm
      obtain ⟨hnode, hpart⟩ := hall m hm
      obtain ⟨member, _, rfl, _⟩ := isNode_iff.mp hnode
      rw [memberField] at hpart ⊢
      split at hpart
      · next hrest =>
        rw [if_pos hrest]
        exact ihArgument ⟨_, hm⟩ member rfl hpart
      · next hrest =>
        rw [if_neg hrest]
        exact ihValue ⟨_, hm⟩ member rfl hpart
    choose! names hnames using hnames
    exact ⟨_, .object hkind (.inl hitems) (fun m hm => (hall m hm).1) hnames⟩
  | case4 fields hkind hno =>
    have hkind : isKind (.obj fields) "ObjectPattern" = true := isKind_iff.mpr hkind
    have hnull := (R.members (h.resolve_left (by simp)) hkind).eq_null hno
    have hnone : NamesInOrder (.obj fields) (([] : List Value).flatMap fun _ => []) :=
      .object hkind (.inr ⟨hnull, rfl⟩) (by simp) (by simp)
    exact ⟨_, hnone⟩
  | case5 fields hkind items hitems ih =>
    have hkind : isKind (.obj fields) "ArrayPattern" = true := isKind_iff.mpr hkind
    have hall := (R.elements (h.resolve_left (by simp)) hkind).forall_mem hitems
    have hnames : ∀ e ∈ items, ∃ names, NamesInOrder e names := fun e he => ih ⟨e, he⟩ (hall e he)
    choose! names hnames using hnames
    exact ⟨_, .array hkind (.inl hitems) hnames⟩
  | case6 fields hkind hno =>
    have hkind : isKind (.obj fields) "ArrayPattern" = true := isKind_iff.mpr hkind
    have hnull := (R.elements (h.resolve_left (by simp)) hkind).eq_null hno
    have hnone : NamesInOrder (.obj fields) (([] : List Value).flatMap fun _ => []) :=
      .array hkind (.inr ⟨hnull, rfl⟩) (by simp)
    exact ⟨_, hnone⟩
  | case7 fields hkind ih =>
    have hkind : isKind (.obj fields) "RestElement" = true := isKind_iff.mpr hkind
    obtain ⟨names, hnames⟩ := ih (R.one (h.resolve_left (by simp)) hkind "argument" (by decide))
    exact ⟨names, .rest hkind hnames⟩
  | case8 fields hkind ih =>
    have hkind : isKind (.obj fields) "AssignmentPattern" = true := isKind_iff.mpr hkind
    obtain ⟨names, hnames⟩ := ih (R.one (h.resolve_left (by simp)) hkind "left" (by decide))
    exact ⟨names, .assignment hkind hnames⟩
  | case9 fields hidentifier hobject harray hrest hassignment =>
    refine ⟨[], .other (R.isNode (h.resolve_left (by simp))) fun kind hmem => ?_⟩
    refine Bool.eq_false_iff.mpr fun hkind => ?_
    have htype : (Fields.get fields "type").text? = some kind := isKind_iff.mp hkind
    simp only [bindingForms, List.mem_cons, List.not_mem_nil, or_false] at hmem
    rcases hmem with rfl | rfl | rfl | rfl | rfl
    · exact hidentifier htype
    · exact hobject htype
    · exact harray htype
    · exact hrest htype
    · exact hassignment htype
  | case10 v hnull hobj =>
    obtain ⟨fields, _, rfl, _⟩ := isNode_iff.mp (R.isNode (h.resolve_left hnull))
    exact (hobj fields rfl).elim

theorem exists_named {v : Value} {kind : String} (binding : BindingKind) (h : S v)
    (hlisted : (kind, binding) ∈ declaringKinds) (hkind : isKind v kind = true) :
    ∃ row, DeclaresInOrder v row := by
  have hnamed : isKind v "FunctionDeclaration" = true ∨ isKind v "ClassDeclaration" = true := by
    rcases List.mem_pair.mp hlisted with heq | heq
    · cases heq
      exact .inl hkind
    · cases heq
      exact .inr hkind
  rcases R.bound h hnamed with hnull | ⟨fields, n, hid, hn⟩
  · exact ⟨[], .unnamed hlisted hkind hnull⟩
  · exact ⟨_, .named hlisted hkind hid hn⟩

/-- A readable statement makes declarations, in some order. -/
theorem exists_declarations {s : Value} (h : OrAbsent S s) : ∃ row, DeclaresInOrder s row := by
  fun_induction statementDeclarations s with
  | case1 => exact ⟨[], .absent⟩
  | case2 fields hkind =>
    exact exists_named R .function (h.resolve_left (by simp)) (by decide) (isKind_iff.mpr hkind)
  | case3 fields hkind =>
    exact exists_named R .type (h.resolve_left (by simp)) (by decide) (isKind_iff.mpr hkind)
  | case4 fields hkind declarators hitems =>
    have hkind : isKind (.obj fields) "VariableDeclaration" = true := isKind_iff.mpr hkind
    have hall := (R.declarators (h.resolve_left (by simp)) hkind).forall_mem hitems
    have hnames : ∀ d ∈ declarators, ∃ names, NamesInOrder (fieldOf d "id") names :=
      fun d hd => exists_names R (hall d hd).2.1
    choose! names hnames using hnames
    exact ⟨_, .declarators hkind (.inl hitems) (fun d hd => (hall d hd).1) hnames⟩
  | case5 fields hkind hno =>
    have hkind : isKind (.obj fields) "VariableDeclaration" = true := isKind_iff.mpr hkind
    have hnull := (R.declarators (h.resolve_left (by simp)) hkind).eq_null hno
    have hnone : DeclaresInOrder (.obj fields) (([] : List Value).flatMap fun d =>
        ([] : List String).map fun name => ⟨.str name, .variable, d⟩) :=
      .declarators hkind (.inr ⟨hnull, rfl⟩) (by simp) (by simp)
    exact ⟨_, hnone⟩
  | case6 fields hkind ih =>
    have hkind : isKind (.obj fields) "ExportNamedDeclaration" = true := isKind_iff.mpr hkind
    obtain ⟨row, hrow⟩ := ih (R.one (h.resolve_left (by simp)) hkind "declaration" (by decide))
    exact ⟨row, .exported (by decide) hkind hrow⟩
  | case7 fields hkind ih =>
    have hkind : isKind (.obj fields) "ExportDefaultDeclaration" = true := isKind_iff.mpr hkind
    obtain ⟨row, hrow⟩ := ih (R.one (h.resolve_left (by simp)) hkind "declaration" (by decide))
    exact ⟨row, .exported (by decide) hkind hrow⟩
  | case8 fields hfunction hclass hvariable hnamed hdefault =>
    refine ⟨[], .other (R.isNode (h.resolve_left (by simp))) fun kind hmem => ?_⟩
    refine Bool.eq_false_iff.mpr fun hkind => ?_
    have htype : (Fields.get fields "type").text? = some kind := isKind_iff.mp hkind
    simp only [exporterKinds, declaringKinds, List.map_cons, List.map_nil, List.cons_append,
      List.nil_append, List.mem_cons, List.not_mem_nil, or_false] at hmem
    rcases hmem with rfl | rfl | rfl | rfl | rfl
    · exact hvariable htype
    · exact hnamed htype
    · exact hdefault htype
    · exact hfunction htype
    · exact hclass htype
  | case9 v hnull hobj =>
    obtain ⟨fields, _, rfl, _⟩ := isNode_iff.mp (R.isNode (h.resolve_left hnull))
    exact (hobj fields rfl).elim

end Reading

/-! ## Gathering -/

/-- The text of a declared name. -/
def Declaration.text (d : Declaration) : String :=
  d.name.text?.getD ""

theorem DeclaresInOrder.name_eq {s : Value} {row : List Declaration} (h : DeclaresInOrder s row) :
    ∀ d ∈ row, d.name = .str d.text := by
  induction h with
  | absent | unnamed | other => simp
  | named => simp [Declaration.text, Value.text?]
  | declarators =>
    intro d hd
    obtain ⟨declarator, _, hd⟩ := List.mem_flatMap.mp hd
    obtain ⟨name, _, rfl⟩ := List.mem_map.mp hd
    rfl
  | exported _ _ _ ih => exact ih

namespace Gathered

/-- Adding a declaration renews the entry of its name. -/
theorem add_eq_renew (gathered : Gathered) (d : Declaration) :
    gathered.add d = renew d.name (fun ds => ds.getD [] ++ [d]) gathered := by
  induction gathered with
  | nil => rfl
  | cons entry rest ih => rw [Gathered.add, renew, ih, Option.getD_some]

end Gathered

/-- In a table with one entry for each text, a text is looked up under itself. -/
theorem Gathered.of_entriesOf (names : List String) (entry : String → List Declaration) (name : String) :
    Gathered.of (entriesOf names entry) (.str name) = if name ∈ names then entry name else [] := by
  have hkeys : ∀ keys : List String, Gathered.of (keys.map fun key => (.str key, entry key)) (.str name) =
      if name ∈ keys then entry name else [] := by
    intro keys
    induction keys with
    | nil => rfl
    | cons key keys ih =>
      rw [List.map_cons, of_cons, ih]
      by_cases hkey : key = name
      · simp [hkey]
      · simp [hkey, Ne.symm hkey]
  rw [entriesOf, hkeys]
  simp only [List.mem_eraseDups]

/-- Declarations whose names are texts are gathered one after the other. -/
theorem gather_eq_tabulate {row : List Declaration} (h : ∀ d ∈ row, d.name = .str d.text) :
    gather (row.map .ok) = .ok (tabulate Declaration.text (fun d ds => ds.getD [] ++ [d]) row) := by
  induction row using List.reverseRecOn with
  | nil => rfl
  | append_singleton row d ih =>
    have hd := h d (List.mem_append_right _ List.mem_cons_self)
    have hrow := ih fun other hother => h other (List.mem_append_left _ hother)
    rw [gather] at hrow ⊢
    rw [List.map_append, List.foldlM_append, hrow, tabulate_concat]
    simp [hd, Value.key, Value.isKey, Gathered.add_eq_renew]

/-- Under each name the table has the declarations of that name. -/
theorem tabulate_declarations (row : List Declaration) :
    tabulate Declaration.text (fun d ds => ds.getD [] ++ [d]) row =
      entriesOf (row.map Declaration.text) fun name => row.filter fun d => d.text == name := by
  refine tabulate_eq_entriesOf (fun row name => row.filter fun d => d.text == name)
    (fun row d other hother => ?_) (fun row d => ?_) row
  · rw [List.filter_append, List.filter_singleton, beq_false_of_ne (Ne.symm hother)]
    exact List.append_nil _
  · rw [List.filter_append, List.filter_singleton, beq_self_eq_true]
    split
    · rfl
    · next hnew =>
      have hnone : (row.filter fun other => other.text == d.text) = [] :=
        List.filter_eq_nil_iff.mpr fun other hother heq =>
          hnew (beq_iff_eq.mp heq ▸ List.mem_map_of_mem hother)
      rw [hnone]
      rfl

/-- The table holds the declarations of a row by name. -/
structure Groups (gathered : Gathered) (row : List Declaration) : Prop where
  /-- Under each name stand its declarations, in the order of the row. -/
  under : ∀ name, gathered.of (.str name) = row.filter fun d => d.name.isText name
  /-- The names of the table are those that are declared. -/
  declared : ∀ key, key ∈ gathered.map Prod.fst ↔ ∃ d ∈ row, d.name = key
  /-- The names stand in the order in which they are first declared. -/
  order : gathered.map Prod.fst = (row.map Declaration.text).eraseDups.map .str
  /-- No declaration is lost. -/
  lengths : total (fun entry => entry.2.length) gathered = row.length

/-- Declarations whose names are texts are gathered by name. -/
theorem exists_groups {row : List Declaration} (h : ∀ d ∈ row, d.name = .str d.text) :
    ∃ gathered, gather (row.map .ok) = .ok gathered ∧ Groups gathered row := by
  refine ⟨_, gather_eq_tabulate h, ?_⟩
  have horder : (tabulate Declaration.text (fun d ds => ds.getD [] ++ [d]) row).map Prod.fst =
      (row.map Declaration.text).eraseDups.map Value.str := by
    rw [tabulate_declarations, entriesOf, List.map_map]
    rfl
  refine ⟨fun name => ?_, fun key => ?_, horder, ?_⟩
  · have hsame : (row.filter fun d => d.text == name) = row.filter fun d => d.name.isText name :=
      List.filter_congr fun d hd => by rw [h d hd]; rfl
    rw [tabulate_declarations, Gathered.of_entriesOf, ← hsame]
    split
    · rfl
    · next hnew =>
      refine (List.filter_eq_nil_iff.mpr fun d hd heq => hnew ?_).symm
      exact beq_iff_eq.mp heq ▸ List.mem_map_of_mem hd
  · rw [horder]
    simp only [List.mem_map, List.mem_eraseDups]
    constructor
    · rintro ⟨_, ⟨d, hd, rfl⟩, rfl⟩
      exact ⟨d, hd, h d hd⟩
    · rintro ⟨d, hd, rfl⟩
      exact ⟨d.text, ⟨d, hd, rfl⟩, (h d hd).symm⟩
  · exact total_tabulate (fun _ => rfl) (fun d ds => by simp) row

/-- The declarations of a row of statements are found one statement after the other, with texts for their
names. -/
theorem flatMap_statementDeclarations {statements : List Value} {rows : List (List Declaration)}
    (h : List.Forall₂ DeclaresInOrder statements rows) :
    statements.flatMap statementDeclarations = rows.flatten.map .ok ∧
      ∀ d ∈ rows.flatten, d.name = .str d.text := by
  induction h with
  | nil => exact ⟨rfl, by simp⟩
  | cons hrow _ ih =>
    obtain ⟨hread, hnames⟩ := ih
    rw [List.flatMap_cons, hrow.statementDeclarations_eq, hread, List.flatten_cons, List.map_append]
    exact ⟨rfl, List.forall_mem_append.mpr ⟨hrow.name_eq, hnames⟩⟩

/-- A program's declarations are gathered by name without loss.  Every well-shaped statement makes
declarations in one order, and those of all statements, one statement after the other, are what the table
holds. -/
theorem declarations_grouped :
    (∀ s, ExportShaped s → ∃! row, DeclaresInOrder s row) ∧
    ∀ (fields : Fields) (statements : List Value) (rows : List (List Declaration)),
      Fields.get fields "body" = .arr statements → List.Forall₂ DeclaresInOrder statements rows →
      ∃ gathered, declarations (.obj fields) = .ok gathered ∧ Groups gathered rows.flatten := by
  refine ⟨fun s hs => ?_, fun fields statements rows hbody hrows => ?_⟩
  · obtain ⟨row, hrow⟩ := exists_declarations exportReading_exportShaped (.inr hs)
    exact ⟨row, hrow, fun other hother => hother.unique hrow⟩
  · obtain ⟨hread, hnames⟩ := flatMap_statementDeclarations hrows
    have hprogram : programDeclarations (.obj fields) = rows.flatten.map .ok := by
      rw [programDeclarations, hbody, ← hread]
    rw [declarations, hprogram]
    exact exists_groups hnames

/-- In `export default function f() {}; var { a: [f, , ...g], ...f }; export class g {}; export { f }` two
names are declared five times, in turns and as different things. -/
theorem declarations_grouped_turns :
    let name (text : String) : Value := .obj [("type", .str "Identifier"), ("name", .str text)]
    let rest (text : String) : Value := .obj [("type", .str "RestElement"), ("argument", name text)]
    let list : Value := .obj [("type", .str "ArrayPattern"),
      ("elements", .arr [name "f", .null, rest "g"])]
    let member : Value := .obj [("type", .str "Property"), ("value", list)]
    let pattern : Value := .obj [("type", .str "ObjectPattern"), ("properties", .arr [member, rest "f"])]
    let d : Value := .obj [("type", .str "VariableDeclarator"), ("id", pattern)]
    let function : Value := .obj [("type", .str "FunctionDeclaration"), ("id", name "f")]
    let type : Value := .obj [("type", .str "ClassDeclaration"), ("id", name "g")]
    let first : Value := .obj [("type", .str "ExportDefaultDeclaration"), ("declaration", function)]
    let statements : List Value := [first,
      .obj [("type", .str "VariableDeclaration"), ("declarations", .arr [d])],
      .obj [("type", .str "ExportNamedDeclaration"), ("declaration", type)],
      .obj [("type", .str "ExportNamedDeclaration"), ("specifiers", .arr [name "f"])]]
    let rows : List (List Declaration) := [
      [⟨.str "f", .function, function⟩],
      [⟨.str "f", .variable, d⟩, ⟨.str "g", .variable, d⟩, ⟨.str "f", .variable, d⟩],
      [⟨.str "g", .type, type⟩], []]
    ExportShaped first ∧ (∃! row, DeclaresInOrder first row) ∧ List.Forall₂ DeclaresInOrder statements rows ∧
      ∃ gathered, declarations (.obj [("type", .str "Program"), ("body", .arr statements)]) = .ok gathered ∧
        gathered.map Prod.fst = [.str "f", .str "g"] ∧
        (gathered.of (.str "f")).map Declaration.kind = [.function, .variable, .variable] ∧
        (gathered.of (.str "g")).map Declaration.kind = [.variable, .type] := by
  intro name rest list member pattern d function type first statements rows
  have hfirst : ExportShaped first := by
    have hid : ExportShaped (name "f") := .node (by decide) fun e he => (by cases he)
    have hfunction : ExportShaped function := by
      refine .node (by decide) fun e he => ?_
      obtain rfl := List.mem_singleton.mp he
      exact hid
    refine .node (by decide) fun e he => ?_
    obtain rfl := List.mem_singleton.mp he
    exact hfunction
  have hname : ∀ text, NamesInOrder (name text) [text] := fun _ => .identifier rfl rfl
  have hrest : ∀ text, NamesInOrder (rest text) [text] := fun text => .rest rfl (hname text)
  have hlist : NamesInOrder list ["f", "g"] := by
    let names (e : Value) : List String :=
      if isKind e "Identifier" then ["f"] else if isKind e "RestElement" then ["g"] else []
    have helements : ∀ e ∈ [name "f", .null, rest "g"], NamesInOrder e (names e) := by
      simp only [List.forall_mem_cons]
      exact ⟨hname "f", .gap, hrest "g", nofun⟩
    exact .array rfl (.inl rfl) helements
  have hpattern : NamesInOrder pattern ["f", "g", "f"] := by
    let names (m : Value) : List String := if isKind m "Property" then ["f", "g"] else ["f"]
    have hmembers : ∀ m ∈ [member, rest "f"], NamesInOrder (fieldOf m (memberField m)) (names m) := by
      simp only [List.forall_mem_cons]
      exact ⟨hlist, hname "f", nofun⟩
    exact .object rfl (.inl rfl) (by decide) hmembers
  have hrows : List.Forall₂ DeclaresInOrder statements rows := by
    have hdefault : isKind first "ExportDefaultDeclaration" = true := rfl
    have hfunction : isKind function "FunctionDeclaration" = true := rfl
    have hnamed : isKind statements[2] "ExportNamedDeclaration" = true := rfl
    have htype : isKind type "ClassDeclaration" = true := rfl
    have hlisted : isKind statements[3] "ExportNamedDeclaration" = true := rfl
    have hvariables : ∀ v ∈ [d], NamesInOrder (fieldOf v "id") ["f", "g", "f"] := by
      simp only [List.forall_mem_singleton]
      exact hpattern
    refine .cons ?_ (.cons ?_ (.cons ?_ (.cons ?_ .nil)))
    · exact .exported (by decide) hdefault (.named (by decide) hfunction rfl rfl)
    · exact .declarators rfl (.inl rfl) (by decide) hvariables
    · exact .exported (by decide) hnamed (.named (by decide) htype rfl rfl)
    · exact .exported (by decide) hlisted .absent
  obtain ⟨gathered, heq, hgroups⟩ := declarations_grouped.2
    [("type", .str "Program"), ("body", .arr statements)] statements rows rfl hrows
  refine ⟨hfirst, declarations_grouped.1 first hfirst, hrows, gathered, heq, hgroups.order, ?_, ?_⟩
  · rw [hgroups.under]
    rfl
  · rw [hgroups.under]
    rfl

end TreeLint.Usage

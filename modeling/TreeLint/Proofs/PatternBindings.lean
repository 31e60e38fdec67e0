/-
  What the pattern of a variable binds.

  The names of a pattern are read off it part by part, and the search for occurrences goes through the same
  pattern child by child and gives each identifier in it a role.  Both select the same identifiers: each place
  where a name is bound is found once, as part of a pattern and never as a use, and nothing else below the
  variable is found as part of a pattern.  So a variable at the top level of a program is not used at
  the place where it is bound.
-/
import TreeLint.Proofs.PatternRoles

set_option autoImplicit false

namespace TreeLint.Usage

open TreeLint.Json TreeLint.Syntax

/-! ## Declarators -/

/-- The places where the variables of a declarator at a path are bound. -/
def DeclaresAt (place : Path) (d : Value) (path : Path) (x : Value) : Prop :=
  Binds (⟨"id", none⟩ :: place) (fieldOf d "id") path x

theorem childRole_of_declarator {d : Value} (h : isKind d "VariableDeclarator" = true) (e : Edge)
    (above : Role) :
    childRole d e above =
      if typeFields.contains e.step.field || isTypeKind ((kind? e.child).getD "") then none
      else plainRole "VariableDeclarator" e.step.field (fieldOf d "computed").truthy := by
  obtain ⟨fields, _, rfl, _⟩ := isNode_iff.mp (isNode_of_isKind h)
  have hlookup : typedExpressionFields.lookup "VariableDeclarator" = none := by decide
  have hpattern : ∀ field computed, patternRole? "VariableDeclarator" field computed = none :=
    fun _ _ => patternRole?_eq_none (by decide)
  simp only [childRole, isKind_iff.mp h, Option.getD_some, hlookup, hpattern, fieldOf_obj, ite_self]
  simp

theorem BindingDeclarator.mem_edges {d : Value} (h : BindingDeclarator d) :
    ⟨⟨"id", none⟩, fieldOf d "id"⟩ ∈ edges d :=
  mem_edges_of_field h.kind (by decide) h.pattern.isNode

/-- The pattern of a declarator is searched as one. -/
theorem BindingDeclarator.childRole_id {d : Value} (h : BindingDeclarator d) (above : Role) :
    childRole d ⟨⟨"id", none⟩, fieldOf d "id"⟩ above = some .pattern := by
  rw [childRole_of_declarator h.kind]
  have hrole : ∀ computed, plainRole "VariableDeclarator" "id" computed = some .pattern := by decide
  have htyped : typeFields.contains "id" = false := by decide
  simp only [h.pattern.isPart.not_type, htyped, hrole, Bool.or_false, Bool.false_eq_true, if_false]

/-- Where the search comes to a declarator, it finds the places of its variables as parts of a pattern. -/
theorem BindingDeclarator.live {root d x : Value} {place path : Path} {above : Role}
    (h : BindingDeclarator d) (hlive : Live root place d above) (hsite : DeclaresAt place d path x) :
    Live root path x .pattern := by
  refine h.pattern.live (.step hlive (.inr ?_) h.mem_edges (h.childRole_id above)) hsite
  exact Bool.eq_false_iff.mpr fun htag => absurd (isKind_unique h.kind htag) (by decide)

/-- A node below a declarator, as the search comes to it: a part of the pattern, or nothing that has
bindings. -/
inductive Below (d : Value) : Path → Value → Role → Prop
  /-- The declarator itself. -/
  | root : Below d [] d .reference
  /-- A part of its pattern. -/
  | part {path : Path} {v : Value} (h : InPattern (DeclaresAt [] d) path v) : Below d path v .pattern
  /-- What has no bindings of its own. -/
  | quiet {path : Path} {v : Value} {role : Role} (hrole : role ≠ .pattern) (h : BindsNothing v) :
      Below d path v role

theorem BindingDeclarator.child {d : Value} (h : BindingDeclarator d) {e : Edge} (he : e ∈ edges d)
    {role : Role} (hrole : childRole d e .reference = some role) : Below d [e.step] e.child role := by
  obtain ⟨name, hname, hmem⟩ := (mem_edges_iff_listed h.kind
    (by decide : listedFields? "VariableDeclarator" = some ["id", "init"])).mp he
  have hfield := field_of_mem_fieldEdges hmem
  rcases List.mem_pair.mp hname with rfl | rfl
  · obtain rfl := (mem_fieldEdges_node_iff h.pattern.isNode).mp hmem
    cases (h.childRole_id .reference).symm.trans hrole
    exact .part (.pattern h.pattern fun _ _ hsite => hsite)
  · refine .quiet ?_ (h.init e he hfield)
    rintro rfl
    rw [childRole_of_declarator h.kind, hfield] at hrole
    have hinit : ∀ computed, plainRole "VariableDeclarator" "init" computed = some .reference := by decide
    rw [hinit] at hrole
    split at hrole
    · cases hrole
    · cases hrole

/-- Every node that the search comes to is of this sort. -/
theorem BindingDeclarator.below {d v : Value} {path : Path} {role : Role} (h : BindingDeclarator d)
    (hlive : Live d path v role) : Below d path v role := by
  induction hlive with
  | root => exact .root
  | @step path parent e above role before inner child gives ih =>
    cases ih with
    | root => exact h.child child gives
    | part hpart =>
      rcases hpart.child child gives with ⟨rfl, hnext⟩ | ⟨hrole, hnext⟩
      · exact .part hnext
      · exact .quiet hrole hnext
    | quiet habove hquiet => exact .quiet (hquiet.role_ne child habove gives) (hquiet.child child)

/-! ## Occurrences at the places of variables -/

/-- An identifier of the name at the end of a live path is found. -/
theorem Live.occurs {root x : Value} {path : Path} {role : Role} {name : String}
    (h : Live root path x role) (hbelow : path ≠ []) (hkind : isKind x "Identifier" = true)
    (hname : fieldOf x "name" = .str name) : Occurs root name ⟨role, path, x⟩ := by
  cases h with
  | root => exact absurd rfl hbelow
  | step before inner child gives => exact .identifier before inner child gives hkind hname

/-- What is found stands at the end of a live path; an identifier has the role that the path gives it. -/
theorem Occurs.live {root : Value} {name : String} {o : Occurrence} (h : Occurs root name o) :
    ∃ role, Live root o.path o.node role ∧ (isKind o.node "Identifier" = true → o.role = role) := by
  cases h with
  | identifier before inner child gives => exact ⟨_, .step before inner child gives, fun _ => rfl⟩
  | tag before inner child gives kind =>
    exact ⟨_, .step before inner child gives, fun hother => absurd (isKind_unique kind hother) (by decide)⟩

/-- Below a declarator, the identifiers of a name that are found as parts of a pattern are those that bind
the name. -/
theorem BindingDeclarator.occurs_pattern_iff {d x : Value} {path : Path} {name : String}
    (h : BindingDeclarator d) :
    Occurs d name ⟨.pattern, path, x⟩ ↔ DeclaresAt [] d path x ∧ fieldOf x "name" = .str name := by
  constructor
  · intro hoccurs
    cases hoccurs with
    | identifier before inner child gives kind named =>
      refine ⟨?_, named⟩
      cases h.below (.step before inner child gives) with
      | part hpart =>
        cases hpart with
        | pattern _ sites => exact sites _ _ (.identifier kind)
        | property hproperty => exact absurd (isKind_unique kind hproperty) (by decide)
      | quiet hrole => exact absurd rfl hrole
  · rintro ⟨hsite, hname⟩
    have hbelow : path ≠ [] := by
      rintro rfl
      cases List.suffix_nil.mp hsite.suffix
    exact (h.live .root hsite).occurs hbelow hsite.isIdentifier hname

theorem Live.reaches {root v : Value} {path : Path} {role : Role} (h : Live root path v role) :
    Reaches root path v := by
  induction h with
  | root => exact .root
  | step _ _ child _ ih => exact ih.child child

/-- On the way to the end of a live path everything is live. -/
theorem Live.of_suffix {root v : Value} {path place : Path} {role : Role} (h : Live root path v role)
    (hplace : place <:+ path) : ∃ w above, Live root place w above := by
  induction h with
  | root =>
    obtain rfl := List.suffix_nil.mp hplace
    exact ⟨_, _, .root⟩
  | step before inner child gives ih =>
    rcases List.suffix_cons_iff.mp hplace with rfl | hbefore
    · exact ⟨_, _, .step before inner child gives⟩
    · exact ih hbefore

/-- What is found at the place of a variable, wherever its declarator stands, is part of a pattern. -/
theorem BindingDeclarator.role_at {root d x : Value} {place path : Path} {name : String} {o : Occurrence}
    (h : BindingDeclarator d) (hd : Reaches root place d) (hsite : DeclaresAt place d path x)
    (ho : Occurs root name o) (hpath : o.path = path) : o.node = x ∧ o.role = .pattern := by
  obtain ⟨role, hlive, hrole⟩ := ho.live
  rw [hpath] at hlive
  obtain ⟨w, above, hplace⟩ := hlive.of_suffix ((List.suffix_cons _ place).trans hsite.suffix)
  obtain rfl := hplace.reaches.unique hd
  obtain ⟨hnode, rfl⟩ := hlive.unique (h.live hplace hsite)
  exact ⟨hnode, hrole (hnode ▸ hsite.isIdentifier)⟩

/-! ## Counting -/

/-- The name was read, and is the text. -/
def isNameText (text : String) : Except Fault Value → Bool
  | .ok name => name.isText text
  | .error _ => false

/-- An occurrence was found, and is part of a pattern. -/
def isBinding : Except Fault Occurrence → Bool
  | .ok o => o.role = .pattern
  | .error _ => false

/-- Nothing is found in one place twice. -/
theorem nodup_paths_of_occurrences {root : Value} {name : String} {found : List Occurrence}
    (hroot : isNode root = true) (hfound : occurrences root (.str name) = found.map .ok) :
    (found.map Occurrence.path).Nodup := by
  have hnodup := nodup_search name [⟨[], root, .reference⟩] (List.pairwise_singleton _ _)
  rw [← occurrences_eq_search _ hroot, hfound, List.map_map] at hnodup
  exact hnodup

/-- A name is read off a declarator as often as it is found below it as part of a pattern. -/
theorem BindingDeclarator.countP_eq {d : Value} (h : BindingDeclarator d) (name : String) :
    (patternNames (fieldOf d "id")).countP (isNameText name) =
      (occurrences d (.str name)).countP isBinding := by
  have hnode := isNode_of_isKind h.kind
  obtain ⟨sites, hsites⟩ := h.pattern.exists_sites [⟨"id", none⟩]
  obtain ⟨found, hfound, hoccurs⟩ := exists_occurrences name hnode
  have hpaths := nodup_paths_of_occurrences hnode hfound
  -- Both rows name the same places, and neither names one twice.
  have hsame : ((found.filter fun o => isBinding (.ok o)).map fun o => (o.path, o.node)).Perm
      (sites.filter fun site => isNameText name (.ok (fieldOf site.2 "name"))) := by
    refine (List.perm_ext_iff_of_nodup ?_ ?_).mpr fun site => ?_
    · refine List.Nodup.of_map Prod.fst ?_
      rw [List.map_map]
      exact hpaths.sublist (List.filter_sublist.map Occurrence.path)
    · exact (hsites.distinct.of_map Prod.fst).filter _
    · obtain ⟨path, x⟩ := site
      rw [List.mem_filter, hsites.exact, isNameText, isText_iff]
      refine Iff.trans ?_ h.occurs_pattern_iff
      rw [← hoccurs, List.mem_map]
      constructor
      · rintro ⟨⟨role, _, _⟩, ho, heq⟩
        obtain ⟨ho, hrole⟩ := List.mem_filter.mp ho
        cases heq
        cases of_decide_eq_true hrole
        exact ho
      · intro ho
        exact ⟨_, List.mem_filter.mpr ⟨ho, rfl⟩, rfl⟩
  rw [hsites.names, hfound, List.countP_map, List.countP_map, List.countP_eq_length_filter,
    List.countP_eq_length_filter]
  have hlength := hsame.length_eq
  rw [List.length_map] at hlength
  exact hlength.symm

/-! ## Variables at the top level -/

/-- Only nodes declare anything. -/
theorem isNode_of_mem_statementDeclarations {s : Value} {d : Declaration}
    (h : .ok d ∈ statementDeclarations s) : isNode s = true := by
  cases s with
  | null =>
    rw [statementDeclarations] at h
    cases h
  | obj fields =>
    cases htype : (Fields.get fields "type").text? with
    | none =>
      rw [statementDeclarations, htype] at h
      cases h
    | some kind => exact isNode_of_isKind (isKind_iff.mpr htype)
  | _ =>
    simp [statementDeclarations] at h

theorem kind_of_mem_namedDeclaration {kind : BindingKind} {fields : Fields} {d : Declaration}
    (h : .ok d ∈ namedDeclaration kind fields) : d.kind = kind := by
  unfold namedDeclaration at h
  split at h
  · cases h
  · cases List.mem_singleton.mp h
    rfl
  · cases List.mem_singleton.mp h

/-- A declarator declares the names of its pattern. -/
theorem mem_declaratorDeclarations {declarator : Value} {d : Declaration}
    (h : .ok d ∈ declaratorDeclarations declarator) :
    d.node = declarator ∧ .ok d.name ∈ patternNames (fieldOf declarator "id") := by
  cases declarator with
  | obj fields =>
    obtain ⟨name, hname, heq⟩ := List.mem_map.mp h
    cases name with
    | error fault => cases heq
    | ok name =>
      cases heq
      exact ⟨rfl, hname⟩
  | _ => cases List.mem_singleton.mp h

/-- A variable that a statement declares is declared in its tree, by a declarator with its name. -/
theorem exists_declarator_of_statement {root s : Value} {base : Path} {d : Declaration}
    (hs : Reaches root base s) (h : .ok d ∈ statementDeclarations s) (hkind : d.kind = .variable)
    (hnode : isNode d.node = true) :
    ∃ place, Reaches root place d.node ∧ .ok d.name ∈ patternNames (fieldOf d.node "id") := by
  fun_induction statementDeclarations s generalizing base with
  | case1 => cases h
  | case2 => cases (kind_of_mem_namedDeclaration h).symm.trans hkind
  | case3 => cases (kind_of_mem_namedDeclaration h).symm.trans hkind
  | case4 fields hstatement declarators hitems =>
    obtain ⟨declarator, hmem, h⟩ := List.mem_flatMap.mp h
    obtain ⟨rfl, hname⟩ := mem_declaratorDeclarations h
    have hkind : isKind (.obj fields) "VariableDeclaration" = true := isKind_iff.mpr hstatement
    obtain ⟨e, he, hchild⟩ := exists_edge_of_item hkind (by decide : "declarations" ∈ _) hitems hmem hnode
    exact ⟨e.step :: base, hchild ▸ hs.child he, hname⟩
  | case5 =>
    obtain ⟨fault, _, heq⟩ := List.mem_map.mp h
    cases heq
  | case6 fields hstatement ih =>
    have hkind : isKind (.obj fields) "ExportNamedDeclaration" = true := isKind_iff.mpr hstatement
    have hedge := mem_edges_of_field hkind (by decide : "declaration" ∈ _)
      (isNode_of_mem_statementDeclarations h)
    exact ih (hs.child hedge) h
  | case7 fields hstatement ih =>
    have hkind : isKind (.obj fields) "ExportDefaultDeclaration" = true := isKind_iff.mpr hstatement
    have hedge := mem_edges_of_field hkind (by decide : "declaration" ∈ _)
      (isNode_of_mem_statementDeclarations h)
    exact ih (hs.child hedge) h
  | case8 => cases h
  | case9 => cases List.mem_singleton.mp h

/-- A variable that a program declares is declared in its tree, by a declarator with its name. -/
theorem exists_declarator_of_program {program : Value} {d : Declaration}
    (hprogram : isKind program "Program" = true) (h : .ok d ∈ programDeclarations program)
    (hkind : d.kind = .variable) (hnode : isNode d.node = true) :
    ∃ place, Reaches program place d.node ∧ .ok d.name ∈ patternNames (fieldOf d.node "id") := by
  obtain ⟨fields, _, rfl, _⟩ := isNode_iff.mp (isNode_of_isKind hprogram)
  unfold programDeclarations at h
  dsimp only at h
  split at h
  · next statements hbody =>
    obtain ⟨s, hs, h⟩ := List.mem_flatMap.mp h
    obtain ⟨e, he, rfl⟩ := exists_edge_of_item hprogram (by decide : "body" ∈ _) hbody hs
      (isNode_of_mem_statementDeclarations h)
    exact exists_declarator_of_statement (Reaches.root.child he) h hkind hnode
  · obtain ⟨fault, _, heq⟩ := List.mem_map.mp h
    cases heq

/-- What stands under a name has the property, and the name or one that is like it. -/
def Gathered.Holds (P : Declaration → Prop) (gathered : Gathered) : Prop :=
  ∀ entry ∈ gathered, ∀ d ∈ entry.2, P d ∧ (entry.1 = d.name ∨ entry.1.alike d.name = true)

theorem Gathered.Holds.add {P : Declaration → Prop} {gathered : Gathered} (h : gathered.Holds P)
    {d : Declaration} (hd : P d) : (gathered.add d).Holds P := by
  induction gathered with
  | nil =>
    intro entry hentry other hother
    obtain rfl := List.mem_singleton.mp hentry
    obtain rfl := List.mem_singleton.mp hother
    exact ⟨hd, .inl rfl⟩
  | cons entry rest ih =>
    obtain ⟨hentry, hrest⟩ := List.forall_mem_cons.mp h
    obtain ⟨name, ds⟩ := entry
    rw [Gathered.add]
    split
    · next halike =>
      refine List.forall_mem_cons.mpr ⟨fun other hother => ?_, hrest⟩
      rcases List.mem_append.mp hother with hother | hother
      · exact hentry other hother
      · obtain rfl := List.mem_singleton.mp hother
        exact ⟨hd, .inr halike⟩
    · exact List.forall_mem_cons.mpr ⟨hentry, ih hrest⟩

/-- Gathering adds nothing that was not declared. -/
theorem holds_gather {P : Declaration → Prop} {row : List (Except Fault Declaration)} {gathered : Gathered}
    (hrow : ∀ d, .ok d ∈ row → P d) (h : gather row = .ok gathered) : gathered.Holds P := by
  have hstart : Gathered.Holds P [] := nofun
  rw [gather] at h
  generalize ([] : Gathered) = start at h hstart
  induction row generalizing start with
  | nil =>
    cases h
    exact hstart
  | cons declaration rest ih =>
    rw [List.foldlM_cons] at h
    obtain ⟨next, hnext, h⟩ := bind_eq_ok_iff.mp h
    obtain ⟨d, rfl, hkey⟩ := bind_eq_ok_iff.mp hnext
    obtain ⟨_, _, heq⟩ := bind_eq_ok_iff.mp hkey
    cases heq
    exact ih (fun other hother => hrow other (List.mem_cons_of_mem _ hother)) _ h
      (hstart.add (hrow d List.mem_cons_self))

theorem alike_text_iff {v : Value} {text : String} : v.alike (.str text) = true ↔ v = .str text := by
  have hnumber : (Value.str text).isNaN = false := rfl
  rw [Value.alike, hnumber, Bool.and_false, Bool.or_false, same_text_iff]

/-- What is looked up under a text has the property, and the text for its name or one that is like it. -/
theorem Gathered.Holds.of {P : Declaration → Prop} {gathered : Gathered} (h : gathered.Holds P)
    {name : String} {d : Declaration} (hd : d ∈ gathered.of (.str name)) :
    P d ∧ (.str name = d.name ∨ (Value.str name).alike d.name = true) := by
  unfold Gathered.of at hd
  cases hfind : List.find? (fun entry => entry.1.alike (.str name)) gathered with
  | none =>
    rw [hfind] at hd
    cases hd
  | some entry =>
    rw [hfind] at hd
    have hname : entry.1.alike (.str name) = true := by simpa using List.find?_some hfind
    have hentry := h entry (List.mem_of_find?_eq_some hfind) d hd
    rwa [alike_text_iff.mp hname] at hentry

/-- A variable that is gathered under a name is declared in the program by a declarator, and one of the places
that the declarator binds has the name. -/
theorem exists_place_of_gathered {program : Value} {gathered : Gathered} {name : String} {d : Declaration}
    (hprogram : isKind program "Program" = true) (hgathered : declarations program = .ok gathered)
    (hd : d ∈ gathered.of (.str name)) (hkind : d.kind = .variable) (hnode : BindingDeclarator d.node) :
    ∃ place path x, Reaches program place d.node ∧ DeclaresAt place d.node path x ∧
      fieldOf x "name" = .str name := by
  have hdeclared : gathered.Holds fun d => .ok d ∈ programDeclarations program :=
    holds_gather (fun _ hmem => hmem) hgathered
  obtain ⟨hmem, hname⟩ := hdeclared.of hd
  obtain ⟨place, hplace, hbound⟩ :=
    exists_declarator_of_program hprogram hmem hkind (isNode_of_isKind hnode.kind)
  obtain ⟨path, x, text, hsite, hx, heq⟩ := hnode.pattern.exists_site (⟨"id", none⟩ :: place) hbound
  refine ⟨place, path, x, hplace, hsite, ?_⟩
  rw [Except.ok.inj heq, Value.alike_str, beq_iff_eq, Value.str.injEq, or_self] at hname
  rw [hx, hname]

/-- The names of a pattern and the search for occurrences agree.  Below a declarator both end without a
fault, a name is read off the pattern as often as it is found as part of a pattern, and what is found at a place
where a name is bound is no use.  In every program, a variable that is declared at the top level is bound at a
place in the tree, and what is found there, wherever its declarator stands, is no use of it. -/
theorem pattern_bindings_agree (d : Value) (h : BindingDeclarator d) (name : String) :
    (∀ x ∈ patternNames (fieldOf d "id"), ∃ text, x = .ok (.str text)) ∧
    (∀ x ∈ occurrences d (.str name), ∃ o, x = .ok o) ∧
    (patternNames (fieldOf d "id")).countP (isNameText name) =
      (occurrences d (.str name)).countP isBinding ∧
    (∀ path x, DeclaresAt [] d path x → ∀ o, .ok o ∈ occurrences d (.str name) → o.path = path →
      o.node = x ∧ o.role = .pattern) ∧
    ∀ program gathered recorded, isKind program "Program" = true → declarations program = .ok gathered →
      recorded ∈ gathered.of (.str name) → recorded.kind = .variable → recorded.node = d →
      (∃ place path x, Reaches program place d ∧ DeclaresAt place d path x ∧
        fieldOf x "name" = .str name) ∧
      ∀ place path x, Reaches program place d → DeclaresAt place d path x →
        ∀ o, .ok o ∈ occurrences program (.str name) → o.path = path →
          o.node = x ∧ o.role = .pattern := by
  have hmem : ∀ {root : Value} {o : Occurrence}, isNode root = true →
      .ok o ∈ occurrences root (.str name) → Occurs root name o := by
    intro root o hroot ho
    rw [occurrences_eq_search _ hroot] at ho
    exact mem_search_root_iff.mp ho
  have hnode := isNode_of_isKind h.kind
  refine ⟨?_, ?_, h.countP_eq name, ?_, ?_⟩
  · intro x hx
    obtain ⟨_, _, text, _, _, heq⟩ := h.pattern.exists_site [] hx
    exact ⟨text, heq⟩
  · intro x hx
    obtain ⟨found, hfound, _⟩ := exists_occurrences name hnode
    rw [hfound] at hx
    obtain ⟨o, _, rfl⟩ := List.mem_map.mp hx
    exact ⟨o, rfl⟩
  · intro path x hsite o ho hpath
    exact h.role_at .root hsite (hmem hnode ho) hpath
  · rintro program gathered recorded hprogram hgathered hrecorded hkind rfl
    refine ⟨exists_place_of_gathered hprogram hgathered hrecorded hkind h, ?_⟩
    intro place path x hplace hsite o ho hpath
    exact h.role_at hplace hsite (hmem (isNode_of_isKind hprogram) ho) hpath

/-- In `var { a: [a, , ...a], [a]: b = a, ...c } = a` the name `a` is found five times, twice where it is
bound. -/
theorem pattern_bindings_agree_twice :
    let name (text : String) : Value := .obj [("type", .str "Identifier"), ("name", .str text)]
    let rest (inner : Value) : Value := .obj [("type", .str "RestElement"), ("argument", inner)]
    let list : Value := .obj [("type", .str "ArrayPattern"),
      ("elements", .arr [name "a", .null, rest (name "a")])]
    let default : Value := .obj [("type", .str "AssignmentPattern"), ("left", name "b"), ("right", name "a")]
    let d : Value := .obj [("type", .str "VariableDeclarator"), ("init", name "a"),
      ("id", .obj [("type", .str "ObjectPattern"), ("properties", .arr [
        .obj [("type", .str "Property"), ("key", name "a"), ("value", list)],
        .obj [("type", .str "Property"), ("computed", .bool true), ("key", name "a"), ("value", default)],
        rest (name "c")])])]
    let program : Value := .obj [("type", .str "Program"), ("body", .arr [
      .obj [("type", .str "VariableDeclaration"), ("declarations", .arr [d])]])]
    BindingDeclarator d ∧ (patternNames (fieldOf d "id")).countP (isNameText "a") = 2 ∧
      (occurrences d (.str "a")).countP isBinding = 2 ∧ (occurrences d (.str "a")).length = 5 ∧
      ∃ gathered recorded, declarations program = .ok gathered ∧ recorded ∈ gathered.of (.str "a") ∧
        recorded.kind = .variable ∧ recorded.node = d ∧
        ∃ place path x, Reaches program place d ∧ DeclaresAt place d path x ∧
          fieldOf x "name" = .str "a" := by
  intro name rest list default d program
  have hname : ∀ text, BindingPattern (name text) := fun text => .identifier rfl rfl nofun
  have hquiet : BindsNothing (name "a") := by
    have hkind : isKind (name "a") "Identifier" = true := rfl
    exact everywhere_iff.mpr ⟨isKind_eq_false_of_not_mem hkind (by decide), nofun⟩
  have hlist : BindingPattern list := by
    refine .array rfl rfl fun item hitem hgap => ?_
    simp only [List.mem_cons, List.not_mem_nil, or_false] at hitem
    rcases hitem with rfl | rfl | rfl
    · exact hname "a"
    · exact absurd rfl hgap
    · exact .rest rfl (hname "a")
  have hdefault : BindingPattern default := by
    refine .assignment rfl (hname "b") fun e he hfield => ?_
    rcases List.mem_pair.mp he with rfl | rfl
    · exact absurd hfield (by decide)
    · exact hquiet
  have hd : BindingDeclarator d := by
    refine ⟨rfl, .object rfl rfl (by decide) ?_ ?_, fun e he hfield => ?_⟩
    · simp only [List.forall_mem_cons]
      refine ⟨fun _ hcomputed => absurd hcomputed (by decide), fun _ _ e he hfield => ?_,
        fun hproperty => absurd hproperty (by decide), nofun⟩
      rcases List.mem_pair.mp he with rfl | rfl
      · exact hquiet
      · exact absurd hfield (by decide)
    · simp only [List.forall_mem_cons]
      exact ⟨hlist, hdefault, hname "c", nofun⟩
    · rcases List.mem_pair.mp he with rfl | rfl
      · exact absurd hfield (by decide)
      · exact hquiet
  have hnames : patternNames (fieldOf d "id") =
      [.ok (.str "a"), .ok (.str "a"), .ok (.str "b"), .ok (.str "c")] := by
    have hone : ∀ text, patternNames (name text) = [.ok (.str text)] := fun _ => patternNames_identifier rfl
    have hgap : patternNames .null = [] := by rw [patternNames]
    have hitems : patternNames list = [.ok (.str "a"), .ok (.str "a")] := by
      rw [patternNames_array rfl rfl, List.flatMap_cons, List.flatMap_cons, List.flatMap_singleton, hone, hgap,
        patternNames_rest rfl]
      exact congrArg _ (hone "a")
    have hleft : patternNames default = [.ok (.str "b")] := (patternNames_assignment rfl).trans (hone "b")
    have hall : patternNames (fieldOf d "id") =
        patternNames list ++ (patternNames default ++ patternNames (name "c")) := by
      rw [patternNames_object rfl rfl (by decide), List.flatMap_cons, List.flatMap_cons,
        List.flatMap_singleton]
      rfl
    rw [hall, hitems, hleft, hone]
    rfl
  have hdeclared : declarations program = .ok [
      (.str "a", [⟨.str "a", .variable, d⟩, ⟨.str "a", .variable, d⟩]),
      (.str "b", [⟨.str "b", .variable, d⟩]), (.str "c", [⟨.str "c", .variable, d⟩])] := by
    have hbody : ∀ statement, programDeclarations (.obj [("type", .str "Program"),
        ("body", .arr [statement])]) = statementDeclarations statement := fun _ => List.flatMap_singleton _ _
    have hstatement : programDeclarations program = declaratorDeclarations d := by
      rw [hbody, statementDeclarations]
      exact List.flatMap_singleton _ _
    have hvariables : declaratorDeclarations d = (patternNames (fieldOf d "id")).map fun name =>
        name.map fun name => ⟨name, .variable, d⟩ := rfl
    rw [declarations, hstatement, hvariables, hnames]
    rfl
  have htwo : (patternNames (fieldOf d "id")).countP (isNameText "a") = 2 := by
    rw [hnames]
    rfl
  have hfive : (occurrences d (.str "a")).length = 5 := by decide +kernel
  obtain ⟨_, _, hcount, _, hprogram⟩ := pattern_bindings_agree d hd "a"
  refine ⟨hd, htwo, hcount ▸ htwo, hfive, _, ⟨.str "a", .variable, d⟩, hdeclared, List.mem_cons_self, rfl,
    rfl, ?_⟩
  exact (hprogram program _ _ rfl hdeclared List.mem_cons_self rfl rfl).1

end TreeLint.Usage

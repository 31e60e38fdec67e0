/-
  The search for occurrences, told by paths.

  A path down the tree is live when each node on it has a role, given the one before, and no node
  between its ends is the tag of an element.  The search yields one occurrence for each live path that
  ends in an identifier of the name, or in a tag that stands for a variable of that name, with the
  role that the path gives to its end; it yields nothing else.
-/
import Mathlib.Logic.Relation
import TreeLint.Proofs.Outcome
import TreeLint.Proofs.Path
import TreeLint.Proofs.Shape
import TreeLint.Usage.Occurrence

set_option autoImplicit false

namespace TreeLint.Usage

open TreeLint.Json TreeLint.Syntax

/-! ## Live paths -/

/-- The path leads from the root to the node, and gives it the role: the root is used, and the role of
each further node follows from the role of the node before.  Below a tag no path goes on. -/
inductive Live (root : Value) : Path → Value → Role → Prop
  /-- The path that stays at the root. -/
  | root : Live root [] root .reference
  /-- One more step, to a child that has a role. -/
  | step {path : Path} {parent : Value} {e : Edge} {above role : Role}
      (before : Live root path parent above)
      (inner : path = [] ∨ isKind parent "JSXIdentifier" = false)
      (child : e ∈ edges parent) (gives : childRole parent e above = some role) :
      Live root (e.step :: path) e.child role

/-- A path leads to one node and gives it one role. -/
theorem Live.unique {root : Value} {path : Path} {v w : Value} {r s : Role}
    (hv : Live root path v r) (hw : Live root path w s) : v = w ∧ r = s := by
  induction hv generalizing w s with
  | root =>
    cases hw
    exact ⟨rfl, rfl⟩
  | @step path parent e above role before inner child gives ih =>
    generalize hpath : e.step :: path = whole at hw
    cases hw with
    | root => cases hpath
    | @step path' parent' e' above' _ before' _ child' gives' =>
      obtain ⟨hstep, rfl⟩ := List.cons.inj hpath
      obtain ⟨rfl, rfl⟩ := ih before'
      obtain rfl := edge_eq_of_step_eq child child' hstep
      exact ⟨rfl, Option.some.inj (gives.symm.trans gives')⟩

/-- The occurrence stands at the end of a live path: it is an identifier of the name, with the role
that the path gives it, or a tag of the name that stands for a variable. -/
inductive Occurs (root : Value) (name : String) : Occurrence → Prop
  /-- An identifier. -/
  | identifier {path : Path} {parent : Value} {e : Edge} {above role : Role}
      (before : Live root path parent above)
      (inner : path = [] ∨ isKind parent "JSXIdentifier" = false)
      (child : e ∈ edges parent) (gives : childRole parent e above = some role)
      (kind : isKind e.child "Identifier" = true) (named : fieldOf e.child "name" = .str name) :
      Occurs root name ⟨role, e.step :: path, e.child⟩
  /-- A tag. -/
  | tag {path : Path} {parent : Value} {e : Edge} {above role : Role}
      (before : Live root path parent above)
      (inner : path = [] ∨ isKind parent "JSXIdentifier" = false)
      (child : e ∈ edges parent) (gives : childRole parent e above = some role)
      (kind : isKind e.child "JSXIdentifier" = true) (named : fieldOf e.child "name" = .str name)
      (stands : isTagReference parent e = .ok true) :
      Occurs root name ⟨.reference, e.step :: path, e.child⟩

/-! ## One place -/

/-- The children of a place that have a role, as a condition. -/
theorem mem_children_iff {place : Place} {e : Edge} {role : Role} :
    (e, role) ∈ place.children ↔
      e ∈ edges place.node ∧ childRole place.node e place.role = some role := by
  simp only [Place.children, List.mem_filterMap, Option.map_eq_some_iff, Prod.mk.injEq]
  constructor
  · rintro ⟨e', he', role', hrole, rfl, rfl⟩
    exact ⟨he', hrole⟩
  · rintro ⟨he, hrole⟩
    exact ⟨e, he, role, hrole, rfl, rfl⟩

/-- The places below which the search goes on, as a condition. -/
theorem mem_next_iff {place next : Place} :
    next ∈ place.next ↔ ∃ e role, (e, role) ∈ place.children ∧
      isKind e.child "JSXIdentifier" = false ∧ next = place.child e role := by
  simp only [Place.next, List.mem_filterMap]
  constructor
  · rintro ⟨⟨e, role⟩, hmem, heq⟩
    by_cases htag : isKind e.child "JSXIdentifier" = true
    · simp [htag] at heq
    · simp only [htag] at heq
      exact ⟨e, role, hmem, by simpa using htag, (Option.some.inj heq).symm⟩
  · rintro ⟨e, role, hmem, htag, rfl⟩
    exact ⟨(e, role), hmem, by simp [htag]⟩

/-- A value counts as equal to a text when it is that text. -/
theorem same_text_iff {v : Value} {text : String} : v.same (.str text) = true ↔ v = .str text := by
  cases v with
  | str s => simp
  | _ => simp [Value.same, Value.sameNumber, Value.number?]

/-- Whether a tag with a text for its name stands for a variable can always be said. -/
theorem exists_isTagReference {e : Edge} {name : String} (parent : Value)
    (hnode : isNode e.child = true) (hname : fieldOf e.child "name" = .str name) :
    ∃ b, isTagReference parent e = .ok b := by
  obtain ⟨fields, _, hfields, _⟩ := isNode_iff.mp hnode
  rw [hfields, fieldOf_obj] at hname
  unfold isTagReference
  dsimp only
  split
  · rw [hfields]
    simp only [isComponentName, lookup_of_get_eq hname (by simp)]
    exact ⟨_, rfl⟩
  · exact ⟨_, rfl⟩

/-- A child that is found is an identifier or a tag of the name.  Asking whether a tag of a text for
its name stands for a variable never ends the search. -/
theorem occurrence?_eq_some_iff {name : String} {place : Place} {e : Edge} {role : Role}
    {x : Except Fault Occurrence} (hnode : isNode e.child = true) :
    place.occurrence? (.str name) e role = some x ↔
      fieldOf e.child "name" = .str name ∧
        ((isKind e.child "Identifier" = true ∧ x = .ok ⟨role, e.step :: place.path, e.child⟩) ∨
          (isKind e.child "JSXIdentifier" = true ∧ isTagReference place.node e = .ok true ∧
            x = .ok ⟨.reference, e.step :: place.path, e.child⟩)) := by
  obtain ⟨step, child⟩ := e
  obtain ⟨fields, _, rfl, _⟩ := isNode_iff.mp hnode
  by_cases hname : Fields.get fields "name" = .str name
  · by_cases htag : isKind (.obj fields) "JSXIdentifier" = true
    · have hnot : ¬ isKind (.obj fields) "Identifier" = true := fun h =>
        absurd (isKind_unique htag h) (by decide)
      obtain ⟨b, hb⟩ := exists_isTagReference place.node hnode hname
      cases b <;>
        simp [Place.occurrence?, htag, hnot, hb, hname, eq_comm]
    · by_cases hid : isKind (.obj fields) "Identifier" = true
      · simp [Place.occurrence?, htag, hid, hname, eq_comm]
      · simp [Place.occurrence?, htag, hid]
  · have hspelled : (Fields.get fields "name").same (.str name) = false := by
      simpa using fun h => hname (same_text_iff.mp h)
    simp [Place.occurrence?, hspelled, hname]

/-- What is found at a place, as a condition. -/
theorem mem_found_iff {name : String} {place : Place} {x : Except Fault Occurrence} :
    x ∈ place.found (.str name) ↔ ∃ e role, (e, role) ∈ place.children ∧
      place.occurrence? (.str name) e role = some x := by
  simp only [Place.found, List.mem_filterMap, Prod.exists]

/-- Everything that is found at a place is an occurrence. -/
theorem exists_of_mem_found {name : String} {place : Place} {x : Except Fault Occurrence}
    (h : x ∈ place.found (.str name)) : ∃ o : Occurrence, x = .ok o ∧
      ∃ step, o.path = step :: place.path := by
  obtain ⟨e, role, hmem, hfound⟩ := mem_found_iff.mp h
  have hnode := isNode_of_mem_edges (mem_children_iff.mp hmem).1
  rcases (occurrence?_eq_some_iff hnode).mp hfound with ⟨_, ⟨_, rfl⟩ | ⟨_, _, rfl⟩⟩
  · exact ⟨_, rfl, e.step, rfl⟩
  · exact ⟨_, rfl, e.step, rfl⟩

/-! ## The whole search -/

/-- The search goes on from the first place to the second, in any number of steps. -/
def LeadsTo (start place : Place) : Prop :=
  Relation.ReflTransGen (fun above below => below ∈ above.next) start place

/-- The search finds what is found at the places that it goes on to. -/
theorem mem_search_iff {name : Value} {places : List Place} {x : Except Fault Occurrence} :
    x ∈ search name places ↔
      ∃ start ∈ places, ∃ place, LeadsTo start place ∧ x ∈ place.found name := by
  -- Along the recursion of the search: the first place is replaced by the places next to it.
  fun_induction search name places with
  | case1 => simp
  | case2 place rest ih =>
    rw [List.mem_append, ih]
    constructor
    · rintro (hfound | ⟨start, hstart, below, hleads, hfound⟩)
      · exact ⟨place, List.mem_cons_self, place, .refl, hfound⟩
      · rcases List.mem_append.mp hstart with hnext | hrest
        · exact ⟨place, List.mem_cons_self, below, .head hnext hleads, hfound⟩
        · exact ⟨start, List.mem_cons_of_mem _ hrest, below, hleads, hfound⟩
    · rintro ⟨start, hstart, below, hleads, hfound⟩
      rcases List.mem_cons.mp hstart with rfl | hrest
      · rcases hleads.cases_head with rfl | ⟨next, hnext, hleads⟩
        · exact .inl hfound
        · exact .inr ⟨next, List.mem_append_left _ hnext, below, hleads, hfound⟩
      · exact .inr ⟨start, List.mem_append_right _ hrest, below, hleads, hfound⟩

/-- From the root, the search goes on to the ends of live paths that are not tags. -/
theorem leadsTo_iff_live {root : Value} {place : Place} :
    LeadsTo ⟨[], root, .reference⟩ place ↔
      Live root place.path place.node place.role ∧
        (place.path = [] ∨ isKind place.node "JSXIdentifier" = false) := by
  constructor
  · intro h
    induction h with
    | refl => exact ⟨.root, .inl rfl⟩
    | @tail above below _ hnext ih =>
      obtain ⟨e, role, hmem, htag, rfl⟩ := mem_next_iff.mp hnext
      obtain ⟨hedge, hrole⟩ := mem_children_iff.mp hmem
      exact ⟨.step ih.1 ih.2 hedge hrole, .inr htag⟩
  · rintro ⟨hlive, htag⟩
    obtain ⟨path, node, role⟩ := place
    dsimp only at hlive htag
    induction hlive with
    | root => exact .refl
    | @step path parent e above role _ inner child gives ih =>
      refine (ih inner).tail (mem_next_iff.mpr ⟨e, role, ?_, htag.resolve_left (by simp), rfl⟩)
      exact mem_children_iff.mpr ⟨child, gives⟩

/-- What the search from the root finds is what occurs at the ends of live paths. -/
theorem mem_search_root_iff {root : Value} {name : String} {o : Occurrence} :
    .ok o ∈ search (.str name) [⟨[], root, .reference⟩] ↔ Occurs root name o := by
  rw [mem_search_iff]
  constructor
  · rintro ⟨start, hstart, place, hleads, hfound⟩
    obtain rfl := List.mem_singleton.mp hstart
    obtain ⟨hlive, hinner⟩ := leadsTo_iff_live.mp hleads
    obtain ⟨e, role, hmem, hocc⟩ := mem_found_iff.mp hfound
    obtain ⟨hedge, hrole⟩ := mem_children_iff.mp hmem
    rcases (occurrence?_eq_some_iff (isNode_of_mem_edges hedge)).mp hocc with
      ⟨hname, ⟨hkind, heq⟩ | ⟨hkind, hstands, heq⟩⟩
    · cases heq
      exact .identifier hlive hinner hedge hrole hkind hname
    · cases heq
      exact .tag hlive hinner hedge hrole hkind hname hstands
  · intro h
    refine ⟨_, List.mem_singleton_self _, ?_⟩
    cases h with
    | @identifier path parent e above role before inner child gives kind named =>
      refine ⟨⟨path, parent, above⟩, leadsTo_iff_live.mpr ⟨before, inner⟩, ?_⟩
      refine mem_found_iff.mpr ⟨e, role, mem_children_iff.mpr ⟨child, gives⟩, ?_⟩
      exact (occurrence?_eq_some_iff (isNode_of_mem_edges child)).mpr ⟨named, .inl ⟨kind, rfl⟩⟩
    | @tag path parent e above role before inner child gives kind named stands =>
      refine ⟨⟨path, parent, above⟩, leadsTo_iff_live.mpr ⟨before, inner⟩, ?_⟩
      refine mem_found_iff.mpr ⟨e, role, mem_children_iff.mpr ⟨child, gives⟩, ?_⟩
      exact (occurrence?_eq_some_iff (isNode_of_mem_edges child)).mpr
        ⟨named, .inr ⟨kind, stands, rfl⟩⟩

/-! ## Nothing is found twice -/

/-- The way to what was found. -/
def wayTo : Except Fault Occurrence → Path
  | .ok o => o.path
  | .error _ => []

/-- The steps to the children that have a role are all different. -/
theorem nodup_children_steps (place : Place) :
    (place.children.map fun child => child.1.step).Nodup := by
  refine (nodup_edges_steps place.node).sublist (map_filterMap_sublist ?_)
  intro e child hchild
  obtain ⟨role, _, rfl⟩ := Option.map_eq_some_iff.mp hchild
  rfl

/-- Only nodes are found. -/
theorem isNode_of_occurrence? {name : Value} {place : Place} {e : Edge} {role : Role}
    {x : Except Fault Occurrence} (h : place.occurrence? name e role = some x) :
    isNode e.child = true := by
  unfold Place.occurrence? at h
  split at h
  · by_cases htag : isKind e.child "JSXIdentifier" = true
    · exact isNode_of_isKind htag
    · by_cases hid : isKind e.child "Identifier" = true
      · exact isNode_of_isKind hid
      · simp [htag, hid] at h
  · cases h

/-- The way to a child that is found goes one step further than the way to its parent. -/
theorem wayTo_occurrence? {name : String} {place : Place} {e : Edge} {role : Role}
    {x : Except Fault Occurrence} (h : place.occurrence? (.str name) e role = some x) :
    wayTo x = e.step :: place.path := by
  rcases (occurrence?_eq_some_iff (isNode_of_occurrence? h)).mp h with
    ⟨_, ⟨_, rfl⟩ | ⟨_, _, rfl⟩⟩
  · rfl
  · rfl

/-- At one place nothing is found twice. -/
theorem nodup_found (name : String) (place : Place) :
    ((place.found (.str name)).map wayTo).Nodup := by
  have hways : (place.children.map fun child => child.1.step :: place.path).Nodup := by
    have := (nodup_children_steps place).map (f := fun step => step :: place.path)
      fun s t hst => (List.cons.inj hst).1
    rwa [List.map_map] at this
  exact hways.sublist (map_filterMap_sublist fun _ _ hfound => wayTo_occurrence? hfound)

/-- The places next to one part from each other. -/
theorem pairwise_part_next (place : Place) :
    place.next.Pairwise fun a b => Part a.path b.path := by
  have hsteps := List.pairwise_map.mp (nodup_children_steps place)
  refine hsteps.filterMap _ fun (e, role) (e', role') hne next hnext next' hnext' => ?_
  dsimp only at hnext hnext'
  split at hnext
  · cases hnext
  split at hnext'
  · cases hnext'
  cases hnext
  cases hnext'
  exact part_of_step_ne place.path hne

/-- Where the search goes on to lies below where it started. -/
theorem LeadsTo.suffix {start place : Place} (h : LeadsTo start place) :
    start.path <:+ place.path := by
  induction h with
  | refl => exact List.suffix_refl _
  | tail _ hnext ih =>
    obtain ⟨e, role, _, _, rfl⟩ := mem_next_iff.mp hnext
    exact ih.trans (List.suffix_cons _ _)

/-- What the search finds lies properly below one of the places where it starts. -/
theorem wayTo_of_mem_search {name : String} {places : List Place} {x : Except Fault Occurrence}
    (h : x ∈ search (.str name) places) :
    ∃ start ∈ places, start.path <:+ wayTo x ∧ start.path.length < (wayTo x).length := by
  obtain ⟨start, hstart, place, hleads, hfound⟩ := mem_search_iff.mp h
  obtain ⟨o, rfl, step, hpath⟩ := exists_of_mem_found hfound
  have hway : wayTo (.ok o) = step :: place.path := hpath
  refine ⟨start, hstart, ?_, ?_⟩
  · rw [hway]
    exact hleads.suffix.trans (List.suffix_cons _ _)
  · rw [hway, List.length_cons]
    exact Nat.lt_succ_of_le hleads.suffix.length_le

/-- From places that part, the search finds nothing twice. -/
theorem nodup_search (name : String) (places : List Place)
    (hpart : places.Pairwise fun a b => Part a.path b.path) :
    ((search (.str name) places).map wayTo).Nodup := by
  -- The invariant of the recursion is that the places part: those next to the first part from each
  -- other, and from the rest since they lie below the first.
  fun_induction search (.str name) places with
  | case1 => exact List.nodup_nil
  | case2 place rest ih =>
    obtain ⟨hfirst, hrest⟩ := List.pairwise_cons.mp hpart
    have hnext : (place.next ++ rest).Pairwise fun a b => Part a.path b.path := by
      refine List.pairwise_append.mpr ⟨pairwise_part_next place, hrest, ?_⟩
      intro next hmem other hother
      obtain ⟨e, role, _, _, rfl⟩ := mem_next_iff.mp hmem
      exact (hfirst other hother).step e.step
    rw [List.map_append, List.nodup_append']
    refine ⟨nodup_found name place, ih hnext, ?_⟩
    intro way hhere hlater
    obtain ⟨x, hx, rfl⟩ := List.mem_map.mp hhere
    obtain ⟨y, hy, hway⟩ := List.mem_map.mp hlater
    obtain ⟨o, rfl, step, hstep⟩ := exists_of_mem_found hx
    have hhere : wayTo (.ok o) = step :: place.path := hstep
    obtain ⟨start, hstart, hbelow, hlength⟩ := wayTo_of_mem_search hy
    rcases List.mem_append.mp hstart with hmem | hmem
    · -- Below a next place everything is at least two steps away.
      obtain ⟨e, role, _, _, rfl⟩ := mem_next_iff.mp hmem
      rw [hway, hhere] at hlength
      exact absurd hlength (by simp [Place.child])
    · refine (hfirst start hmem).ne ?_ hbelow hway.symm
      rw [hhere]
      exact List.suffix_cons _ _

/-! ## The occurrences of a name -/

/-- A node can be asked for its children, so that the search from it starts. -/
theorem occurrences_eq_search {root : Value} (name : Value) (hroot : isNode root = true) :
    occurrences root name = search name [⟨[], root, .reference⟩] := by
  obtain ⟨fields, kind, rfl, hkind⟩ := isNode_iff.mp hroot
  have hedges : checkedEdges (.obj fields) = .ok (edges (.obj fields)) := by
    simp [checkedEdges, Value.get, hkind, Value.key, Value.isKey]
  simp only [occurrences, hedges]

/-- Searching for a text below a node never ends early. -/
theorem exists_occurrences {root : Value} (name : String) (hroot : isNode root = true) :
    ∃ found : List Occurrence, occurrences root (.str name) = found.map .ok ∧
      ∀ o, o ∈ found ↔ Occurs root name o := by
  rw [occurrences_eq_search _ hroot]
  have hall : ∀ x ∈ search (.str name) [⟨[], root, .reference⟩], ∃ o, x = .ok o ∧ True := by
    intro x hx
    obtain ⟨_, _, place, _, hplace⟩ := mem_search_iff.mp hx
    obtain ⟨o, rfl, _⟩ := exists_of_mem_found hplace
    exact ⟨o, rfl, trivial⟩
  obtain ⟨found, hfound, _⟩ := exists_eq_map_ok hall
  refine ⟨found, hfound, fun o => ?_⟩
  rw [← mem_search_root_iff, hfound, List.mem_map]
  constructor
  · intro ho
    exact ⟨o, ho, rfl⟩
  · rintro ⟨o', ho', heq⟩
    exact Except.ok.inj heq ▸ ho'

/-- Below a node, the occurrences of a name are found once for each live path that ends in an
identifier of the name or in a tag that stands for a variable of the name, with the node at the end of
the path and the role that the path gives to it, and nothing else is found. -/
theorem occurrences_eq_live_paths (root : Value) (name : String) (hroot : isNode root = true) :
    (∃ found : List Occurrence, occurrences root (.str name) = found.map .ok ∧
      (found.map Occurrence.path).Nodup ∧ ∀ o, o ∈ found ↔ Occurs root name o) ∧
    ∀ path v w r s, Live root path v r → Live root path w s → v = w ∧ r = s := by
  refine ⟨?_, fun _ _ _ _ _ hv hw => hv.unique hw⟩
  obtain ⟨found, hfound, hoccurs⟩ := exists_occurrences name hroot
  refine ⟨found, hfound, ?_, hoccurs⟩
  have hnodup := nodup_search name [⟨[], root, .reference⟩] (List.pairwise_singleton _ _)
  rw [← occurrences_eq_search _ hroot, hfound, List.map_map] at hnodup
  exact hnodup

/-- The call `f(f)`: two identifiers of one name, told apart by their places. -/
theorem occurrences_eq_live_paths_call :
    let f : Value := .obj [("type", .str "Identifier"), ("name", .str "f")]
    let call : Value :=
      .obj [("type", .str "CallExpression"), ("callee", f), ("arguments", .arr [f])]
    isNode call = true ∧
      (∃ found : List Occurrence, occurrences call (.str "f") = found.map .ok ∧
        (found.map Occurrence.path).Nodup ∧ ∀ o, o ∈ found ↔ Occurs call "f" o) ∧
      Occurs call "f" ⟨.reference, [⟨"callee", none⟩], f⟩ ∧
      Occurs call "f" ⟨.reference, [⟨"arguments", some 0⟩], f⟩ := by
  intro f call
  have hcall : isNode call = true := by decide
  refine ⟨hcall, (occurrences_eq_live_paths call "f" hcall).1, ?_, ?_⟩
  · exact .identifier (e := ⟨⟨"callee", none⟩, f⟩) .root (.inl rfl) (.head _) (by decide +kernel)
      (by decide) rfl
  · exact .identifier (e := ⟨⟨"arguments", some 0⟩, f⟩) .root (.inl rfl) (.tail _ (.head _))
      (by decide +kernel) (by decide) rfl

end TreeLint.Usage

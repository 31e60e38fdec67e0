/-
  Fields for types.

  Two programs differ in nothing but types when one turns into the other by adding, removing and
  replacing the fields of nodes that hold nothing but types.  Such an edit changes neither where the
  names of a program occur nor what the rule about exports reports, as long as it brings in no program
  of its own.
-/
import Mathlib.Logic.Relation
import TreeLint.Proofs.Independence
import TreeLint.Proofs.Likeness.Verdicts
import TreeLint.Proofs.Objects
import TreeLint.Proofs.Path
import TreeLint.Proofs.Tree

set_option autoImplicit false

namespace TreeLint.Syntax

open TreeLint.Json TreeLint.Usage TreeLint.Source

/-! ## Edits -/

/-- The fields that say where a node comes from. -/
def positionFields : List String :=
  ["start", "end", "range", "loc"]

/-- A field with this value adds no program to the tree. -/
def AddsNoProgram (key : String) (value : Value) : Prop :=
  ∀ e ∈ fieldEdges key value, ∀ visit ∈ preorder [] e.child, isKind visit.node "Program" = false

instance (key : String) (value : Value) : Decidable (AddsNoProgram key value) :=
  inferInstanceAs (Decidable (∀ e ∈ fieldEdges key value, ∀ visit ∈ preorder [] e.child,
    isKind visit.node "Program" = false))

/-- The second value is the first with one more field for types, in one of its nodes.  The node may be
the value itself, or stand further down, in a field or in an item of a list.  Positions are left alone,
unless they hold children. -/
inductive AddsType : Value → Value → Prop
  /-- The field is one of the node's own. -/
  | here {before after : Fields} {key : String} {value : Value}
      (node : isNode (.obj (before ++ after)) = true) (typed : key ∈ typeFields)
      (absent : (before ++ after).lookup key = none) (plain : AddsNoProgram key value) :
      AddsType (.obj (before ++ after)) (.obj (before ++ (key, value) :: after))
  /-- The node stands in a field. -/
  | inField {fields : Fields} {key : String} {v w : Value} (holds : fields.lookup key = some v)
      (free : key ∈ positionFields → key ∈ childFields fields) (edit : AddsType v w) :
      AddsType (.obj fields) (.obj (Fields.put fields key w))
  /-- The node is, or stands in, an item of a list. -/
  | inList {before after : List Value} {v w : Value} (object : v.isObject = true) (edit : AddsType v w) :
      AddsType (.arr (before ++ v :: after)) (.arr (before ++ w :: after))

/-- The values differ in nothing but fields for types: each turns into the other by adding and
removing such fields. -/
def SameButTypes : Value → Value → Prop :=
  Relation.EqvGen AddsType

/-- The values are the same, or one edit apart. -/
def Edited : Value → Value → Prop :=
  Relation.ReflGen AddsType

/-! ## Fields of edited objects -/

theorem lookup_insert {before after : Fields} {key other : String} (value : Value)
    (h : other ≠ key) :
    (before ++ (key, value) :: after).lookup other = (before ++ after).lookup other := by
  induction before with
  | nil => rw [List.nil_append, List.nil_append, List.lookup_cons, beq_false_of_ne h]
  | cons field rest ih =>
    obtain ⟨k, v⟩ := field
    rw [List.cons_append, List.cons_append, List.lookup_cons, List.lookup_cons, ih]

theorem lookup_insert_self {before after : Fields} {key : String} (value : Value)
    (h : (before ++ after).lookup key = none) :
    (before ++ (key, value) :: after).lookup key = some value := by
  induction before with
  | nil => rw [List.nil_append, List.lookup_cons, beq_self_eq_true]
  | cons field rest ih =>
    obtain ⟨k, v⟩ := field
    rw [List.cons_append, List.lookup_cons] at h ⊢
    cases hk : key == k with
    | true =>
      rw [hk] at h
      cases h
    | false =>
      rw [hk] at h
      exact ih h

theorem edited_rel_refl (o : Option Value) : Option.Rel Edited o o := by
  cases o with
  | none => exact .none
  | some v => exact .some .refl

/-- A field of an edited object is as before or edited, one for types apart. -/
theorem Edited.lookup {fs gs : Fields} (h : Edited (.obj fs) (.obj gs)) {key : String}
    (hkey : key ∉ typeFields) : Option.Rel Edited (fs.lookup key) (gs.lookup key) := by
  cases h with
  | refl => exact edited_rel_refl _
  | single h =>
    cases h with
    | here node typed absent plain =>
      have hne : key ≠ _ := fun heq => hkey (heq ▸ typed)
      rw [lookup_insert _ hne]
      exact edited_rel_refl _
    | @inField _ k v w holds free edit =>
      by_cases heq : key = k
      · subst heq
        rw [holds, Fields.lookup_put_self]
        exact .some (.single edit)
      · rw [Fields.lookup_put_of_ne _ _ heq]
        exact edited_rel_refl _

theorem Edited.get {fs gs : Fields} (h : Edited (.obj fs) (.obj gs)) (key : String)
    (hkey : key ∉ typeFields) : Edited (Fields.get fs key) (Fields.get gs key) := by
  exact rel_getD (h.lookup hkey) .refl

/-- An edit keeps the form of a value. -/
theorem Edited.form {v w : Value} (h : Edited v w) : SameForm Edited v w := by
  have hrefl : ∀ row : List Value, List.Forall₂ Edited row row :=
    fun row => List.forall₂_same.mpr fun _ _ => .refl
  cases h with
  | refl =>
    cases v with
    | arr items => exact .arr (hrefl items)
    | obj fields => exact .obj Iff.rfl
    | _ => exact .plain rfl
  | single h =>
    cases h with
    | @here before after key value node =>
      refine .obj ⟨fun hempty => ?_, fun hempty => by simp at hempty⟩
      rw [hempty] at node
      cases node
    | @inField fields key v w holds =>
      have hnames := Fields.map_fst_put holds w
      refine .obj ⟨fun hempty => ?_, fun hempty => ?_⟩
      · rw [hempty] at holds
        cases holds
      · rw [hempty, List.map_nil, eq_comm, List.map_eq_nil_iff] at hnames
        exact hnames
    | inList _ edit => exact .arr (List.rel_append (hrefl _) (.cons (.single edit) (hrefl _)))

/-- An edit keeps the kind of a node. -/
theorem Edited.kind?_eq {v w : Value} (h : Edited v w) : kind? v = kind? w := by
  cases h.form with
  | plain => rfl
  | arr => rfl
  | obj => exact (h.get "type" (by decide)).form.text?_eq

theorem Edited.isKind_eq {v w : Value} (h : Edited v w) (kind : String) :
    isKind v kind = isKind w kind :=
  isKind_congr h.kind?_eq kind

theorem Edited.isNode_eq {v w : Value} (h : Edited v w) : isNode v = isNode w := by
  rw [isNode, isNode, h.kind?_eq]

/-! ## Children of edited nodes -/

theorem forall₂_zipIdx {R : Value → Value → Prop} {xs ys : List Value} (h : List.Forall₂ R xs ys)
    (n : Nat) : List.Forall₂ (fun a b => R a.1 b.1 ∧ a.2 = b.2) (xs.zipIdx n) (ys.zipIdx n) := by
  induction h generalizing n with
  | nil => exact .nil
  | cons hhere _ ih =>
    rw [List.zipIdx_cons, List.zipIdx_cons]
    exact .cons ⟨hhere, rfl⟩ (ih (n + 1))

theorem filter_distinct (p : String → Bool) (names : List String) :
    (distinct names).filter p = distinct (names.filter p) := by
  induction names with
  | nil => rfl
  | cons name rest ih =>
    by_cases hp : p name = true
    · rw [distinct, List.filter_cons, if_pos hp, List.filter_cons, if_pos hp, distinct, ← ih,
        List.filter_filter, List.filter_filter]
      simp only [Bool.and_comm]
    · rw [distinct, List.filter_cons, if_neg hp, List.filter_cons, if_neg hp, ← ih,
        List.filter_filter]
      refine List.filter_congr fun other _ => ?_
      by_cases heq : other = name
      · subst heq
        simp [hp]
      · simp [heq]

/-- One more field adds at most its own name to those that are searched for children. -/
theorem filter_childFields_insert {before after : Fields} {key : String} (value : Value)
    (hkey : key ≠ "type") :
    (childFields (before ++ (key, value) :: after)).filter (· ≠ key) =
      (childFields (before ++ after)).filter (· ≠ key) := by
  have htype : Fields.get (before ++ (key, value) :: after) "type" =
      Fields.get (before ++ after) "type" := by
    rw [Fields.get, Fields.get, lookup_insert value hkey.symm]
  unfold childFields
  rw [htype]
  split
  · rfl
  · rw [filter_distinct, filter_distinct]
    simp

/-- Setting a field that is there keeps the fields that are searched for children. -/
theorem childFields_put {fields : Fields} {key : String} {v w : Value}
    (holds : fields.lookup key = some v) (edit : Edited v w) :
    childFields (Fields.put fields key w) = childFields fields := by
  have htype : (Fields.get (Fields.put fields key w) "type").text? =
      (Fields.get fields "type").text? := by
    by_cases heq : "type" = key
    · subst heq
      rw [Fields.get_put_self, Fields.get, holds]
      exact edit.form.text?_eq.symm
    · rw [Fields.get_put_of_ne _ _ heq]
  unfold childFields
  rw [htype, Fields.map_fst_put holds]

/-- An edit keeps the fields that are searched for children, fields for types apart. -/
theorem Edited.childFields_eq {fs gs : Fields} (h : Edited (.obj fs) (.obj gs)) :
    (childFields fs).filter (!typeFields.contains ·) =
      (childFields gs).filter (!typeFields.contains ·) := by
  cases h with
  | refl => rfl
  | single h =>
    cases h with
    | @here before after key value node typed =>
      have hrest : ∀ names : List String, names.filter (!typeFields.contains ·) =
          (names.filter (· ≠ key)).filter (!typeFields.contains ·) := by
        intro names
        rw [List.filter_filter]
        refine List.filter_congr fun name _ => ?_
        by_cases heq : name = key
        · subst heq
          simp [typed]
        · simp [heq]
      have hkey : key ≠ "type" := by
        rintro rfl
        exact absurd typed (by decide)
      rw [hrest, hrest (childFields (before ++ (key, value) :: after)),
        filter_childFields_insert value hkey]
    | inField holds free edit => rw [childFields_put holds (.single edit)]

/-- An edited field holds edited children. -/
theorem Edited.fieldEdges {v w : Value} (h : Edited v w) (name : String) :
    List.Forall₂ (fun e d => e.step = d.step ∧ Edited e.child d.child) (fieldEdges name v)
      (fieldEdges name w) := by
  have hnode := h.isNode_eq
  cases hform : h.form with
  | plain => exact List.forall₂_same.mpr fun e _ => ⟨rfl, .refl⟩
  | arr items =>
    refine List.rel_filterMap ?_ (forall₂_zipIdx items 0)
    rintro ⟨a, i⟩ ⟨b, _⟩ ⟨hab, heq⟩
    obtain rfl : i = _ := heq
    dsimp only
    rw [hab.isNode_eq]
    split
    · exact .some ⟨rfl, hab⟩
    · exact .none
  | obj =>
    simp only [Syntax.fieldEdges, hnode]
    split
    · exact .cons ⟨rfl, h⟩ .nil
    · exact .nil

theorem untypedEdges_obj (fields : Fields) :
    untypedEdges (.obj fields) = ((childFields fields).filter (!typeFields.contains ·)).flatMap
      fun name => Syntax.fieldEdges name (Fields.get fields name) := by
  rw [untypedEdges, edges, List.filter_flatMap]
  induction childFields fields with
  | nil => rfl
  | cons name rest ih =>
    rw [List.flatMap_cons, ih, List.filter_cons]
    by_cases htyped : name ∈ typeFields
    · have hnone : (Syntax.fieldEdges name (Fields.get fields name)).filter
          (fun e => !typeFields.contains e.step.field) = [] := by
        rw [List.filter_eq_nil_iff]
        intro e he
        rw [field_of_mem_fieldEdges he]
        simp [htyped]
      rw [hnone, List.nil_append]
      simp [htyped]
    · have hall : (Syntax.fieldEdges name (Fields.get fields name)).filter
          (fun e => !typeFields.contains e.step.field) =
            Syntax.fieldEdges name (Fields.get fields name) := by
        rw [List.filter_eq_self]
        intro e he
        rw [field_of_mem_fieldEdges he]
        simp [htyped]
      rw [hall]
      simp [htyped]

/-! ## Positions of edited nodes -/

/-- The positions of a node stay where they hold no children. -/
theorem Edited.lookup_position {fs gs : Fields} (h : Edited (.obj fs) (.obj gs))
    (hchild : ∀ key ∈ positionFields, key ∉ childFields fs) {key : String}
    (hkey : key ∈ positionFields) : fs.lookup key = gs.lookup key := by
  have hdisjoint : ∀ key ∈ positionFields, key ∉ typeFields := by decide
  cases h with
  | refl => rfl
  | single h =>
    cases h with
    | here node typed =>
      have hne : key ≠ _ := fun heq => hdisjoint key hkey (heq ▸ typed)
      rw [lookup_insert _ hne]
    | @inField _ k v w holds free edit =>
      have hne : key ≠ k := by
        rintro rfl
        exact hchild key hkey (free hkey)
      rw [Fields.lookup_put_of_ne _ _ hne]

theorem LikeEnds.refl (v : Value) : LikeEnds v v := .inl rfl

/-- The items of an edited list are as before, or objects. -/
theorem Edited.likeEnds {xs ys : List Value} (h : Edited (.arr xs) (.arr ys)) :
    List.Forall₂ LikeEnds xs ys := by
  have hrefl : ∀ row : List Value, List.Forall₂ LikeEnds row row :=
    fun row => List.forall₂_same.mpr fun v _ => .refl v
  cases h with
  | refl => exact hrefl xs
  | single h =>
    cases h with
    | @inList _ _ v w object edit =>
      have hobject : v.isObject = w.isObject := by
        cases (Edited.form (.single edit) : SameForm Edited v w) <;> rfl
      exact List.rel_append (hrefl _) (.cons (.inr ⟨object, hobject ▸ object⟩) (hrefl _))

/-- An edit keeps the spans of nodes, up to ends that are objects. -/
theorem Edited.spanOf {fs gs : Fields} (h : Edited (.obj fs) (.obj gs)) :
    Option.Rel LikeSpans (spanOf fs) (spanOf gs) := by
  have hstart := h.get "start" (by decide)
  have hstop := h.get "end" (by decide)
  have hrange := h.get "range" (by decide)
  have hwhole : ∀ {a b : Value}, Edited a b → b.whole?.isSome = true → LikeEnds a b := by
    intro a b hab hb
    cases hab.form with
    | plain => exact .refl a
    | arr => cases hb
    | obj => cases hb
  unfold Syntax.spanOf
  dsimp only
  rw [hstart.form.whole?_eq, hstop.form.whole?_eq]
  split
  · next hends =>
    obtain ⟨hs, ht⟩ := Bool.and_eq_true_iff.mp hends
    exact .some ⟨hwhole hstart hs, hwhole hstop ht⟩
  · generalize Fields.get fs "range" = a at hrange ⊢
    generalize Fields.get gs "range" = b at hrange ⊢
    cases hrange.form with
    | @plain a hplain =>
      cases a with
      | arr => cases hplain
      | _ => exact .none
    | obj => exact .none
    | arr =>
      match hrange.likeEnds with
      | .nil => exact .none
      | .cons _ .nil => exact .none
      | .cons hfirst (.cons hlast .nil) => exact .some ⟨hfirst, hlast⟩
      | .cons _ (.cons _ (.cons _ _)) => exact .none

/-- An edit keeps names. -/
theorem Edited.likeName {a b : Option Value} (h : Option.Rel Edited a b) :
    Option.Rel (LikeName .identity Edited) a b := by
  cases h with
  | none => exact .none
  | @some v w related =>
    refine .some ?_
    have hform := related.form
    cases hform with
    | @plain v hplain =>
      cases v with
      | str s => exact .text s
      | _ => exact .other (.plain hplain) rfl
    | arr items => exact .other (.arr items) rfl
    | obj empty => exact .other (.obj empty) rfl

/-- Export statements hold no children in their positions. -/
theorem ExportStatement.position_not_mem {fields : Fields} (h : ExportStatement (.obj fields)) :
    ∀ key ∈ positionFields, key ∉ childFields fields := by
  rcases h with h | h | h
  · rw [childFields_of_kind (isKind_obj_iff.mp h) rfl]
    decide
  · rw [childFields_of_kind (isKind_obj_iff.mp h) rfl]
    decide
  · rw [childFields_of_kind (isKind_obj_iff.mp h) rfl]
    decide

/-- An edit of fields for types leaves a program that looks the same. -/
theorem likeness_edited : Likeness .identity Edited where
  form h := h.form
  field h key typed _ := h.get key typed
  named h _ := Edited.likeName (h.lookup (by decide))
  declared h _ left right := by
    have hid := h.get "id" (by decide)
    rw [left, right] at hid
    exact Edited.likeName (hid.lookup (by decide))
  place {v w} h kind := by
    cases h.form with
    | plain => exact ⟨rfl, rfl⟩
    | arr => exact (by simp [ExportStatement, isKind] at kind)
    | @obj fs gs =>
      have hposition : ∀ key ∈ positionFields, Fields.get fs key = Fields.get gs key := by
        intro key hkey
        rw [Fields.get, Fields.get, h.lookup_position kind.position_not_mem hkey]
      constructor
      · simp only [ownLocation?, Value.get, hposition "loc" (by decide)]
      · simp only [span, Syntax.spanOf, hposition "start" (by decide), hposition "end" (by decide),
          hposition "range" (by decide)]
  use h _ := h.spanOf
  edges {v w} h := by
    cases h.form with
    | plain => exact List.forall₂_same.mpr fun e _ => ⟨rfl, .refl⟩
    | arr => exact .nil
    | obj =>
      rw [untypedEdges_obj, untypedEdges_obj, ← h.childFields_eq]
      refine forall₂_flatMap (List.forall₂_same.mpr fun _ _ => rfl) ?_
      rintro name hname _ rfl
      obtain ⟨_, huntyped⟩ := List.mem_filter.mp hname
      exact (h.get name (by simpa using huntyped)).fieldEdges name

/-! ## Programs in a tree -/

/-- The programs in a tree, in order. -/
def programs (v : Value) : List Value :=
  ((preorder [] v).map Visit.node).filter (isKind · "Program")

theorem programs_eq (v : Value) :
    programs v = (if isKind v "Program" then [v] else []) ++
      (edges v).flatMap fun e => programs e.child := by
  have hbelow : ((edges v).flatMap fun e => (preorder [e.step] e.child).map Visit.node).filter
      (isKind · "Program") = (edges v).flatMap fun e => programs e.child := by
    rw [List.filter_flatMap]
    exact List.flatMap_congr fun e _ => by rw [map_node_preorder _ [], programs]
  rw [programs, preorder_eq, List.map_cons, List.map_flatMap, List.filter_cons, hbelow]
  split <;> rfl

/-- The programs in the trees that a field with this value holds. -/
def programsIn : Value → List Value
  | .arr items => items.flatMap fun item => if isNode item then programs item else []
  | v => if isNode v then programs v else []

theorem flatMap_fieldEdges_programs (name : String) (v : Value) :
    ((fieldEdges name v).flatMap fun e => programs e.child) = programsIn v := by
  cases v with
  | arr items =>
    have hitems : ∀ n, (((items.zipIdx n).filterMap fun entry =>
        if isNode entry.1 then some (⟨⟨name, some entry.2⟩, entry.1⟩ : Edge) else none).flatMap
          fun e => programs e.child) =
        items.flatMap fun item => if isNode item then programs item else [] := by
      induction items with
      | nil => exact fun _ => rfl
      | cons item rest ih =>
        intro n
        rw [List.zipIdx_cons, List.filterMap_cons, List.flatMap_cons, ← ih (n + 1)]
        by_cases hnode : isNode item = true
        · simp [hnode]
        · simp [hnode]
    exact hitems 0
  | obj fields =>
    simp only [fieldEdges, programsIn]
    split <;> simp
  | _ => rfl

theorem programs_obj (fields : Fields) :
    programs (.obj fields) = (if isKind (.obj fields) "Program" then [.obj fields] else []) ++
      (childFields fields).flatMap fun name => programsIn (Fields.get fields name) := by
  rw [programs_eq, edges, List.flatMap_assoc]
  simp only [flatMap_fieldEdges_programs]

theorem programsIn_eq_nil {key : String} {value : Value} (h : AddsNoProgram key value) :
    programsIn value = [] := by
  rw [← flatMap_fieldEdges_programs key, List.flatMap_eq_nil_iff]
  intro e he
  rw [programs, List.filter_eq_nil_iff]
  intro node hnode
  obtain ⟨visit, hvisit, rfl⟩ := List.mem_map.mp hnode
  rw [h e he visit hvisit]
  exact Bool.false_ne_true

theorem Edited.forall₂_refl (row : List Value) : List.Forall₂ Edited row row :=
  List.forall₂_same.mpr fun _ _ => .refl

/-- What comes before the programs below a node: the node itself, if it is one. -/
theorem Edited.self {v w : Value} (h : Edited v w) :
    List.Forall₂ Edited (if isKind v "Program" then [v] else [])
      (if isKind w "Program" then [w] else []) := by
  rw [h.isKind_eq]
  split
  · exact .cons h .nil
  · exact .nil

/-- Names that give nothing may be left out. -/
theorem flatMap_filter_ne {f : String → List Value} {key : String} (h : f key = [])
    (names : List String) : (names.filter (· ≠ key)).flatMap f = names.flatMap f := by
  induction names with
  | nil => rfl
  | cons name rest ih =>
    by_cases heq : name = key
    · subst heq
      simpa [h] using ih
    · simpa [heq] using ih

/-- A new field for types that holds no program leaves the programs below a node as they are. -/
theorem programs_below_insert {before after : Fields} {key : String} {value : Value}
    (typed : key ∈ typeFields) (absent : (before ++ after).lookup key = none)
    (plain : AddsNoProgram key value) :
    ((childFields (before ++ (key, value) :: after)).flatMap fun name =>
        programsIn (Fields.get (before ++ (key, value) :: after) name)) =
      (childFields (before ++ after)).flatMap fun name =>
        programsIn (Fields.get (before ++ after) name) := by
  have hkey : key ≠ "type" := by
    rintro rfl
    exact absurd typed (by decide)
  have hnew : programsIn (Fields.get (before ++ (key, value) :: after) key) = [] := by
    rw [Fields.get, lookup_insert_self value absent]
    exact programsIn_eq_nil plain
  have hold : programsIn (Fields.get (before ++ after) key) = [] := by
    rw [Fields.get, absent]
    rfl
  have hsame : ∀ name ∈ (childFields (before ++ after)).filter (· ≠ key),
      programsIn (Fields.get (before ++ (key, value) :: after) name) =
        programsIn (Fields.get (before ++ after) name) := by
    intro name hname
    obtain ⟨_, hne⟩ := List.mem_filter.mp hname
    rw [Fields.get, Fields.get, lookup_insert value (by simpa using hne)]
  calc
    _ = ((childFields (before ++ (key, value) :: after)).filter (· ≠ key)).flatMap fun name =>
        programsIn (Fields.get (before ++ (key, value) :: after) name) :=
      (flatMap_filter_ne hnew _).symm
    _ = ((childFields (before ++ after)).filter (· ≠ key)).flatMap fun name =>
        programsIn (Fields.get (before ++ after) name) := by
      rw [filter_childFields_insert value hkey]
      exact List.flatMap_congr hsame
    _ = _ := flatMap_filter_ne hold _

/-- An edit brings in no programs and takes none away. -/
theorem AddsType.programs {v w : Value} (h : AddsType v w) :
    List.Forall₂ Edited (programs v) (programs w) ∧
      List.Forall₂ Edited (programsIn v) (programsIn w) := by
  have hobj : ∀ {fs gs : Fields}, Edited (.obj fs) (.obj gs) →
      List.Forall₂ Edited (Syntax.programs (.obj fs)) (Syntax.programs (.obj gs)) →
      List.Forall₂ Edited (programsIn (.obj fs)) (programsIn (.obj gs)) := by
    intro fs gs hedited hprograms
    simp only [programsIn, hedited.isNode_eq]
    split
    · exact hprograms
    · exact .nil
  induction h with
  | @here before after key value node typed absent plain =>
    have hedited : Edited (.obj (before ++ after)) (.obj (before ++ (key, value) :: after)) :=
      .single (.here node typed absent plain)
    have hprograms : List.Forall₂ Edited (Syntax.programs (.obj (before ++ after)))
        (Syntax.programs (.obj (before ++ (key, value) :: after))) := by
      rw [programs_obj, programs_obj, programs_below_insert typed absent plain]
      exact List.rel_append hedited.self (Edited.forall₂_refl _)
    exact ⟨hprograms, hobj hedited hprograms⟩
  | @inField fields key v w holds free edit ih =>
    have hedited : Edited (.obj fields) (.obj (Fields.put fields key w)) :=
      .single (.inField holds free edit)
    have hprograms : List.Forall₂ Edited (Syntax.programs (.obj fields))
        (Syntax.programs (.obj (Fields.put fields key w))) := by
      rw [programs_obj, programs_obj, childFields_put holds (.single edit)]
      refine List.rel_append hedited.self ?_
      refine forall₂_flatMap (List.forall₂_same.mpr fun _ _ => rfl) ?_
      rintro name _ _ rfl
      by_cases heq : name = key
      · subst heq
        rw [Fields.get_put_self, Fields.get, holds]
        exact ih.2
      · rw [Fields.get_put_of_ne _ _ heq]
        exact Edited.forall₂_refl _
    exact ⟨hprograms, hobj hedited hprograms⟩
  | @inList before after v w _ edit ih =>
    have harr : ∀ items, Syntax.programs (.arr items) = [] := fun items => by
      rw [programs_eq]
      rfl
    refine ⟨by rw [harr, harr]; exact .nil, ?_⟩
    have hnode : isNode v = isNode w := Edited.isNode_eq (.single edit)
    simp only [programsIn, List.flatMap_append, List.flatMap_cons, hnode]
    refine List.rel_append (Edited.forall₂_refl _) (List.rel_append ?_ (Edited.forall₂_refl _))
    split
    · exact ih.1
    · exact .nil

theorem Edited.programs {v w : Value} (h : Edited v w) :
    List.Forall₂ Edited (Syntax.programs v) (Syntax.programs w) := by
  cases h with
  | refl => exact Edited.forall₂_refl _
  | single h => exact h.programs.1

end TreeLint.Syntax

namespace TreeLint.Rule

open TreeLint.Json TreeLint.Syntax TreeLint.Usage

/-! ## The rule about exports, program by program -/

/-- The rule about exports reports at programs and nowhere else. -/
theorem checkVisits_exports {context : Context} (hrule : context.rule = .exportCodeLast)
    (root : Value) (visits : List Visit) :
    checkVisits [context] root visits =
      ((visits.map Visit.node).filter (isKind · "Program")).mapM (checkExports context) >>=
        fun found => .ok found.flatten := by
  have hat : ∀ visit, reportsAt root visit context =
      if isKind visit.node "Program" then checkExports context visit.node else .ok [] := by
    intro visit
    have hlooks : context.rule.looksAt visit.node = isKind visit.node "Program" := by
      rw [hrule]
      exact Bool.or_false _
    rw [reportsAt, hlooks, check, hrule]
  induction visits with
  | nil => rfl
  | cons visit rest ih =>
    have hcons : checkVisits [context] root (visit :: rest) = (do
        let here ← reportsAt root visit context
        return here ++ (← checkVisits [context] root rest)) := by
      simp only [checkVisits, List.mapM_cons, checkNode_singleton, bind_assoc, pure_eq_ok, ok_bind,
        List.flatten_cons]
    rw [hcons, ih, hat, List.map_cons, List.filter_cons]
    split
    · simp only [List.mapM_cons, bind_assoc, pure_eq_ok, ok_bind, List.flatten_cons]
    · simp only [ok_bind, List.nil_append]
      exact bind_pure _

theorem run_exports (options : Value) (debug : Bool) (program text bindings : Value) :
    (Engine.mk [.exportCodeLast] options debug).run program text bindings =
      copyOptions options >>= fun copied => checkedEdges program >>= fun _ =>
        (programs program).mapM (checkExports
          ⟨.exportCodeLast, optionsFor copied .exportCodeLast, ⟨text⟩, bindings⟩) >>=
            fun found => .ok (inOrder found.flatten) := by
  have hvisits : ∀ copied : RuleOptions,
      checkVisits (Engine.contexts (Engine.mk [.exportCodeLast] options debug) copied text bindings)
        program (preorder [] program) =
      (programs program).mapM (checkExports
        ⟨.exportCodeLast, optionsFor copied .exportCodeLast, ⟨text⟩, bindings⟩) >>=
          fun found => .ok found.flatten :=
    fun copied => checkVisits_exports rfl program (preorder [] program)
  simp only [Engine.run, walk_eq, bind_assoc, ok_bind, hvisits, pure_eq_ok]

/-- The rule about exports has the same outcome on programs that are one edit apart. -/
theorem run_eq_of_edited {P Q : Value} (h : Edited P Q) (options : Value) (debug : Bool)
    (text bindings : Value) :
    (Engine.mk [.exportCodeLast] options debug).run P text bindings =
      (Engine.mk [.exportCodeLast] options debug).run Q text bindings := by
  have hchecked : Both (fun _ _ => True) (checkedEdges P) (checkedEdges Q) :=
    likeness_edited.checkedEdges_like h
  have hprograms : ∀ context : Context,
      (programs P).mapM (checkExports context) = (programs Q).mapM (checkExports context) := by
    intro context
    refine mapM_eq_of_forall₂ h.programs fun v w hvw => ?_
    have heq := likeness_edited.checkExports_eq hvw context
    rw [Renaming.identity_table] at heq
    exact heq.symm
  rw [run_exports, run_exports]
  congr 1
  funext copied
  refine hchecked.bind_eq fun _ _ _ => ?_
  rw [hprograms]

/-- Where an occurrence is, and what it is there. -/
def placed (x : Except Fault Occurrence) : Except Fault (Role × Path) :=
  x.map fun o => (o.role, o.path)

theorem occurrences_eq_of_edited {P Q : Value} (h : Edited P Q) (name : String) :
    (occurrences P (.str name)).map placed = (occurrences Q (.str name)).map placed := by
  have hlike := likeness_edited.occurrences_like h (n := .str name) rfl
  rw [Renaming.identity_name] at hlike
  refine map_eq_of_forall₂ hlike fun x y hxy => ?_
  cases hxy with
  | error fault => rfl
  | ok related =>
    obtain ⟨hrole, hpath, _⟩ := related
    simp only [placed, Except.map, hrole, hpath]

/-- Types cannot influence the rule about exports.  In programs that differ in nothing but fields for
types, every name occurs in the same roles at the same places, in the same order, and the rule about
exports has the same outcome, whatever the text, the options and the bindings are. -/
theorem exports_ignore_types (P Q : Value) (h : SameButTypes P Q) :
    (∀ name : String,
      (occurrences P (.str name)).map placed = (occurrences Q (.str name)).map placed) ∧
    ∀ (options : Value) (debug : Bool) (text bindings : Value),
      (Engine.mk [.exportCodeLast] options debug).run P text bindings =
        (Engine.mk [.exportCodeLast] options debug).run Q text bindings := by
  induction h with
  | rel P Q edit =>
    exact ⟨occurrences_eq_of_edited (.single edit), run_eq_of_edited (.single edit)⟩
  | refl P => exact ⟨fun _ => rfl, fun _ _ _ _ => rfl⟩
  | symm P Q _ ih =>
    exact ⟨fun name => (ih.1 name).symm, fun options debug text bindings =>
      (ih.2 options debug text bindings).symm⟩
  | trans P Q S _ _ first second =>
    exact ⟨fun name => (first.1 name).trans (second.1 name), fun options debug text bindings =>
      (first.2 options debug text bindings).trans (second.2 options debug text bindings)⟩

/-- `const x: x = 1; export default x` with and without the annotation: the name in the annotation is
no use of the variable. -/
theorem exports_ignore_types_annotation :
    let plain : Value := .obj [("type", .str "Identifier"), ("name", .str "x")]
    let annotated : Value := .obj [("type", .str "Identifier"), ("name", .str "x"),
      ("typeAnnotation", .obj [("type", .str "TSTypeAnnotation"), ("typeAnnotation", plain)])]
    let declarator (id : Value) : Value := .obj [("type", .str "VariableDeclarator"), ("id", id)]
    let program (id : Value) : Value := .obj [("type", .str "Program"), ("body", .arr [
      .obj [("type", .str "VariableDeclaration"), ("declarations", .arr [declarator id])],
      .obj [("type", .str "ExportDefaultDeclaration"), ("declaration", plain)]])]
    SameButTypes (program plain) (program annotated) ∧
      ((occurrences (program plain) (.str "x")).map placed =
        (occurrences (program annotated) (.str "x")).map placed) ∧
      ∀ (options : Value) (debug : Bool) (text bindings : Value),
        (Engine.mk [.exportCodeLast] options debug).run (program plain) text bindings =
          (Engine.mk [.exportCodeLast] options debug).run (program annotated) text bindings := by
  intro plain annotated declarator program
  have hid : AddsType plain annotated :=
    @AddsType.here [("type", .str "Identifier"), ("name", .str "x")] [] "typeAnnotation" _
      (by decide) (by decide) (by decide) (by decide +kernel)
  have hdeclarator : AddsType (declarator plain) (declarator annotated) :=
    @AddsType.inField [("type", .str "VariableDeclarator"), ("id", plain)] "id" _ _ rfl (by decide) hid
  have hdeclaration : AddsType
      (.obj [("type", .str "VariableDeclaration"), ("declarations", .arr [declarator plain])])
      (.obj [("type", .str "VariableDeclaration"), ("declarations", .arr [declarator annotated])]) :=
    @AddsType.inField
      [("type", .str "VariableDeclaration"), ("declarations", .arr [declarator plain])] "declarations"
      _ _ rfl (by decide) (@AddsType.inList [] [] _ _ (by decide) hdeclarator)
  have hprogram : SameButTypes (program plain) (program annotated) :=
    .rel _ _ (@AddsType.inField _ "body" _ _ rfl (by decide)
      (@AddsType.inList [] [_] _ _ (by decide) hdeclaration))
  obtain ⟨hoccurrences, hruns⟩ := exports_ignore_types _ _ hprogram
  exact ⟨hprogram, hoccurrences "x", hruns⟩

end TreeLint.Rule

/-
  Spans and subtrees.

  Uses are excluded by their spans; nothing is asked about where they stand in the tree.  Where the
  spans of a program are nested, and those of its statements lie apart, this comes to the same: a node
  lies inside the span of a statement exactly when it stands in the tree of the statement.
-/
import TreeLint.Proofs.ExportShape
import TreeLint.Proofs.OccurrencePath
import TreeLint.Proofs.Tree
import TreeLint.Proofs.Uses

set_option autoImplicit false

namespace TreeLint.Syntax

open TreeLint.Json

/-! ## Nested spans -/

/-- The span of the node is made of whole numbers and not empty, and the spans of its children lie in
it. -/
def EnclosesChildren (v : Value) : Prop :=
  ∃ outer ∈ extent? v, outer.1 < outer.2 ∧
    ∀ e ∈ edges v, ∀ inner ∈ extent? e.child, outer.1 ≤ inner.1 ∧ inner.2 ≤ outer.2

instance (v : Value) : Decidable (EnclosesChildren v) :=
  inferInstanceAs (Decidable (∃ outer ∈ extent? v, outer.1 < outer.2 ∧
    ∀ e ∈ edges v, ∀ inner ∈ extent? e.child, outer.1 ≤ inner.1 ∧ inner.2 ≤ outer.2))

/-- Each node of the tree has a span of whole numbers that is not empty, and that lies in the span of
the node above it. -/
def Nested (root : Value) : Prop :=
  ∀ visit ∈ preorder [] root, EnclosesChildren visit.node

instance (root : Value) : Decidable (Nested root) :=
  inferInstanceAs (Decidable (∀ visit ∈ preorder [] root, EnclosesChildren visit.node))

/-- The spans of the two nodes have no place in common. -/
def Apart (v w : Value) : Prop :=
  ∀ s ∈ extent? v, ∀ t ∈ extent? w, s.2 ≤ t.1 ∨ t.2 ≤ s.1

instance (v w : Value) : Decidable (Apart v w) :=
  inferInstanceAs (Decidable (∀ s ∈ extent? v, ∀ t ∈ extent? w, s.2 ≤ t.1 ∨ t.2 ≤ s.1))

theorem Apart.symm {v w : Value} (h : Apart v w) : Apart w v :=
  fun s hs t ht => (h t ht s hs).symm

theorem EnclosesChildren.exists_extent {v : Value} (h : EnclosesChildren v) :
    ∃ a b, extent? v = some (a, b) ∧ a < b := by
  obtain ⟨⟨a, b⟩, hextent, hlt, _⟩ := h
  exact ⟨a, b, hextent, hlt⟩

theorem EnclosesChildren.child {v : Value} (h : EnclosesChildren v) {e : Edge} (he : e ∈ edges v)
    {a b c d : Int} (hv : extent? v = some (a, b)) (hchild : extent? e.child = some (c, d)) :
    a ≤ c ∧ d ≤ b := by
  obtain ⟨outer, hextent, _, hchildren⟩ := h
  obtain rfl : outer = (a, b) := Option.mem_unique hextent hv
  exact hchildren e he (c, d) hchild

theorem EnclosesChildren.hasPlainSpan {v : Value} (h : EnclosesChildren v) : HasPlainSpan v := by
  obtain ⟨a, b, hextent, _⟩ := h.exists_extent
  exact hasPlainSpan_of_extent? (Option.isSome_iff_exists.mpr ⟨_, hextent⟩)

/-- In a nested tree the span of every node lies in that of the root. -/
theorem extent_within {path : Path} {v : Value} (h : ∀ visit ∈ preorder path v, EnclosesChildren visit.node)
    {visit : Visit} (hvisit : visit ∈ preorder path v) {a b c d : Int}
    (hroot : extent? v = some (a, b)) (hnode : extent? visit.node = some (c, d)) : a ≤ c ∧ d ≤ b := by
  -- The invariant goes down one edge at a time: the span of a child lies in that of its parent.
  induction path, v using preorder.induct generalizing a b with
  | case1 path v ih =>
    rcases mem_preorder_iff.mp hvisit with rfl | ⟨e, he, hbelow⟩
    · obtain ⟨rfl, rfl⟩ := Prod.mk.inj (Option.some.inj (hroot.symm.trans hnode))
      exact ⟨Int.le_refl a, Int.le_refl b⟩
    · have hchild : ∀ visit ∈ preorder (e.step :: path) e.child, EnclosesChildren visit.node :=
        fun visit hvisit => h visit (mem_preorder_of_child he hvisit)
      obtain ⟨start, stop, hextent, _⟩ := (hchild _ (self_mem_preorder _ _)).exists_extent
      obtain ⟨hleft, hright⟩ := (h _ (self_mem_preorder path v)).child he hroot hextent
      obtain ⟨hstart, hstop⟩ := ih ⟨e, he⟩ hchild hbelow hextent
      exact ⟨Int.le_trans hleft hstart, Int.le_trans hstop hright⟩

/-! ## Statements -/

section Statements

variable {fields : Fields} {statements : List Value} {i : Nat} {s : Value}

/-- The trees of the statements make up the tree below the program. -/
theorem exists_statement_of_mem_preorder (hkind : isKind (.obj fields) "Program" = true)
    (hbody : Fields.get fields "body" = .arr statements) {visit : Visit}
    (hvisit : visit ∈ preorder [] (.obj fields)) (hbelow : visit.path ≠ []) :
    ∃ j t, statements[j]? = some t ∧ isNode t = true ∧ visit ∈ preorder [⟨"body", some j⟩] t := by
  rcases mem_preorder_iff.mp hvisit with rfl | ⟨e, he, hmem⟩
  · exact absurd rfl hbelow
  · obtain ⟨j, t, ht, hnode, rfl⟩ := (mem_edges_program_iff hkind hbody).mp he
    exact ⟨j, t, ht, hnode, hmem⟩

/-- The tree of a statement is part of the tree of the program. -/
theorem mem_preorder_of_statement (hkind : isKind (.obj fields) "Program" = true)
    (hbody : Fields.get fields "body" = .arr statements) (hs : statements[i]? = some s)
    (hnode : isNode s = true) {visit : Visit} (hvisit : visit ∈ preorder [⟨"body", some i⟩] s) :
    visit ∈ preorder [] (.obj fields) :=
  mem_preorder_of_child ((mem_edges_program_iff hkind hbody).mpr ⟨i, s, hs, hnode, rfl⟩) hvisit

/-- A node below a nested program lies in the span of a statement when it stands in its tree. -/
theorem within_statement_iff (hkind : isKind (.obj fields) "Program" = true)
    (hbody : Fields.get fields "body" = .arr statements) (hnested : Nested (.obj fields))
    (hapart : statements.Pairwise Apart) (hs : statements[i]? = some s) (hnode : isNode s = true)
    {visit : Visit} (hvisit : visit ∈ preorder [] (.obj fields)) (hbelow : visit.path ≠ [])
    {a b c d : Int} (hstatement : extent? s = some (a, b)) (hextent : extent? visit.node = some (c, d)) :
    (a ≤ c ∧ d ≤ b) ↔ visit ∈ preorder [⟨"body", some i⟩] s := by
  have htree : ∀ {j : Nat} {t : Value}, statements[j]? = some t → isNode t = true →
      ∀ visit ∈ preorder [⟨"body", some j⟩] t, EnclosesChildren visit.node :=
    fun ht hnode visit hvisit => hnested visit (mem_preorder_of_statement hkind hbody ht hnode hvisit)
  constructor
  · rintro ⟨hstart, hstop⟩
    obtain ⟨j, t, ht, htnode, hmem⟩ := exists_statement_of_mem_preorder hkind hbody hvisit hbelow
    by_cases hij : i = j
    · subst hij
      obtain rfl := Option.some.inj (hs.symm.trans ht)
      exact hmem
    · -- Two statements that lie apart cannot both hold a span that is not empty.
      obtain ⟨start, stop, hwhole, _⟩ := (htree ht htnode _ (self_mem_preorder _ _)).exists_extent
      obtain ⟨hleft, hright⟩ := extent_within (htree ht htnode) hmem hwhole hextent
      obtain ⟨c', d', hextent', hnonempty⟩ := (hnested visit hvisit).exists_extent
      obtain ⟨rfl, rfl⟩ := Prod.mk.inj (Option.some.inj (hextent.symm.trans hextent'))
      obtain ⟨hi, rfl⟩ := List.getElem?_eq_some_iff.mp hs
      obtain ⟨hj, rfl⟩ := List.getElem?_eq_some_iff.mp ht
      have happart : Apart statements[i] statements[j] := by
        rcases Nat.lt_or_gt_of_ne hij with hlt | hlt
        · exact List.pairwise_iff_getElem.mp hapart i j hi hj hlt
        · exact (List.pairwise_iff_getElem.mp hapart j i hj hi hlt).symm
      have hdisjoint : b ≤ start ∨ stop ≤ a := happart (a, b) hstatement (start, stop) hwhole
      omega
  · intro hmem
    exact extent_within (htree hs hnode) hmem hstatement hextent

end Statements

end TreeLint.Syntax

namespace TreeLint.Usage

open TreeLint.Json TreeLint.Syntax

/-! ## Uses in statements -/

/-- A live path leads to a node of the tree. -/
theorem Live.mem_preorder {root : Value} {path : Path} {v : Value} {role : Role}
    (h : Live root path v role) : ⟨path, v⟩ ∈ preorder [] root := by
  induction h with
  | root => exact self_mem_preorder [] root
  | step _ _ child _ ih => exact child_mem_preorder ih child

/-- The occurrence as a node of the tree. -/
def Occurrence.visit (o : Occurrence) : Visit :=
  ⟨o.path, o.node⟩

/-- An occurrence is a node of the tree, below its root. -/
theorem Occurs.mem_preorder {root : Value} {name : String} {o : Occurrence} (h : Occurs root name o) :
    o.visit ∈ preorder [] root ∧ o.path ≠ [] := by
  cases h with
  | identifier before _ child => exact ⟨child_mem_preorder before.mem_preorder child, by simp⟩
  | tag before _ child => exact ⟨child_mem_preorder before.mem_preorder child, by simp⟩

/-- A child of a plain parent has the role that the parent's kind and the field give it. -/
theorem childRole_of_plain {parent : Value} {e : Edge} {kind childKind : String}
    (hkind : isKind parent kind = true) (hchild : isKind e.child childKind = true)
    (hfield : typeFields.contains e.step.field = false) (htype : isTypeKind childKind = false)
    (hplain : typedExpressionFields.lookup kind = none) :
    childRole parent e .reference =
      plainRole kind e.step.field (fieldOf parent "computed").truthy := by
  obtain ⟨fields, _, rfl, _⟩ := isNode_iff.mp (isNode_of_isKind hkind)
  have hmodule : kind ≠ "TSModuleDeclaration" := by
    rintro rfl
    exact absurd hplain (by decide)
  have himport : kind ≠ "TSImportEqualsDeclaration" := by
    rintro rfl
    exact absurd hplain (by decide)
  simp only [childRole, isKind_iff.mp hkind, isKind_iff.mp hchild, Option.getD_some, hfield, htype,
    hmodule, himport, hplain, fieldOf_obj]
  simp

section Statements

variable {fields : Fields} {statements : List Value} {name : String} {i : Nat} {s : Value}

/-- The name in `export default name` is a child of the statement. -/
theorem DefaultOf.mem_edges (h : DefaultOf s name) :
    ⟨⟨"declaration", none⟩, fieldOf s "declaration"⟩ ∈ edges s :=
  mem_edges_of_field h.1 (by decide) (isNode_of_isKind h.2.1)

/-- The name in `export default name` is a use of it. -/
theorem DefaultOf.occurs (h : DefaultOf s name) (hkind : isKind (.obj fields) "Program" = true)
    (hbody : Fields.get fields "body" = .arr statements) (hs : statements[i]? = some s) :
    Occurs (.obj fields) name
      ⟨.reference, [⟨"declaration", none⟩, ⟨"body", some i⟩], fieldOf s "declaration"⟩ := by
  obtain ⟨hdefault, hidentifier, hname⟩ := id h
  have hlive : Live (.obj fields) [⟨"body", some i⟩] s .reference := by
    refine .step (e := ⟨⟨"body", some i⟩, s⟩) .root (.inl rfl) ?_ ?_
    · exact (mem_edges_program_iff hkind hbody).mpr ⟨i, s, hs, isNode_of_isKind hdefault, rfl⟩
    · exact childRole_of_plain hkind hdefault rfl (by decide +kernel) (by decide)
  refine .identifier hlive (.inr ?_) (DefaultOf.mem_edges h) ?_ hidentifier hname
  · refine Bool.eq_false_iff.mpr fun htag => ?_
    exact absurd (isKind_unique hdefault htag) (by decide)
  · exact childRole_of_plain hdefault hidentifier rfl (by decide +kernel) (by decide)

/-- The spans of an occurrence and of a statement of a nested program tell whether the one stands in
the tree of the other. -/
theorem Occurs.within_iff (hkind : isKind (.obj fields) "Program" = true)
    (hbody : Fields.get fields "body" = .arr statements) (hnested : Nested (.obj fields))
    (hapart : statements.Pairwise Apart) (hs : statements[i]? = some s) (hnode : isNode s = true)
    {o : Occurrence} (h : Occurs (.obj fields) name o) :
    ∃ use outer, span o.node = .ok (some use) ∧ span s = .ok (some outer) ∧
      (use.Within outer ↔ o.visit ∈ preorder [⟨"body", some i⟩] s) := by
  obtain ⟨hmem, hbelow⟩ := h.mem_preorder
  obtain ⟨a, b, hextent, _⟩ := (hnested _ hmem).exists_extent
  obtain ⟨c, d, hstatement, _⟩ := (hnested _
    (mem_preorder_of_statement hkind hbody hs hnode (self_mem_preorder _ _))).exists_extent
  obtain ⟨use, huse, ha, hb⟩ := extent?_eq_some_iff.mp hextent
  obtain ⟨outer, houter, hc, hd⟩ := extent?_eq_some_iff.mp hstatement
  refine ⟨use, outer, huse, houter, ?_⟩
  rw [Span.Within, Span.inside_eq ha hb hc hd, Except.ok.injEq, decide_eq_true_iff]
  exact within_statement_iff hkind hbody hnested hapart hs hnode hmem hbelow hstatement hextent

/-- Where the span of a statement is the only one excluded, an occurrence lies outside when it does not
stand in the tree of the statement. -/
theorem Occurs.outside_iff (hkind : isKind (.obj fields) "Program" = true)
    (hbody : Fields.get fields "body" = .arr statements) (hnested : Nested (.obj fields))
    (hapart : statements.Pairwise Apart) (hs : statements[i]? = some s) (hnode : isNode s = true)
    {excluded : List Span} (hexcluded : ∀ t, t ∈ excluded ↔ span s = .ok (some t))
    {o : Occurrence} (h : Occurs (.obj fields) name o) {use : Option Span}
    (huse : span o.node = .ok use) :
    Outside excluded use ↔ o.visit ∉ preorder [⟨"body", some i⟩] s := by
  obtain ⟨inner, outer, hinner, houter, hwithin⟩ :=
    h.within_iff hkind hbody hnested hapart hs hnode
  obtain rfl : some inner = use := Except.ok.inj (hinner.symm.trans huse)
  rw [← hwithin]
  constructor
  · intro hout
    exact hout inner rfl outer ((hexcluded outer).mpr houter)
  · rintro hout _ ⟨⟩ other hother
    obtain rfl : outer = other :=
      Option.some.inj (Except.ok.inj (houter.symm.trans ((hexcluded other).mp hother)))
    exact hout

/-- Excluding by span is excluding by tree.  In a nested program whose statements lie apart, a name is
used outside a statement exactly when some use of it is found that does not stand in the tree of the
statement.  No use elsewhere lies in the span of the statement, and the name in `export default name` is
a use that does. -/
theorem ask_excludes_subtree (hkind : isKind (.obj fields) "Program" = true)
    (hbody : Fields.get fields "body" = .arr statements) (hnested : Nested (.obj fields))
    (hapart : statements.Pairwise Apart) (hs : statements[i]? = some s) (hnode : isNode s = true)
    (name : String) :
    Decides ((Resolver.ofStrategy (.scan (.obj fields))).ask (.str name) [s]).1
      (∃ o, .ok o ∈ occurrences (.obj fields) (.str name) ∧ o.role = .reference ∧
        o.visit ∉ preorder [⟨"body", some i⟩] s) ∧
    (∀ o, .ok o ∈ occurrences (.obj fields) (.str name) →
      ∃ use outer, span o.node = .ok (some use) ∧ span s = .ok (some outer) ∧
        (use.Within outer ↔ o.visit ∈ preorder [⟨"body", some i⟩] s)) ∧
    (DefaultOf s name → ∃ o, .ok o ∈ occurrences (.obj fields) (.str name) ∧ o.role = .reference ∧
      o.node = fieldOf s "declaration" ∧ o.visit ∈ preorder [⟨"body", some i⟩] s) := by
  obtain ⟨found, hfound, hoccurs⟩ := exists_occurrences name (isNode_of_isKind hkind)
  have hmem : ∀ o, .ok o ∈ occurrences (.obj fields) (.str name) ↔ Occurs (.obj fields) name o := by
    intro o
    rw [hfound, List.mem_map_of_injective fun _ _ => Except.ok.inj]
    exact hoccurs o
  refine ⟨?_, ?_, ?_⟩
  · have hspans : ∀ node ∈ [s], HasPlainSpan node := by
      intro node hmem
      rw [List.mem_singleton.mp hmem]
      exact (hnested _ (mem_preorder_of_statement hkind hbody hs hnode
        (self_mem_preorder _ _))).hasPlainSpan
    have huses : ∀ o ∈ found, HasPlainSpan o.node := fun o ho =>
      (hnested _ ((hoccurs o).mp ho).mem_preorder.1).hasPlainSpan
    obtain ⟨q, hq, hplain, hname, hmemq⟩ := Question.of_plain name hspans
    have hexcluded : ∀ t, t ∈ q.excluded ↔ span s = .ok (some t) := by
      intro t
      rw [hmemq]
      simp
    rw [((Resolver.isFaithful_ofStrategy _).ask hq hplain).1, usedOutside, hq, ok_bind]
    refine ((Strategy.scan_lists hfound huses).answer_decides hplain hname).congr ?_
    constructor
    · rintro ⟨use, ⟨o, ho, hrole, huse⟩, hout⟩
      have hoccurs := (hoccurs o).mp ho
      refine ⟨o, (hmem o).mpr hoccurs, hrole, ?_⟩
      exact (hoccurs.outside_iff hkind hbody hnested hapart hs hnode hexcluded huse).mp hout
    · rintro ⟨o, ho, hrole, hout⟩
      have hoccurs' := (hmem o).mp ho
      obtain ⟨use, huse, _⟩ := huses o ((hoccurs o).mpr hoccurs')
      refine ⟨use, ⟨o, (hoccurs o).mpr hoccurs', hrole, huse⟩, ?_⟩
      exact (hoccurs'.outside_iff hkind hbody hnested hapart hs hnode hexcluded huse).mpr hout
  · intro o ho
    exact ((hmem o).mp ho).within_iff hkind hbody hnested hapart hs hnode
  · intro hdefault
    refine ⟨_, (hmem _).mpr (DefaultOf.occurs hdefault hkind hbody hs), rfl, rfl, ?_⟩
    exact child_mem_preorder (self_mem_preorder _ s) (DefaultOf.mem_edges hdefault)

/-- `a; export default a`: the statements lie side by side, the use in the first is found, and the one in
the export is not counted. -/
theorem ask_excludes_subtree_default :
    let name (start stop : Int) : Value := .obj [("type", .str "Identifier"), ("name", .str "a"),
      ("start", .int start), ("end", .int stop)]
    let use : Value := .obj [("type", .str "ExpressionStatement"), ("start", .int 0), ("end", .int 2),
      ("expression", name 0 1)]
    let default : Value := .obj [("type", .str "ExportDefaultDeclaration"), ("start", .int 2),
      ("end", .int 19), ("declaration", name 17 18)]
    let fields : Fields := [("type", .str "Program"), ("start", .int 0), ("end", .int 19),
      ("body", .arr [use, default])]
    isKind (.obj fields) "Program" = true ∧ Nested (.obj fields) ∧ [use, default].Pairwise Apart ∧
      DefaultOf default "a" ∧
      Decides ((Resolver.ofStrategy (.scan (.obj fields))).ask (.str "a") [default]).1
        (∃ o, .ok o ∈ occurrences (.obj fields) (.str "a") ∧ o.role = .reference ∧
          o.visit ∉ preorder [⟨"body", some 1⟩] default) ∧
      ((Resolver.ofStrategy (.scan (.obj fields))).ask (.str "a") [default]).1 = .ok true := by
  intro name use default fields
  have hkind : isKind (.obj fields) "Program" = true := by decide
  have hbody : Fields.get fields "body" = .arr [use, default] := rfl
  have hnested : Nested (.obj fields) := by decide +kernel
  have hapart : [use, default].Pairwise Apart := by decide +kernel
  refine ⟨hkind, hnested, hapart, ⟨by decide, by decide, rfl⟩, ?_, ?_⟩
  · exact (ask_excludes_subtree hkind hbody hnested hapart (i := 1) rfl (by decide) "a").1
  · decide +kernel

end Statements

end TreeLint.Usage

/-
  What more excluded nodes and more statements do to an answer.

  A question asks whether some use lies outside the excluded nodes.  All that matters of these are the ends of
  their spans; the more there are, the fewer uses are outside.  A statement that is put into a program takes
  no use away: each one is found again in another place.  The answer can therefore become true while a
  program grows and never false again, so that of the answers kept by a resolver only a false one gets
  out of date.
-/
import TreeLint.Proofs.Nesting

set_option autoImplicit false

namespace TreeLint.Decides

variable {x y : Except Fault Bool} {P Q : Prop}

/-- Two tests of one condition have the same outcome. -/
theorem eq (hx : Decides x P) (hy : Decides y P) : x = y := by
  rcases hx with ⟨rfl, hyes⟩ | ⟨rfl, hno⟩
  · exact (hy.ok_true_iff.mpr hyes).symm
  · exact (hy.ok_false_iff.mpr hno).symm

/-- If one condition follows from another, so does the outcome true. -/
theorem exists_imp (hx : Decides x P) (hy : Decides y Q) (h : P → Q) :
    ∃ a b, x = .ok a ∧ y = .ok b ∧ (a = true → b = true) := by
  obtain ⟨a, ha⟩ := hx.exists_ok
  obtain ⟨b, hb⟩ := hy.exists_ok
  refine ⟨a, b, ha, hb, fun htrue => ?_⟩
  rw [htrue] at ha
  exact Except.ok.inj (hb.symm.trans (hy.ok_true_iff.mpr (h (hx.ok_true_iff.mp ha))))

end TreeLint.Decides

namespace TreeLint.Syntax

open TreeLint.Json

theorem HasPlainSpan.isWhole {v : Value} (h : HasPlainSpan v) {s : Span} (hs : span v = .ok (some s)) :
    s.IsWhole := by
  obtain ⟨use, huse, hwhole⟩ := h
  exact hwhole s (Except.ok.inj (huse.symm.trans hs))

end TreeLint.Syntax

namespace TreeLint.Usage

open TreeLint.Json TreeLint.Syntax

/-! ## Uses by their ends -/

/-- All nodes of the tree have whole numbers for their spans, or none. -/
def HasPlainSpans (root : Value) : Prop :=
  Everywhere HasPlainSpan root

theorem Occurs.hasPlainSpan {root : Value} {name : String} {o : Occurrence} (h : Occurs root name o)
    (hroot : HasPlainSpans root) : HasPlainSpan o.node :=
  hroot o.visit h.mem_preorder.1

/-- The ends of the spans of the nodes that have one. -/
def extents (nodes : List Value) : List (Int × Int) :=
  nodes.filterMap extent?

/-- The node lies in none of the stretches; one without a span lies in none. -/
def LiesOutside (stretches : List (Int × Int)) (node : Value) : Prop :=
  ∀ inner ∈ extent? node, ∀ outer ∈ stretches, ¬ (outer.1 ≤ inner.1 ∧ inner.2 ≤ outer.2)

/-- More stretches leave fewer nodes outside. -/
theorem LiesOutside.of_subset {few many : List (Int × Int)} {node : Value} (h : LiesOutside many node)
    (hsubset : few ⊆ many) : LiesOutside few node :=
  fun inner hinner outer houter => h inner hinner outer (hsubset houter)

/-- Some use of the name in the program lies in none of the stretches. -/
def UsedBeyond (program : Value) (name : String) (stretches : List (Int × Int)) : Prop :=
  ∃ o, Occurs program name o ∧ o.role = .reference ∧ LiesOutside stretches o.node

/-- Where more stretches leave a use outside, fewer do. -/
theorem UsedBeyond.of_subset {program : Value} {name : String} {few many : List (Int × Int)}
    (h : UsedBeyond program name many) (hsubset : few ⊆ many) : UsedBeyond program name few := by
  obtain ⟨o, ho, hrole, hout⟩ := h
  exact ⟨o, ho, hrole, hout.of_subset hsubset⟩

/-- A use lies outside excluded spans when it lies outside their ends. -/
theorem outside_iff_liesOutside {nodes : List Value} {excluded : List Span} {node : Value}
    {use : Option Span} (hnodes : ∀ other ∈ nodes, HasPlainSpan other)
    (hexcluded : ∀ s, s ∈ excluded ↔ ∃ other ∈ nodes, span other = .ok (some s))
    (hnode : HasPlainSpan node) (huse : span node = .ok use) :
    Outside excluded use ↔ LiesOutside (extents nodes) node := by
  constructor
  · rintro hout ⟨a, b⟩ hinner ⟨c, d⟩ houter hwithin
    obtain ⟨s, hs, ha, hb⟩ := extent?_eq_some_iff.mp hinner
    obtain ⟨other, hother, hextent⟩ := List.mem_filterMap.mp houter
    obtain ⟨t, ht, hc, hd⟩ := extent?_eq_some_iff.mp hextent
    refine hout s (Except.ok.inj (huse.symm.trans hs)) t ((hexcluded t).mpr ⟨other, hother, ht⟩) ?_
    rw [Span.Within, Span.inside_eq ha hb hc hd, decide_eq_true hwithin]
  · rintro hout s rfl t ht hwithin
    obtain ⟨other, hother, ht⟩ := (hexcluded t).mp ht
    obtain ⟨a, b, ha, hb⟩ := hnode.isWhole huse
    obtain ⟨c, d, hc, hd⟩ := (hnodes other hother).isWhole ht
    have hinner : extent? node = some (a, b) := extent?_eq_some_iff.mpr ⟨s, huse, ha, hb⟩
    have houter : extent? other = some (c, d) := extent?_eq_some_iff.mpr ⟨t, ht, hc, hd⟩
    rw [Span.Within, Span.inside_eq ha hb hc hd] at hwithin
    exact hout (a, b) hinner (c, d) (List.mem_filterMap.mpr ⟨other, hother, houter⟩)
      (of_decide_eq_true (Except.ok.inj hwithin))

/-- A question about a name and plain nodes is answered by the uses of the name that are found. -/
theorem scan_answer_decides {program : Value} {name : String} {q : Question}
    (hnode : isNode program = true) (hspans : HasPlainSpans program) (hplain : q.IsPlain)
    (hname : q.name = .str name) :
    Decides (q.answer (.scan program)) (∃ o, Occurs program name o ∧ o.role = .reference ∧
      ∃ use, span o.node = .ok use ∧ Outside q.excluded use) := by
  obtain ⟨found, hfound, hoccurs⟩ := exists_occurrences name hnode
  have huses : ∀ o ∈ found, HasPlainSpan o.node := fun o ho => ((hoccurs o).mp ho).hasPlainSpan hspans
  refine ((Strategy.scan_lists hfound huses).answer_decides hplain hname).congr ?_
  simp only [Strategy.FoundUse, hoccurs]
  constructor
  · rintro ⟨use, ⟨o, ho, hrole, huse⟩, hout⟩
    exact ⟨o, ho, hrole, use, huse, hout⟩
  · rintro ⟨o, ho, hrole, use, huse, hout⟩
    exact ⟨use, ⟨o, ho, hrole, huse⟩, hout⟩

/-- The answer of a resolver that has answered nothing. -/
def freshAnswer (program : Value) (name : String) (nodes : List Value) : Except Fault Bool :=
  ((Resolver.ofStrategy (.scan program)).ask (.str name) nodes).1

/-- It is the answer to the question that the name and the nodes make, worked out anew. -/
theorem freshAnswer_eq {name : String} {nodes : List Value} {q : Question}
    (hq : Question.of (.str name) nodes = .ok q) (hplain : q.IsPlain) (program : Value) :
    freshAnswer program name nodes = q.answer (.scan program) := by
  rw [freshAnswer, ((Resolver.isFaithful_ofStrategy _).ask hq hplain).1, usedOutside, hq, ok_bind]
  rfl

theorem freshAnswer_decides {program : Value} {name : String} {nodes : List Value}
    (hnode : isNode program = true) (hspans : HasPlainSpans program)
    (hnodes : ∀ node ∈ nodes, HasPlainSpan node) :
    Decides (freshAnswer program name nodes) (UsedBeyond program name (extents nodes)) := by
  obtain ⟨q, hq, hplain, hname, hexcluded⟩ := Question.of_plain name hnodes
  rw [freshAnswer_eq hq hplain]
  refine (scan_answer_decides hnode hspans hplain hname).congr ?_
  refine exists_congr fun o => and_congr_right fun ho => and_congr_right fun _ => ?_
  have hplainUse := ho.hasPlainSpan hspans
  constructor
  · rintro ⟨use, huse, hout⟩
    exact (outside_iff_liesOutside hnodes hexcluded hplainUse huse).mp hout
  · intro hout
    obtain ⟨use, huse, _⟩ := id hplainUse
    exact ⟨use, huse, (outside_iff_liesOutside hnodes hexcluded hplainUse huse).mpr hout⟩

/-! ## Trees that take over the children of another -/

/-- Each child of the first node is a child of the second, and what it is there is the same. -/
def KeepsChildren (root larger : Value) : Prop :=
  ∀ e ∈ edges root, ∃ d ∈ edges larger, d.child = e.child ∧
    childRole larger d .reference = childRole root e .reference ∧
    isTagReference larger d = isTagReference root e

/-- What is a child at the end of a live path goes on to be one, with the same role. -/
theorem KeepsChildren.place {root larger : Value} (h : KeepsChildren root larger) {path : Path}
    {parent : Value} {above : Role} (hlive : Live root path parent above)
    (hinner : path = [] ∨ isKind parent "JSXIdentifier" = false) {e : Edge} (he : e ∈ edges parent) :
    ∃ other outer d, Live larger other outer above ∧
      (other = [] ∨ isKind outer "JSXIdentifier" = false) ∧ d ∈ edges outer ∧ d.child = e.child ∧
      childRole outer d above = childRole parent e above ∧
      isTagReference outer d = isTagReference parent e := by
  -- Below the first step nothing differs but the path.
  induction hlive generalizing e with
  | root =>
    obtain ⟨d, hd, hsame⟩ := h e he
    exact ⟨[], larger, d, .root, .inl rfl, hd, hsame⟩
  | @step path parent top above role before inner child gives ih =>
    obtain ⟨other, outer, d, hlive, hfree, hd, hchild, hrole, _⟩ := ih inner child
    have hnext := Live.step hlive hfree hd (hrole.trans gives)
    rw [hchild] at hnext
    exact ⟨d.step :: other, top.child, e, hnext, .inr (hinner.resolve_left (by simp)), he, rfl, rfl, rfl⟩

/-- An occurrence goes on to be one. -/
theorem KeepsChildren.occurs {root larger : Value} (h : KeepsChildren root larger) {name : String}
    {o : Occurrence} (ho : Occurs root name o) :
    ∃ other, Occurs larger name ⟨o.role, other, o.node⟩ := by
  cases ho with
  | identifier before inner child gives kind named =>
    obtain ⟨other, outer, d, hlive, hfree, hd, hchild, hrole, _⟩ := h.place before inner child
    rw [← hchild] at kind named ⊢
    exact ⟨_, .identifier hlive hfree hd (hrole.trans gives) kind named⟩
  | tag before inner child gives kind named stands =>
    obtain ⟨other, outer, d, hlive, hfree, hd, hchild, hrole, htag⟩ := h.place before inner child
    rw [← hchild] at kind named ⊢
    exact ⟨_, .tag hlive hfree hd (hrole.trans gives) kind named (htag.trans stands)⟩

/-- What is used outside in a tree is so in one that takes over its children. -/
theorem KeepsChildren.usedBeyond {root larger : Value} (h : KeepsChildren root larger) {name : String}
    {stretches : List (Int × Int)} (hused : UsedBeyond root name stretches) :
    UsedBeyond larger name stretches := by
  obtain ⟨o, ho, hrole, hout⟩ := hused
  obtain ⟨other, hother⟩ := h.occurs ho
  exact ⟨_, hother, hrole, hout⟩

/-- A question that is answered with true in a tree is so in one that takes over its children. -/
theorem KeepsChildren.answer {root larger : Value} (h : KeepsChildren root larger)
    (hroot : isNode root = true) (hspans : HasPlainSpans root) (hlarger : isNode larger = true)
    (hmore : HasPlainSpans larger) {q : Question} (hplain : q.IsPlain)
    (htrue : q.answer (.scan root) = .ok true) : q.answer (.scan larger) = .ok true := by
  obtain ⟨name, hname⟩ := hplain.1
  obtain ⟨o, ho, hrole, houtside⟩ := (scan_answer_decides hroot hspans hplain hname).ok_true_iff.mp htrue
  obtain ⟨other, hother⟩ := h.occurs ho
  exact (scan_answer_decides hlarger hmore hplain hname).ok_true_iff.mpr ⟨_, hother, hrole, houtside⟩

/-! ## Statements that are put into a program -/

/-- The program with other statements. -/
def setBody (program : Value) (statements : List Value) : Value :=
  match program with
  | .obj fields => .obj (Fields.put fields "body" (.arr statements))
  | other => other

/-- The program with one more statement at its end. -/
def appendStatement (program statement : Value) : Value :=
  match fieldOf program "body" with
  | .arr statements => setBody program (statements ++ [statement])
  | _ => program

/-- The value is a program with a row of statements, and all spans in it are whole numbers or missing. -/
structure PlainProgram (program : Value) : Prop where
  kind : isKind program "Program" = true
  body : ∃ statements, fieldOf program "body" = .arr statements
  spans : HasPlainSpans program

theorem PlainProgram.isNode {program : Value} (h : PlainProgram program) :
    Syntax.isNode program = true :=
  isNode_of_isKind h.kind

section Bodies

variable {program : Value} (h : isKind program "Program" = true)

include h

theorem mem_edges_iff_of_body {statements : List Value}
    (hbody : fieldOf program "body" = .arr statements) {e : Edge} :
    e ∈ edges program ↔ ∃ i s, statements[i]? = some s ∧ isNode s = true ∧
      e = ⟨⟨"body", some i⟩, s⟩ := by
  obtain ⟨fields, _, rfl, _⟩ := isNode_iff.mp (isNode_of_isKind h)
  exact mem_edges_program_iff h hbody

theorem isKind_setBody (statements : List Value) : isKind (setBody program statements) "Program" = true := by
  obtain ⟨fields, _, rfl, _⟩ := isNode_iff.mp (isNode_of_isKind h)
  rw [setBody, isKind_obj_iff, Fields.get_put_of_ne _ _ (by decide)]
  exact isKind_obj_iff.mp h

theorem fieldOf_setBody (statements : List Value) :
    fieldOf (setBody program statements) "body" = .arr statements := by
  obtain ⟨fields, _, rfl, _⟩ := isNode_iff.mp (isNode_of_isKind h)
  rw [setBody, fieldOf_obj, Fields.get_put_self]

theorem span_setBody (statements : List Value) : span (setBody program statements) = span program := by
  obtain ⟨fields, _, rfl, _⟩ := isNode_iff.mp (isNode_of_isKind h)
  simp only [setBody, span, spanOf, Fields.get_put_of_ne _ _ (by decide : "start" ≠ "body"),
    Fields.get_put_of_ne _ _ (by decide : "end" ≠ "body"),
    Fields.get_put_of_ne _ _ (by decide : "range" ≠ "body")]

/-- A statement is used, unless it is a type. -/
theorem childRole_statement (i : Nat) (s : Value) :
    childRole program ⟨⟨"body", some i⟩, s⟩ .reference =
      if isTypeKind ((kind? s).getD "") then none else some .reference := by
  have htyped : typedExpressionFields.lookup "Program" = none := by decide
  simp [childRole, isKind_iff.mp h, typeFields, htyped, plainRole, importKinds]

theorem isTagReference_statement (i : Nat) (s : Value) :
    isTagReference program ⟨⟨"body", some i⟩, s⟩ = .ok false := by
  simp [isTagReference, isKind_iff.mp h]

/-- Statements that stay in the program stay what they are, wherever they stand. -/
theorem keepsChildren_setBody {statements others : List Value}
    (hbody : fieldOf program "body" = .arr statements) (hkept : statements ⊆ others) :
    KeepsChildren program (setBody program others) := by
  intro e he
  obtain ⟨i, s, hs, hnode, rfl⟩ := (mem_edges_iff_of_body h hbody).mp he
  obtain ⟨j, hj⟩ := List.mem_iff_getElem?.mp (hkept (List.mem_of_getElem? hs))
  have hkind := isKind_setBody h others
  refine ⟨⟨⟨"body", some j⟩, s⟩, ?_, rfl, ?_, ?_⟩
  · exact (mem_edges_iff_of_body hkind (fieldOf_setBody h others)).mpr ⟨j, s, hj, hnode, rfl⟩
  · rw [childRole_statement h, childRole_statement hkind]
  · rw [isTagReference_statement h, isTagReference_statement hkind]

end Bodies

section Inserted

variable {program statement : Value} {front back : List Value} (h : PlainProgram program)
  (hbody : fieldOf program "body" = .arr (front ++ back)) (hstatement : HasPlainSpans statement)

include h hbody

theorem PlainProgram.keepsChildren_insert :
    KeepsChildren program (setBody program (front ++ statement :: back)) := by
  refine keepsChildren_setBody h.kind hbody ?_
  exact List.append_subset.mpr ⟨List.subset_append_left _ _,
    fun s hs => List.mem_append_right _ (List.mem_cons_of_mem _ hs)⟩

include hstatement

theorem PlainProgram.insert : PlainProgram (setBody program (front ++ statement :: back)) := by
  have hkind := isKind_setBody h.kind (front ++ statement :: back)
  have hfield := fieldOf_setBody h.kind (front ++ statement :: back)
  refine ⟨hkind, ⟨_, hfield⟩, everywhere_iff.mpr ⟨?_, fun e he => ?_⟩⟩
  · obtain ⟨use, huse, hwhole⟩ := (everywhere_iff.mp h.spans).1
    exact ⟨use, (span_setBody h.kind _).trans huse, hwhole⟩
  · obtain ⟨i, s, hs, hnode, rfl⟩ := (mem_edges_iff_of_body hkind hfield).mp he
    have hold : ∀ t ∈ front ++ back, Syntax.isNode t = true → HasPlainSpans t := by
      intro t ht hnode
      obtain ⟨j, hj⟩ := List.mem_iff_getElem?.mp ht
      exact (everywhere_iff.mp h.spans).2 _
        ((mem_edges_iff_of_body h.kind hbody).mpr ⟨j, t, hj, hnode, rfl⟩)
    have hmem : s = statement ∨ s ∈ front ++ back := by
      simpa [or_left_comm] using List.mem_of_getElem? hs
    rcases hmem with rfl | hmem
    · exact hstatement
    · exact hold s hmem hnode

end Inserted

/-! ## Resolvers of a program that grows -/

/-- What happens to a resolver while its program grows. -/
inductive Act where
  /-- It is asked about a name and nodes that do not count. -/
  | ask (name : String) (nodes : List Value)
  /-- A statement is put at the end of the program. -/
  | append (statement : Value)

/-- All spans that are brought in are whole numbers or missing. -/
def Act.IsPlain : Act → Prop
  | .ask _ nodes => ∀ node ∈ nodes, HasPlainSpan node
  | .append statement => HasPlainSpans statement

/-- The program after an act. -/
def Act.program (program : Value) : Act → Value
  | .ask _ _ => program
  | .append statement => appendStatement program statement

namespace Resolver

/-- The resolver after an act. -/
def act (resolver : Resolver) : Act → Resolver
  | .ask name nodes => (resolver.ask (.str name) nodes).2
  | .append statement =>
    match resolver.strategy with
    | .scan program => resolver.setProgram (appendStatement program statement)
    | _ => resolver

/-- The resolver searches the program.  Its answers were kept for plain questions, and those that are true
are still right. -/
structure Trusts (resolver : Resolver) (program : Value) : Prop where
  searches : resolver.strategy = .scan program
  shape : PlainProgram program
  plain : ∀ kept ∈ resolver.memo, kept.1.IsPlain
  right : ∀ kept ∈ resolver.memo, kept.2 = true → kept.1.answer (.scan program) = .ok true

end Resolver

theorem appendStatement_eq {program : Value} {statements : List Value}
    (hbody : fieldOf program "body" = .arr statements) (statement : Value) :
    appendStatement program statement = setBody program (statements ++ statement :: []) := by
  rw [appendStatement, hbody]

/-- A program with one more statement at its end. -/
theorem PlainProgram.append {program statement : Value} (h : PlainProgram program)
    (hstatement : HasPlainSpans statement) :
    PlainProgram (appendStatement program statement) ∧
      KeepsChildren program (appendStatement program statement) := by
  obtain ⟨statements, hbody⟩ := h.body
  rw [appendStatement_eq hbody]
  rw [← List.append_nil statements] at hbody
  exact ⟨h.insert hbody hstatement, h.keepsChildren_insert hbody⟩

namespace Resolver.Trusts

variable {resolver : Resolver} {program : Value}

/-- A question changes nothing, or adds the right answer. -/
theorem ask (h : resolver.Trusts program) {name : String} {nodes : List Value}
    (hnodes : ∀ node ∈ nodes, HasPlainSpan node) : (resolver.ask (.str name) nodes).2.Trusts program := by
  obtain ⟨q, hq, hplain, hname, _⟩ := Question.of_plain name hnodes
  rw [Resolver.ask, hq]
  dsimp only
  cases hkept : resolver.kept? q with
  | some answer => exact h
  | none =>
    rw [h.searches]
    cases hanswer : q.answer (.scan program) with
    | error fault => exact h
    | ok answer =>
      refine ⟨rfl, h.shape, fun kept hmem => ?_, fun kept hmem htrue => ?_⟩
      · rcases List.mem_append.mp hmem with hmem | hmem
        · exact h.plain kept hmem
        · rw [List.mem_singleton.mp hmem]
          exact hplain
      · rcases List.mem_append.mp hmem with hmem | hmem
        · exact h.right kept hmem htrue
        · obtain rfl := List.mem_singleton.mp hmem
          exact hanswer.trans (congrArg Except.ok htrue)

/-- One act keeps the true answers right. -/
theorem act (h : resolver.Trusts program) {a : Act} (ha : a.IsPlain) :
    (resolver.act a).Trusts (a.program program) := by
  cases a with
  | ask name nodes => exact h.ask ha
  | append statement =>
    obtain ⟨hmore, hkeeps⟩ := h.shape.append ha
    have hset : resolver.act (.append statement) =
        { resolver with strategy := .scan (appendStatement program statement) } := by
      rw [Resolver.act, h.searches]
      simp only [setProgram, h.searches]
    rw [hset]
    refine ⟨rfl, hmore, h.plain, fun kept hmem htrue => ?_⟩
    exact hkeeps.answer h.shape.isNode h.shape.spans hmore.isNode hmore.spans (h.plain kept hmem)
      (h.right kept hmem htrue)

/-- Any row of acts keeps the true answers right. -/
theorem acts (h : resolver.Trusts program) {acts : List Act} (hacts : ∀ a ∈ acts, a.IsPlain) :
    (acts.foldl Resolver.act resolver).Trusts (acts.foldl Act.program program) := by
  induction acts generalizing resolver program with
  | nil => exact h
  | cons a rest ih =>
    obtain ⟨ha, hrest⟩ := List.forall_mem_cons.mp hacts
    exact ih (h.act ha) hrest

end Resolver.Trusts

theorem trusts_ofStrategy {program : Value} (h : PlainProgram program) :
    (Resolver.ofStrategy (.scan program)).Trusts program :=
  ⟨rfl, h, nofun, nofun⟩

namespace Resolver.Trusts

variable {resolver : Resolver} {program : Value}

/-- An answer that was kept is right if it is true. -/
theorem kept (h : resolver.Trusts program) {q : Question} (hplain : q.IsPlain)
    (hkept : resolver.kept? q = some true) : q.answer (.scan program) = .ok true := by
  obtain ⟨entry, hfind, htrue⟩ := Option.map_eq_some_iff.mp hkept
  have hmem := List.mem_of_find?_eq_some hfind
  have halike : entry.1.alike q = true := by simpa using List.find?_some hfind
  rw [← Question.answer_congr (h.plain entry hmem) hplain halike]
  exact h.right entry hmem htrue

/-- A question is answered, and not with true where that is wrong.  Where the answer is wrong, it was
kept. -/
theorem answer (h : resolver.Trusts program) (name : String) {nodes : List Value}
    (hnodes : ∀ node ∈ nodes, HasPlainSpan node) :
    ∃ given right, (resolver.ask (.str name) nodes).1 = .ok given ∧
      freshAnswer program name nodes = .ok right ∧ (given = true → right = true) ∧
      (given ≠ right → ∃ q, Question.of (.str name) nodes = .ok q ∧ resolver.kept? q = some false) := by
  obtain ⟨q, hq, hplain, hname, _⟩ := Question.of_plain name hnodes
  obtain ⟨right, hright⟩ :=
    (scan_answer_decides h.shape.isNode h.shape.spans hplain hname).exists_ok
  rw [freshAnswer_eq hq hplain, hright, Resolver.ask, hq]
  dsimp only
  cases hkept : resolver.kept? q with
  | none =>
    rw [h.searches, hright]
    exact ⟨right, right, rfl, rfl, id, fun hne => absurd rfl hne⟩
  | some known =>
    refine ⟨known, right, rfl, rfl, fun htrue => ?_, fun hne => ⟨q, rfl, ?_⟩⟩
    · rw [htrue] at hkept
      exact Except.ok.inj (hright.symm.trans (h.kept hplain hkept))
    · cases known with
      | false => exact hkept
      | true => exact absurd (Except.ok.inj ((h.kept hplain hkept).symm.trans hright)) hne

end Resolver.Trusts

/-! ## Monotonicity -/

/-- How the answer to a question changes with the excluded nodes and with the program.  All that it depends on
are the ends of the excluded spans; excluding more can only make it false, and one more statement, wherever
it is put in, can only make it true.  After any row of questions and statements at the end, the kept
answers that are true are right for the program as it is, and an answer that is not right is a kept one
that is false. -/
theorem answer_monotone (program : Value) (h : PlainProgram program) :
    (∀ name nodes others, (∀ node ∈ nodes, HasPlainSpan node) → (∀ node ∈ others, HasPlainSpan node) →
      (∀ stretch, stretch ∈ extents nodes ↔ stretch ∈ extents others) →
      ∃ answer, freshAnswer program name nodes = .ok answer ∧
        freshAnswer program name others = .ok answer) ∧
    (∀ name nodes others, (∀ node ∈ others, HasPlainSpan node) → nodes ⊆ others →
      ∃ few many, freshAnswer program name nodes = .ok few ∧ freshAnswer program name others = .ok many ∧
        (many = true → few = true)) ∧
    (∀ front back statement name nodes, fieldOf program "body" = .arr (front ++ back) →
      HasPlainSpans statement → (∀ node ∈ nodes, HasPlainSpan node) →
      ∃ before after, freshAnswer program name nodes = .ok before ∧
        freshAnswer (setBody program (front ++ statement :: back)) name nodes = .ok after ∧
        (before = true → after = true)) ∧
    (∀ acts : List Act, (∀ a ∈ acts, a.IsPlain) →
      let resolver := acts.foldl Resolver.act (Resolver.ofStrategy (.scan program))
      let current := acts.foldl Act.program program
      resolver.strategy = .scan current ∧
      (∀ kept ∈ resolver.memo, kept.2 = true → kept.1.answer (.scan current) = .ok true) ∧
      ∀ name nodes, (∀ node ∈ nodes, HasPlainSpan node) →
        ∃ given right, (resolver.ask (.str name) nodes).1 = .ok given ∧
          freshAnswer current name nodes = .ok right ∧ (given = true → right = true) ∧
          (given ≠ right → ∃ q, Question.of (.str name) nodes = .ok q ∧
            resolver.kept? q = some false)) := by
  refine ⟨?_, ?_, ?_, ?_⟩
  · intro name nodes others hnodes hothers hsame
    have hiff : UsedBeyond program name (extents nodes) ↔ UsedBeyond program name (extents others) :=
      ⟨fun hused => hused.of_subset fun _ => (hsame _).mpr, fun hused => hused.of_subset fun _ => (hsame _).mp⟩
    have hdecides := (freshAnswer_decides h.isNode h.spans hnodes).congr hiff
    obtain ⟨answer, hanswer⟩ := hdecides.exists_ok
    exact ⟨answer, hanswer, (freshAnswer_decides h.isNode h.spans hothers).eq hdecides ▸ hanswer⟩
  · intro name nodes others hothers hsubset
    have hnodes : ∀ node ∈ nodes, HasPlainSpan node := fun node hnode => hothers node (hsubset hnode)
    obtain ⟨many, few, hmany, hfew, hle⟩ :=
      (freshAnswer_decides h.isNode h.spans hothers).exists_imp
        (freshAnswer_decides h.isNode h.spans hnodes)
        fun hused => hused.of_subset (List.filterMap_subset extent? hsubset)
    exact ⟨few, many, hfew, hmany, hle⟩
  · intro front back statement name nodes hbody hstatement hnodes
    have hmore := h.insert hbody hstatement
    exact (freshAnswer_decides h.isNode h.spans hnodes).exists_imp
      (freshAnswer_decides hmore.isNode hmore.spans hnodes) (h.keepsChildren_insert hbody).usedBeyond
  · intro acts hacts resolver current
    have htrusts : resolver.Trusts current := (trusts_ofStrategy h).acts hacts
    exact ⟨htrusts.searches, htrusts.right, fun name nodes hnodes => htrusts.answer name hnodes⟩

/-- To the program `b;` a statement `a;` is added after both names were asked about: the answer for `a` is
now out of date, the one for `b` is not. -/
theorem answer_monotone_stale :
    let statement (text : String) (start : Int) : Value := .obj [("type", .str "ExpressionStatement"),
      ("start", .int start), ("end", .int (start + 2)), ("expression", .obj [("type", .str "Identifier"),
        ("name", .str text), ("start", .int start), ("end", .int (start + 1))])]
    let program : Value := .obj [("type", .str "Program"), ("body", .arr [statement "b" 0])]
    let acts := [Act.ask "a" [], .ask "b" [], .append (statement "a" 3)]
    let resolver := acts.foldl Resolver.act (Resolver.ofStrategy (.scan program))
    let current := acts.foldl Act.program program
    PlainProgram program ∧ (∀ a ∈ acts, a.IsPlain) ∧
      (resolver.ask (.str "a") []).1 = .ok false ∧ freshAnswer current "a" [] = .ok true ∧
      (∃ q, Question.of (.str "a") [] = .ok q ∧ resolver.kept? q = some false) ∧
      (resolver.ask (.str "b") []).1 = .ok true ∧ freshAnswer current "b" [] = .ok true := by
  intro statement program acts resolver current
  have hspan : ∀ fields start stop, spanOf fields = some ⟨.int start, .int stop⟩ →
      HasPlainSpan (.obj fields) := by
    intro fields start stop hfields
    refine ⟨_, congrArg Except.ok hfields, ?_⟩
    rintro _ ⟨⟩
    exact ⟨start, stop, rfl, rfl⟩
  have hstatement : ∀ text start, HasPlainSpans (statement text start) := by
    intro text start
    refine everywhere_iff.mpr ⟨hspan _ start (start + 2) rfl, fun e he => ?_⟩
    obtain rfl := List.mem_singleton.mp he
    exact everywhere_iff.mpr ⟨hspan _ start (start + 1) rfl, fun e he => by cases he⟩
  have hprogram : PlainProgram program := by
    refine ⟨rfl, ⟨_, rfl⟩, everywhere_iff.mpr ⟨⟨none, rfl, nofun⟩, fun e he => ?_⟩⟩
    obtain rfl := List.mem_singleton.mp he
    exact hstatement "b" 0
  have hacts : ∀ a ∈ acts, a.IsPlain := by
    simp only [acts, List.forall_mem_cons]
    exact ⟨nofun, nofun, hstatement "a" 3, nofun⟩
  obtain ⟨_, _, hanswer⟩ := (answer_monotone program hprogram).2.2.2 acts hacts
  have ha : (resolver.ask (.str "a") []).1 = .ok false := toOption_eq_some_iff.mp (by decide +kernel)
  have hb : (resolver.ask (.str "b") []).1 = .ok true := toOption_eq_some_iff.mp (by decide +kernel)
  have hfresh : freshAnswer current "a" [] = .ok true := toOption_eq_some_iff.mp (by decide +kernel)
  obtain ⟨given, right, hgiven, hright, _, hstale⟩ := hanswer "a" [] nofun
  cases ha.symm.trans hgiven
  cases hfresh.symm.trans hright
  obtain ⟨given, right, hgiven, hright, hkept, _⟩ := hanswer "b" [] nofun
  cases hb.symm.trans hgiven
  exact ⟨hprogram, hacts, ha, hfresh, hstale (by decide), hb, hkept rfl ▸ hright⟩

end TreeLint.Usage

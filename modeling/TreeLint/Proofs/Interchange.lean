/-
  A table in place of the program.

  A table mirrors a program when it records, for every name, each occurrence of the name in the program
  once, in any order.  A resolver with such a table and one that searches the program give the same
  answers and keep the same ones, so that the rule about exports has the same outcome with either.
-/
import TreeLint.Proofs.ExportShape
import TreeLint.Proofs.OccurrencePath
import TreeLint.Proofs.Tree
import TreeLint.Proofs.Uses
import TreeLint.Rule.Engine

set_option autoImplicit false

namespace TreeLint.Usage

open TreeLint.Json TreeLint.Syntax

/-! ## Tables that mirror a program -/

/-- The entry records the occurrence: its role, and its span, which is missing or made of whole
numbers. -/
def Records (o : Occurrence) (entry : Value) : Prop :=
  ∃ fields, entry = .obj fields ∧ fields.lookup "kind" = some (.str o.role.name) ∧
    span o.node = .ok (spanOf fields) ∧ hasWholeSpan fields = true

/-- For every name the table has a list, in any order, with one entry for each occurrence in the
program.  A name that does not occur may be missing. -/
def Mirrors (table : Fields) (program : Value) : Prop :=
  ∀ name : String, ∃ found entries row, occurrences program (.str name) = found.map .ok ∧
    (Fields.get table name).orEmpty = .arr entries ∧ row.Perm entries ∧
    List.Forall₂ Records found row

/-- A recorded occurrence is a use when its entry records a use. -/
theorem Records.role_eq_iff {o : Occurrence} {fields : Fields} (h : Records o (.obj fields)) :
    o.role = .reference ↔ Strategy.RecordsUse fields := by
  obtain ⟨_, heq, hkind, _⟩ := h
  cases heq
  rw [Strategy.RecordsUse, hkind]
  cases o.role <;> simp [Role.name]

theorem Records.hasPlainSpan {o : Occurrence} {entry : Value} (h : Records o entry) :
    HasPlainSpan o.node := by
  obtain ⟨fields, _, _, hspan, hwhole⟩ := h
  refine ⟨_, hspan, fun s hs => ?_⟩
  rw [hasWholeSpan, hs] at hwhole
  exact Span.isWhole_iff.mpr hwhole

/-- The uses that are recorded are the uses that are found. -/
theorem recordedUse_iff_foundUse {found : List Occurrence} {row : List Value}
    (h : List.Forall₂ Records found row) (use : Option Span) :
    Strategy.RecordedUse row use ↔ Strategy.FoundUse found use := by
  induction h with
  | nil => simp [Strategy.RecordedUse, Strategy.FoundUse]
  | @cons o entry found row hhere _ ih =>
    obtain ⟨fields, rfl, _, hspan, _⟩ := id hhere
    constructor
    · rintro ⟨content, hentry, hrecords, heq⟩
      rcases List.mem_cons.mp hentry with hentry | hentry
      · cases hentry
        exact ⟨o, List.mem_cons_self, hhere.role_eq_iff.mpr hrecords, by rw [hspan, heq]⟩
      · obtain ⟨other, hother, huse⟩ := ih.mp ⟨content, hentry, hrecords, heq⟩
        exact ⟨other, List.mem_cons_of_mem _ hother, huse⟩
    · rintro ⟨other, hother, hrole, heq⟩
      rcases List.mem_cons.mp hother with rfl | hother
      · refine ⟨fields, List.mem_cons_self, hhere.role_eq_iff.mp hrole, ?_⟩
        exact Except.ok.inj (hspan.symm.trans heq)
      · obtain ⟨content, hentry, huse⟩ := ih.mpr ⟨other, hother, hrole, heq⟩
        exact ⟨content, List.mem_cons_of_mem _ hentry, huse⟩

/-- The program and a table that mirrors it list the same uses of every name. -/
theorem Mirrors.lists {table : Fields} {program : Value} (h : Mirrors table program) (name : String) :
    ∃ P, (Strategy.table (Table.ofFields table)).Lists name P ∧
      (Strategy.scan program).Lists name P := by
  obtain ⟨found, entries, row, hfound, hentries, hperm, hrecords⟩ := h name
  have hplain : ∀ o ∈ found, HasPlainSpan o.node := by
    intro o ho
    obtain ⟨i, hi, rfl⟩ := List.getElem_of_mem ho
    exact (hrecords.get hi (hrecords.length_eq ▸ hi)).hasPlainSpan
  have hentry : ∀ entry ∈ entries, Strategy.IsPlainEntry entry := by
    intro entry hentry
    obtain ⟨i, hi, rfl⟩ := List.getElem_of_mem (hperm.mem_iff.mpr hentry)
    obtain ⟨fields, heq, _, _, hwhole⟩ := hrecords.get (hrecords.length_eq ▸ hi) hi
    exact ⟨fields, heq, hwhole⟩
  obtain ⟨uses, huses, hwhole, hmem⟩ := Strategy.table_lists hentries hentry
  refine ⟨Strategy.FoundUse found, ⟨uses, huses, hwhole, fun use => ?_⟩,
    Strategy.scan_lists hfound hplain⟩
  rw [hmem, ← recordedUse_iff_foundUse hrecords]
  simp only [Strategy.RecordedUse, hperm.mem_iff]

/-! ## Resolvers in step -/

/-- Two resolvers that have kept the same answers, and list the same uses of a name, give the same
answer to a question about the name and keep the same answers afterwards. -/
theorem ask_eq_ask {a b : Strategy} {name : String} {P : Option Span → Prop} (ha : a.Lists name P)
    (hb : b.Lists name P) {nodes : List Value} (hnodes : ∀ node ∈ nodes, HasPlainSpan node)
    (memo : List (Question × Bool)) :
    ∃ answer after, (Resolver.mk a memo).ask (.str name) nodes = (.ok answer, ⟨a, after⟩) ∧
      (Resolver.mk b memo).ask (.str name) nodes = (.ok answer, ⟨b, after⟩) := by
  obtain ⟨q, hq, hplain, hname, _⟩ := Question.of_plain name hnodes
  obtain ⟨answer, hanswer⟩ := (ha.answer_decides hplain hname).exists_ok
  have hsame : q.answer b = .ok answer := (ha.answer_eq hb hplain hname).symm.trans hanswer
  have hkept : ∀ strategy, (Resolver.mk strategy memo).kept? q = (Resolver.mk a memo).kept? q :=
    fun _ => rfl
  simp only [Resolver.ask, hq, hkept b]
  cases (Resolver.mk a memo).kept? q with
  | some kept => exact ⟨kept, memo, rfl, rfl⟩
  | none => exact ⟨answer, memo ++ [(q, answer)], by simp only [hanswer], by simp only [hsame]⟩

end TreeLint.Usage

namespace TreeLint.Rule

open TreeLint.Json TreeLint.Syntax TreeLint.Usage

/-! ## The rule about exports -/

/-- The name that the statement exports by default, if it does, is a text, and its span is plain. -/
def NamesText (s : Value) : Prop :=
  ∀ name, defaultName s = .ok name → name = .null ∨ (∃ n, name = .str n) ∧ HasPlainSpan s

section InStep

variable {a b : Strategy} (declared : Gathered)

/-- One question about a name. -/
theorem isUsedVariable_congr {name : String} {s : Value}
    (h : ∃ P, a.Lists name P ∧ b.Lists name P) (hs : HasPlainSpan s)
    (memo : List (Question × Bool)) :
    ∃ used after, isUsedVariable declared (.str name) s ⟨a, memo⟩ = .ok (used, ⟨a, after⟩) ∧
      isUsedVariable declared (.str name) s ⟨b, memo⟩ = .ok (used, ⟨b, after⟩) := by
  have hkey : (Value.str name).key = .ok (.str name) := rfl
  simp only [isUsedVariable, hkey, ok_bind, pure_eq_ok]
  split
  · exact ⟨false, memo, rfl, rfl⟩
  · split
    · obtain ⟨P, ha, hb⟩ := h
      have hnodes : ∀ node ∈ [s], HasPlainSpan node := by simpa using hs
      obtain ⟨used, after, hfirst, hsecond⟩ := ask_eq_ask ha hb hnodes memo
      exact ⟨used, after, by simp only [hfirst, ok_bind], by simp only [hsecond, ok_bind]⟩
    · exact ⟨false, memo, rfl, rfl⟩

/-- One statement of the pass for default exports. -/
theorem exportsBareName_congr {s : Value} (h : ∀ name, ∃ P, a.Lists name P ∧ b.Lists name P)
    (hs : NamesText s) (memo : List (Question × Bool)) :
    (∃ fault, exportsBareName declared s ⟨a, memo⟩ = .error fault ∧
        exportsBareName declared s ⟨b, memo⟩ = .error fault) ∨
      ∃ bare after, exportsBareName declared s ⟨a, memo⟩ = .ok (bare, ⟨a, after⟩) ∧
        exportsBareName declared s ⟨b, memo⟩ = .ok (bare, ⟨b, after⟩) := by
  unfold exportsBareName
  cases hname : defaultName s with
  | error fault => exact .inl ⟨fault, rfl, rfl⟩
  | ok name =>
    simp only [ok_bind, pure_eq_ok]
    rcases hs name hname with rfl | ⟨⟨n, rfl⟩, hspan⟩
    · exact .inr ⟨false, memo, rfl, rfl⟩
    · obtain ⟨used, after, hfirst, hsecond⟩ := isUsedVariable_congr declared (h n) hspan memo
      refine .inr ⟨!used, after, ?_, ?_⟩
      · simp [Value.isNull, hfirst]
      · simp [Value.isNull, hsecond]

/-- The pass for default exports does not tell the two resolvers apart: the invariant is that they
have kept the same answers. -/
theorem reportBareNames_congr {context other : Context} {statements : List Value}
    (hreport : context.report = other.report) (h : ∀ name, ∃ P, a.Lists name P ∧ b.Lists name P)
    (hs : ∀ s ∈ statements, NamesText s) (memo : List (Question × Bool)) :
    reportBareNames context declared ⟨a, memo⟩ statements =
      reportBareNames other declared ⟨b, memo⟩ statements := by
  induction statements generalizing memo with
  | nil => rfl
  | cons s rest ih =>
    have hrest := ih fun t ht => hs t (List.mem_cons_of_mem _ ht)
    rw [reportBareNames, reportBareNames, hreport]
    rcases exportsBareName_congr declared h (hs s List.mem_cons_self) memo with
      ⟨fault, hfirst, hsecond⟩ | ⟨bare, after, hfirst, hsecond⟩
    · rw [hfirst, hsecond]
      rfl
    · rw [hfirst, hsecond]
      simp only [ok_bind, hrest after]

end InStep

/-- The pass for exports that stand too early needs the reports only. -/
theorem reportMisplaced_congr {context other : Context} (hreport : context.report = other.report)
    (allowReExport : Bool) (pairs : List (Value × Bool)) :
    reportMisplaced context allowReExport pairs = reportMisplaced other allowReExport pairs := by
  induction pairs with
  | nil => rfl
  | cons pair rest ih =>
    obtain ⟨s, reported⟩ := pair
    rw [reportMisplaced, reportMisplaced, hreport, ih]

/-- With a table that mirrors the program the rule has the outcome that it has without one. -/
theorem checkExports_eq_of_mirrors {table : Fields} {program : Value} (h : Mirrors table program)
    (hnames : ∀ body statements, program.get "body" = .ok body → body.orEmpty.elements = .ok statements →
      ∀ s ∈ statements, NamesText s)
    (context : Context) :
    checkExports { context with bindings := .obj table } program =
      checkExports { context with bindings := .null } program := by
  unfold checkExports
  cases hbody : program.get "body" with
  | error fault => rfl
  | ok body =>
    simp only [ok_bind]
    split
    · rfl
    · cases hstatements : body.orEmpty.elements with
      | error fault => rfl
      | ok statements =>
        simp only [ok_bind]
        have hreport : Context.report { context with bindings := .obj table } =
            Context.report { context with bindings := .null } := rfl
        have hbare : ∀ declared, reportBareNames { context with bindings := .obj table } declared
              (Resolver.ofStrategy (Strategy.choose program (.obj table))) statements =
            reportBareNames { context with bindings := .null } declared
              (Resolver.ofStrategy (Strategy.choose program .null)) statements := fun declared =>
          reportBareNames_congr declared hreport h.lists (hnames body statements hbody hstatements) []
        -- The first two passes do not read the bindings at all.
        refine bind_congr fun lists => bind_congr fun aliases => bind_congr fun declared => ?_
        rw [hbare declared]
        refine bind_congr fun names => bind_congr fun count => ?_
        cases count with
        | none => rfl
        | some count =>
          dsimp only
          rw [reportMisplaced_congr hreport]

/-! ## The tree of a program -/

/-- Objects are found among the elements of lists only. -/
theorem eq_arr_of_obj_mem {body : Value} {elements : List Value} {fields : Fields}
    (helements : body.orEmpty.elements = .ok elements) (hmem : .obj fields ∈ elements) :
    body = .arr elements := by
  by_cases hpresent : body.truthy = true
  · rw [Value.orEmpty, if_pos hpresent] at helements
    cases body with
    | arr items => exact congrArg Value.arr (Except.ok.inj helements)
    | str text =>
      obtain rfl := Except.ok.inj helements
      simp at hmem
    | obj content =>
      obtain rfl := Except.ok.inj helements
      simp at hmem
    | _ => cases helements
  · rw [Value.orEmpty, if_neg hpresent] at helements
    obtain rfl := Except.ok.inj helements
    cases hmem

/-- In a program whose identifiers have texts for names, and whose nodes have plain spans, a default
export of a name is one of a text. -/
theorem namesText_of_tree {program : Value} (hkind : isKind program "Program" = true)
    (hidentifiers : ∀ visit ∈ preorder [] program, isKind visit.node "Identifier" = true →
      ∃ n, fieldOf visit.node "name" = .str n)
    (hspans : ∀ visit ∈ preorder [] program, HasPlainSpan visit.node)
    {body : Value} {statements : List Value} (hbody : program.get "body" = .ok body)
    (hstatements : body.orEmpty.elements = .ok statements) {s : Value} (hs : s ∈ statements) :
    NamesText s := by
  intro name hname
  rcases defaultName_eq_ok hname with hnull | ⟨hdefault, hidentifier, rfl⟩
  · exact .inl hnull
  · obtain ⟨content, _, rfl, _⟩ := isNode_iff.mp (isNode_of_isKind hkind)
    obtain ⟨fields, _, rfl, _⟩ := isNode_iff.mp (isNode_of_isKind hdefault)
    have hlist : fieldOf (.obj content) "body" = .arr statements :=
      (Except.ok.inj hbody).trans (eq_arr_of_obj_mem hstatements hs)
    obtain ⟨e, he, hchild⟩ := exists_edge_of_item hkind (by decide) hlist hs
      (isNode_of_isKind hdefault)
    have htree : ∀ visit ∈ preorder [e.step] (.obj fields), visit ∈ preorder [] (.obj content) :=
      fun visit hvisit => mem_preorder_of_child he (hchild ▸ hvisit)
    obtain ⟨e', he', hdeclaration⟩ := exists_edge_of_field hdefault (by decide)
      (isNode_of_isKind hidentifier)
    have hinner := htree _ (mem_preorder_of_child he' (self_mem_preorder _ _))
    obtain ⟨n, hn⟩ := hidentifiers _ hinner (hdeclaration ▸ hidentifier)
    rw [hdeclaration] at hn
    exact .inr ⟨⟨n, hn⟩, hspans _ (htree _ (self_mem_preorder _ _))⟩

/-! ## Whole runs -/

/-- What the rule about exports reports at a node depends on what it says of programs. -/
theorem checkNode_congr {context other : Context} (hrule : context.rule = .exportCodeLast)
    (hother : other.rule = .exportCodeLast) (root : Value) {visit : Visit}
    (h : isKind visit.node "Program" = true →
      checkExports context visit.node = checkExports other visit.node) :
    checkNode [context] root visit = checkNode [other] root visit := by
  have hlooks : looksAt .exportCodeLast visit.node = isKind visit.node "Program" := by
    simp [looksAt, info]
  by_cases hprogram : isKind visit.node "Program" = true
  · have hcheck : ∀ c : Context, c.rule = .exportCodeLast →
        check c root visit = checkExports c visit.node := by
      intro c hc
      rw [check, hc]
    simp only [checkNode, List.filter_cons, hrule, hother, hlooks, hprogram, if_true, List.filter_nil,
      List.mapM_cons, List.mapM_nil, hcheck context hrule, hcheck other hother, h hprogram]
  · simp [checkNode, hrule, hother, hlooks, hprogram]

/-- Over a program that holds no other one, the outcome of a run is settled by what the rule says of
the program. -/
theorem checkVisits_congr {context other : Context} (hrule : context.rule = .exportCodeLast)
    (hother : other.rule = .exportCodeLast) {program : Value}
    (hsingle : ∀ e ∈ edges program, ∀ visit ∈ preorder [e.step] e.child,
      isKind visit.node "Program" = false)
    (h : checkExports context program = checkExports other program) :
    checkVisits [context] program (preorder [] program) =
      checkVisits [other] program (preorder [] program) := by
  have hnodes : ∀ visit ∈ preorder [] program,
      checkNode [context] program visit = checkNode [other] program visit := by
    intro visit hvisit
    refine checkNode_congr hrule hother program fun hprogram => ?_
    rw [preorder_eq] at hvisit
    rcases List.mem_cons.mp hvisit with rfl | hbelow
    · exact h
    · obtain ⟨e, he, hmem⟩ := List.mem_flatMap.mp hbelow
      rw [hsingle e he visit hmem] at hprogram
      cases hprogram
  rw [checkVisits, checkVisits, mapM_congr hnodes]

end TreeLint.Rule

namespace TreeLint.Usage

open TreeLint.Json TreeLint.Syntax TreeLint.Rule

/-- Where every child has a role and none is a tag, the search looks at all children and goes on below
each of them. -/
theorem search_of_roles {name : Value} {place : Place} {rest : List Place} (roles : List Role)
    (hroles : (edges place.node).map (fun e => childRole place.node e place.role) = roles.map some)
    (htags : ∀ e ∈ edges place.node, isKind e.child "JSXIdentifier" = false) :
    search name (place :: rest) =
      ((edges place.node).zip roles).filterMap (fun child => place.occurrence? name child.1 child.2) ++
        search name (((edges place.node).zip roles).map (fun child => place.child child.1 child.2) ++
          rest) := by
  have hchildren : place.children = (edges place.node).zip roles := by
    rw [Place.children]
    generalize edges place.node = es at hroles
    induction es generalizing roles with
    | nil => rfl
    | cons e es ih =>
      cases roles with
      | nil => cases hroles
      | cons role roles =>
        obtain ⟨hhere, hrest⟩ := List.cons.inj hroles
        simp only [List.filterMap_cons, hhere, Option.map_some, List.zip_cons_cons, ih roles hrest]
  have hnext : place.next =
      ((edges place.node).zip roles).map fun child => place.child child.1 child.2 := by
    rw [Place.next, hchildren, ← List.filterMap_eq_map]
    refine List.filterMap_congr fun child hchild => ?_
    simp [htags child.1 (List.of_mem_zip hchild).1]
  rw [search, hnext, Place.found, hchildren]

/-- Where the only child is an identifier, with nothing below it, the search looks at it and is done. -/
theorem search_of_identifier {m n : String} {place : Place} {rest : List Place} {e : Edge} (role : Role)
    (hedges : edges place.node = [e]) (hrole : childRole place.node e place.role = some role)
    (hkind : isKind e.child "Identifier" = true) (hname : fieldOf e.child "name" = .str m)
    (hbelow : edges e.child = []) :
    search (.str n) (place :: rest) =
      (if m = n then [.ok ⟨role, e.step :: place.path, e.child⟩] else []) ++ search (.str n) rest := by
  have htag : isKind e.child "JSXIdentifier" = false :=
    Bool.eq_false_iff.mpr fun h => absurd (isKind_unique hkind h) (by decide)
  have hiff : ∀ x, place.occurrence? (.str n) e role = some x ↔
      m = n ∧ x = .ok ⟨role, e.step :: place.path, e.child⟩ := by
    intro x
    rw [occurrence?_eq_some_iff (isNode_of_isKind hkind)]
    simp [hname, hkind, htag]
  have hrest : search (.str n) (place.child e role :: rest) = search (.str n) rest := by
    simp [search, Place.found, Place.next, Place.children, Place.child, hbelow]
  rw [search_of_roles [role] (by simp [hedges, hrole]) (by simpa [hedges] using htag), hedges]
  simp only [List.zip_cons_cons, List.zip_nil_left, List.filterMap_cons, List.filterMap_nil,
    List.map_cons, List.map_nil, List.cons_append, List.nil_append, hrest]
  by_cases hsame : m = n
  · rw [(hiff _).mpr ⟨hsame, rfl⟩, if_pos hsame]
  · rw [Option.eq_none_iff_forall_ne_some.mpr fun x hx => hsame ((hiff x).mp hx).1, if_neg hsame]

/-- A table that mirrors a program stands in for the program.  Resolvers that have kept the same
answers give the same answer to each question about a text and nodes with plain spans, and keep the
same answers.  So, over a program that holds no other program and whose identifiers have texts for
names, the rule about exports has the same outcome with the table and without one. -/
theorem table_interchangeable (table : Fields) (program : Value) (hmirrors : Mirrors table program) :
    (∀ (memo : List (Question × Bool)) (name : String) (excluded : List Value),
      (∀ node ∈ excluded, HasPlainSpan node) → ∃ answer after,
        (Resolver.mk (.table (Table.ofFields table)) memo).ask (.str name) excluded =
          (.ok answer, ⟨.table (Table.ofFields table), after⟩) ∧
        (Resolver.mk (.scan program) memo).ask (.str name) excluded =
          (.ok answer, ⟨.scan program, after⟩)) ∧
    (isKind program "Program" = true →
      (∀ e ∈ edges program, ∀ visit ∈ preorder [e.step] e.child,
        isKind visit.node "Program" = false) →
      (∀ visit ∈ preorder [] program, isKind visit.node "Identifier" = true →
        ∃ n, fieldOf visit.node "name" = .str n) →
      (∀ visit ∈ preorder [] program, HasPlainSpan visit.node) →
      ∀ (options : Value) (debug : Bool) (text : Value),
        Engine.run ⟨[.exportCodeLast], options, debug⟩ program text (.obj table) =
          Engine.run ⟨[.exportCodeLast], options, debug⟩ program text .null) := by
  constructor
  · intro memo name excluded hexcluded
    obtain ⟨P, htable, hscan⟩ := hmirrors.lists name
    exact ask_eq_ask htable hscan hexcluded memo
  · intro hkind hsingle hidentifiers hspans options debug text
    have hrule : ∀ context : Context,
        checkExports { context with bindings := .obj table } program =
          checkExports { context with bindings := .null } program :=
      checkExports_eq_of_mirrors hmirrors fun body statements hbody hstatements s hs =>
        namesText_of_tree hkind hidentifiers hspans hbody hstatements hs
    unfold Engine.run
    refine bind_congr fun copied => ?_
    rw [walk_eq]
    cases checkedEdges program with
    | error fault => rfl
    | ok _ =>
      have hfound : checkVisits (Engine.contexts ⟨[.exportCodeLast], options, debug⟩ copied text
            (.obj table)) program (preorder [] program) =
          checkVisits (Engine.contexts ⟨[.exportCodeLast], options, debug⟩ copied text .null) program
            (preorder [] program) :=
        checkVisits_congr rfl rfl hsingle
          (hrule ⟨.exportCodeLast, optionsFor copied .exportCodeLast, ⟨text⟩, .null⟩)
      simp only [ok_bind, hfound]

/-- `let a; a; export default a;` and a table with the two uses and the binding in another order than the
search finds them.  The rule asks for uses outside the export; there is one, so it reports nothing. -/
theorem table_interchangeable_use :
    let name (start stop : Int) : Value := .obj [("type", .str "Identifier"), ("name", .str "a"),
      ("start", .int start), ("end", .int stop)]
    let declarator : Value := .obj [("type", .str "VariableDeclarator"), ("start", .int 4),
      ("end", .int 5), ("id", name 4 5)]
    let declaration : Value := .obj [("type", .str "VariableDeclaration"), ("kind", .str "let"),
      ("start", .int 0), ("end", .int 6), ("declarations", .arr [declarator])]
    let statement : Value := .obj [("type", .str "ExpressionStatement"), ("start", .int 7),
      ("end", .int 9), ("expression", name 7 8)]
    let default : Value := .obj [("type", .str "ExportDefaultDeclaration"), ("start", .int 10),
      ("end", .int 27), ("declaration", name 25 26)]
    let program : Value := .obj [("type", .str "Program"), ("start", .int 0), ("end", .int 27),
      ("body", .arr [declaration, statement, default])]
    let entry (role : Role) (start stop : Int) : Value :=
      .obj [("kind", .str role.name), ("range", .arr [.int start, .int stop])]
    let table : Fields :=
      [("a", .arr [entry .reference 25 26, entry .pattern 4 5, entry .reference 7 8])]
    Mirrors table program ∧
      (∃ answer after, (Resolver.mk (.table (Table.ofFields table)) []).ask (.str "a") [default] =
          (.ok answer, ⟨.table (Table.ofFields table), after⟩) ∧
        (Resolver.mk (.scan program) []).ask (.str "a") [default] =
          (.ok answer, ⟨.scan program, after⟩)) ∧
      ((Resolver.mk (.scan program) []).ask (.str "a") [default]).1 = .ok true ∧
      Engine.run ⟨[.exportCodeLast], .null, false⟩ program .null (.obj table) =
        Engine.run ⟨[.exportCodeLast], .null, false⟩ program .null .null ∧
      (Engine.run ⟨[.exportCodeLast], .null, false⟩ program .null .null).map List.length = .ok 0 := by
  intro name declarator declaration statement default program entry table
  have hfound : ∀ n, occurrences program (.str n) = if "a" = n then
      [.ok ⟨.pattern, [⟨"id", none⟩, ⟨"declarations", some 0⟩, ⟨"body", some 0⟩], name 4 5⟩,
        .ok ⟨.reference, [⟨"expression", none⟩, ⟨"body", some 1⟩], name 7 8⟩,
        .ok ⟨.reference, [⟨"declaration", none⟩, ⟨"body", some 2⟩], name 25 26⟩] else [] := by
    intro n
    rw [occurrences_eq_search _ (by decide)]
    calc search (.str n) [⟨[], program, .reference⟩]
      _ = search (.str n) [⟨[⟨"body", some 0⟩], declaration, .reference⟩,
            ⟨[⟨"body", some 1⟩], statement, .reference⟩, ⟨[⟨"body", some 2⟩], default, .reference⟩] :=
          search_of_roles [.reference, .reference, .reference] (by decide +kernel) (by decide)
      _ = search (.str n) [⟨[⟨"declarations", some 0⟩, ⟨"body", some 0⟩], declarator, .reference⟩,
            ⟨[⟨"body", some 1⟩], statement, .reference⟩, ⟨[⟨"body", some 2⟩], default, .reference⟩] :=
          search_of_roles [.reference] (by decide +kernel) (by decide)
      _ = _ := by
        rw [search_of_identifier .pattern rfl (by decide +kernel) rfl rfl rfl,
          search_of_identifier .reference rfl (by decide +kernel) rfl rfl rfl,
          search_of_identifier .reference rfl (by decide +kernel) rfl rfl rfl, search]
        split <;> rfl
  have hmirrors : Mirrors table program := by
    intro n
    by_cases hname : "a" = n
    · subst hname
      refine ⟨[_, _, _], _, [entry .pattern 4 5, entry .reference 7 8, entry .reference 25 26],
        (hfound "a").trans (if_pos rfl), rfl, ?_, ?_⟩
      · exact @List.perm_append_comm _ [entry .pattern 4 5, entry .reference 7 8] _
      · refine .cons ⟨_, rfl, rfl, rfl, by decide⟩ (.cons ⟨_, rfl, rfl, rfl, by decide⟩ (.cons ?_ .nil))
        exact ⟨_, rfl, rfl, rfl, by decide⟩
    · refine ⟨[], [], [], (hfound n).trans (if_neg hname), ?_, .nil, .nil⟩
      have hother := beq_false_of_ne (Ne.symm hname)
      simp [table, Fields.get, List.lookup_cons, hother, Value.orEmpty, Value.truthy]
  have hsingle : ∀ e ∈ edges program, ∀ visit ∈ preorder [e.step] e.child,
      isKind visit.node "Program" = false := by
    decide +kernel
  have hidentifiers : ∀ visit ∈ preorder [] program, isKind visit.node "Identifier" = true →
      ∃ n, fieldOf visit.node "name" = .str n := by
    have htexts : ∀ visit ∈ preorder [] program, isKind visit.node "Identifier" = true →
        (fieldOf visit.node "name").isText "a" = true := by
      decide +kernel
    exact fun visit hvisit hkind => ⟨"a", isText_iff.mp (htexts visit hvisit hkind)⟩
  have hspans : ∀ visit ∈ preorder [] program, HasPlainSpan visit.node := by
    have hextents : ∀ visit ∈ preorder [] program, (extent? visit.node).isSome = true := by
      decide +kernel
    exact fun visit hvisit => hasPlainSpan_of_extent? (hextents visit hvisit)
  have hdefault : HasPlainSpan default := hasPlainSpan_of_extent? (by decide)
  obtain ⟨hask, hrun⟩ := table_interchangeable table program hmirrors
  refine ⟨hmirrors, hask [] "a" [default] (by simpa using hdefault), by decide +kernel,
    hrun (by decide) hsingle hidentifiers hspans .null false .null, ?_⟩
  decide +kernel

end TreeLint.Usage

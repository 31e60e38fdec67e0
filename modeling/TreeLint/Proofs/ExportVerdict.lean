/-
  What the rule about exports says of each statement.

  A statement is reported under at most one message.  Which one it is follows from the statement, from
  what the program declares and where it uses it, and, for exports that stand too early, from the
  statements after it.  The passes of the rule look at one message each; their reports are put together
  in the order of the passes, and within a pass in the order of the statements.
-/
import TreeLint.Proofs.Declared
import TreeLint.Proofs.ExportShape
import TreeLint.Proofs.OccurrencePath
import TreeLint.Proofs.Uses
import TreeLint.Rule.Export

set_option autoImplicit false

namespace TreeLint.Rule

open TreeLint.Json TreeLint.Syntax TreeLint.Usage

/-! ## Verdicts -/

/-- What can be wrong with an export, in the order in which it is looked for. -/
inductive ExportMessage where
  /-- It lists local names. -/
  | specifiers
  /-- It exports a variable that only gives another name to something. -/
  | aliased
  /-- It exports a bare name by default. -/
  | bareName
  /-- It stands before a statement that is no export. -/
  | early
deriving DecidableEq, Repr

namespace ExportMessage

/-- The id of the message. -/
def id : ExportMessage → String
  | specifiers => "noExportSpecifiers"
  | aliased => "noExportAlias"
  | bareName => "noDefaultExportAlias"
  | early => "exportsLast"

/-- The number of the pass that looks for it. -/
def pass : ExportMessage → Nat
  | specifiers => 0
  | aliased => 1
  | bareName => 2
  | early => 3

/-- The messages in the order of the passes. -/
def all : List ExportMessage :=
  [specifiers, aliased, bareName, early]

theorem mem_all (m : ExportMessage) : m ∈ all := by
  cases m <;> decide

theorem pairwise_pass_all : all.Pairwise fun m m' => m.pass < m'.pass := by
  decide

end ExportMessage

/-- The name belongs to a variable, to no function and no class, and is used outside the statement. -/
structure UsedVariable (context : Context) (program s : Value) (name : String) : Prop where
  /-- Some declaration of the name is one of a variable. -/
  isVariable : DeclaredAs program name .variable
  /-- None is one of a function. -/
  noFunction : ¬ DeclaredAs program name .function
  /-- None is one of a class. -/
  noType : ¬ DeclaredAs program name .type
  /-- The name is used outside the statement. -/
  used : usedOutside (Strategy.choose program context.bindings) (.str name) [s] = .ok true

/-- The statement only adds a name to what is declared elsewhere; the message says how. -/
inductive AddsName (context : Context) (program s : Value) : ExportMessage → Prop
  /-- It lists local names, not only those of types. -/
  | specifiers (list : LocalList s) (values : ¬ TypesOnly s) : AddsName context program s .specifiers
  /-- It exports an alias. -/
  | aliased (renames : AliasExport s) : AddsName context program s .aliased
  /-- It exports a name by default that is not a variable used elsewhere. -/
  | bareName (name : String) (bare : DefaultOf s name)
      (unused : ¬ UsedVariable context program s name) : AddsName context program s .bareName

/-- Some later statement is no export. -/
def StandsEarly (statements : List Value) (i : Nat) : Prop :=
  ∃ j t, i < j ∧ statements[j]? = some t ∧ ¬ ExportStatement t

/-- The statement at a place is reported under the message. -/
inductive Verdict (context : Context) (program : Value) (statements : List Value) :
    Nat → ExportMessage → Prop
  /-- It only adds a name. -/
  | adds {i : Nat} {s : Value} {m : ExportMessage} (here : statements[i]? = some s)
      (adds : AddsName context program s m) : Verdict context program statements i m
  /-- It is an export that may not stand anywhere, does not only add a name, and stands too early. -/
  | early {i : Nat} {s : Value} (here : statements[i]? = some s) (isExport : ExportStatement s)
      (other : ∀ m, ¬ AddsName context program s m)
      (bound : isExempt (allowsReExport context.options) s = .ok false)
      (before : StandsEarly statements i) : Verdict context program statements i .early

section Verdicts

variable {context : Context} {program : Value}

/-- A statement only adds a name in one way. -/
theorem AddsName.unique {s : Value} {m m' : ExportMessage} (h : AddsName context program s m)
    (h' : AddsName context program s m') : m = m' := by
  cases h with
  | specifiers list _ =>
    cases h' with
    | specifiers => rfl
    | aliased halias => exact absurd halias.1 list.not_variableExport
    | bareName _ hdefault => exact absurd hdefault (not_defaultOf_of_named list.kind)
  | aliased halias =>
    cases h' with
    | specifiers list => exact absurd halias.1 list.not_variableExport
    | aliased => rfl
    | bareName _ hdefault => exact absurd hdefault (not_defaultOf_of_named halias.1.1)
  | bareName _ hdefault =>
    cases h' with
    | specifiers list => exact absurd hdefault (not_defaultOf_of_named list.kind)
    | aliased halias => exact absurd hdefault (not_defaultOf_of_named halias.1.1)
    | bareName => rfl

/-- A place is reported under one message only. -/
theorem Verdict.unique {statements : List Value} {i : Nat} {m m' : ExportMessage}
    (h : Verdict context program statements i m) (h' : Verdict context program statements i m') :
    m = m' := by
  cases h with
  | adds here adds =>
    cases h' with
    | adds here' adds' =>
      cases here.symm.trans here'
      exact adds.unique adds'
    | early here' _ other =>
      cases here.symm.trans here'
      exact absurd adds (other _)
  | early here _ other =>
    cases h' with
    | adds here' adds' =>
      cases here.symm.trans here'
      exact absurd adds' (other _)
    | early => rfl

end Verdicts

/-! ## Reports in the order of the statements -/

/-- The diagnostics are those for the statements at the places with a property, in order. -/
def Listed (context : Context) (m : ExportMessage) (statements : List Value) (P : Nat → Prop)
    (ds : List Diagnostic) : Prop :=
  ∃ places : List Nat, places.Pairwise (· < ·) ∧ (∀ i, i ∈ places ↔ P i) ∧
    List.Forall₂ (fun i d => ∃ s, statements[i]? = some s ∧ context.report s m.id = .ok d) places ds

/-- The statement at the place has the property. -/
def At (statements : List Value) (Q : Value → Prop) (i : Nat) : Prop :=
  ∃ s, statements[i]? = some s ∧ Q s

namespace Listed

variable {context : Context} {m : ExportMessage} {statements : List Value} {s : Value}
  {P Q : Nat → Prop} {ds : List Diagnostic}

theorem nil (h : ∀ i, ¬ P i) : Listed context m statements P [] :=
  ⟨[], .nil, fun i => by simpa using h i, .nil⟩

theorem congr (h : Listed context m statements P ds) (hpq : ∀ i, P i ↔ Q i) :
    Listed context m statements Q ds := by
  obtain ⟨places, hsorted, hmem, hreports⟩ := h
  exact ⟨places, hsorted, fun i => (hmem i).trans (hpq i), hreports⟩

/-- One statement more at the front moves all places by one. -/
theorem shift (h : Listed context m statements (fun i => P (i + 1)) ds) (hno : ¬ P 0) :
    Listed context m (s :: statements) P ds := by
  obtain ⟨places, hsorted, hmem, hreports⟩ := h
  refine ⟨places.map (· + 1), ?_, fun i => ?_, ?_⟩
  · exact List.pairwise_map.mpr (hsorted.imp fun h => Nat.succ_lt_succ h)
  · cases i with
    | zero => simp [hno]
    | succ i => simp [hmem]
  · exact List.forall₂_map_left_iff.mpr hreports

/-- A report for the statement at the front comes first. -/
theorem cons {d : Diagnostic} (h : Listed context m statements (fun i => P (i + 1)) ds) (hyes : P 0)
    (hd : context.report s m.id = .ok d) : Listed context m (s :: statements) P (d :: ds) := by
  obtain ⟨places, hsorted, hmem, hreports⟩ := h
  refine ⟨0 :: places.map (· + 1), ?_, fun i => ?_, ?_⟩
  · refine List.pairwise_cons.mpr ⟨fun i hi => ?_, ?_⟩
    · obtain ⟨j, _, rfl⟩ := List.mem_map.mp hi
      exact Nat.succ_pos j
    · exact List.pairwise_map.mpr (hsorted.imp fun h => Nat.succ_lt_succ h)
  · cases i with
    | zero => simp [hyes]
    | succ i => simp [hmem]
  · exact .cons ⟨s, rfl, hd⟩ (List.forall₂_map_left_iff.mpr hreports)

/-- Reports for the first statements are reports for all. -/
theorem of_take {count : Nat} (h : Listed context m (statements.take count) P ds) :
    Listed context m statements P ds := by
  obtain ⟨places, hsorted, hmem, hreports⟩ := h
  refine ⟨places, hsorted, hmem, hreports.imp ?_⟩
  rintro i d ⟨s, hs, hd⟩
  rw [List.getElem?_take] at hs
  split at hs
  · exact ⟨s, hs, hd⟩
  · cases hs

end Listed

/-! ## The passes -/

section Passes

variable {S : Value → Prop} {context : Context} {program : Value}

/-- A readable statement can be reported under each message of the rule. -/
theorem exists_statement_report (R : ExportReading S) (hrule : context.rule = .exportCodeLast)
    (htext : context.source.text = .null ∨ ∃ text, context.source.text = .str text) {s : Value}
    (h : S s) (m : ExportMessage) : ∃ d, context.report s m.id = .ok d := by
  have hspan := R.hasPlainSpan h
  obtain ⟨fields, _, rfl, _⟩ := isNode_iff.mp (R.isNode h)
  obtain ⟨message, hmessage⟩ : ∃ message, context.rule.info.messages.lookup m.id = some message := by
    rw [hrule]
    cases m <;> exact ⟨_, rfl⟩
  exact exists_report hmessage htext hspan

/-- A row of diagnostics, one place for each statement, says which statements have a property. -/
def Marks (Q : Value → Prop) (statements : List Value) (row : List (Option Diagnostic)) : Prop :=
  List.Forall₂ (fun s d => d.isSome = true ↔ Q s) statements row

/-- A pass that tests each statement by itself. -/
theorem reportWhere_eq {m : ExportMessage} {test : Value → Except Fault Bool} {Q : Value → Prop}
    {statements : List Value}
    (hreport : ∀ s ∈ statements, ∃ d, context.report s m.id = .ok d)
    (htest : ∀ s ∈ statements, Decides (test s) (Q s)) :
    ∃ row, context.reportWhere m.id test statements = .ok row ∧ Marks Q statements row ∧
      Listed context m statements (At statements Q) (row.filterMap id) := by
  induction statements with
  | nil => exact ⟨[], rfl, .nil, .nil fun i ⟨s, hs, _⟩ => by cases hs⟩
  | cons s rest ih =>
    obtain ⟨row, hrow, hmarks, hlisted⟩ := ih (fun t ht => hreport t (List.mem_cons_of_mem _ ht))
      (fun t ht => htest t (List.mem_cons_of_mem _ ht))
    rw [Context.reportWhere] at hrow
    rw [Context.reportWhere, List.mapM_cons, hrow]
    rcases htest s List.mem_cons_self with ⟨hyes, hq⟩ | ⟨hno, hq⟩
    · obtain ⟨d, hd⟩ := hreport s List.mem_cons_self
      refine ⟨some d :: row, by simp [hyes, hd], .cons (by simp [hq]) hmarks, ?_⟩
      exact .cons hlisted ⟨s, rfl, hq⟩ hd
    · refine ⟨none :: row, by simp [hno], .cons (by simp [hq]) hmarks, ?_⟩
      exact .shift hlisted fun ⟨t, ht, hqt⟩ => hq (Option.some.inj ht ▸ hqt)

section Questions

variable {declared : Gathered} {resolver : Resolver} {s : Value}

/-- One question about a name.  It ends with a fault only if asking for the uses does; else the answer
says whether the name is that of a used variable, and the resolver stays faithful. -/
theorem isUsedVariable_eq (name : String)
    (hdeclared : ∀ name kind, (declared.of (.str name)).any (fun d => d.kind == kind) = true ↔
      DeclaredAs program name kind)
    (hfaithful : resolver.IsFaithful)
    (hstrategy : resolver.strategy = Strategy.choose program context.bindings)
    (h : HasPlainSpan s) :
    (∃ used after, isUsedVariable declared (.str name) s resolver = .ok (used, after) ∧
        after.IsFaithful ∧ after.strategy = Strategy.choose program context.bindings ∧
        (used = true ↔ UsedVariable context program s name)) ∨
      ∃ fault, isUsedVariable declared (.str name) s resolver = .error fault ∧
        usedOutside (Strategy.choose program context.bindings) (.str name) [s] = .error fault := by
  have hkey : (Value.str name).key = .ok (.str name) := rfl
  have hother : ((declared.of (.str name)).any fun d => d.kind == .function || d.kind == .type) = true ↔
      DeclaredAs program name .function ∨ DeclaredAs program name .type := by
    rw [← hdeclared, ← hdeclared]
    simp only [List.any_eq_true, Bool.or_eq_true, and_or_left, exists_or]
  simp only [isUsedVariable, hkey, ok_bind, pure_eq_ok]
  split
  · next hfound =>
    refine .inl ⟨false, resolver, rfl, hfaithful, hstrategy, ?_⟩
    constructor
    · intro hfalse
      cases hfalse
    · intro hused
      exact ((hother.mp hfound).elim hused.noFunction hused.noType).elim
  · next hnone =>
    obtain ⟨hfunction, htype⟩ := not_or.mp fun hkinds => hnone (hother.mpr hkinds)
    split
    · next hvariable =>
      have hspan : ∀ node ∈ [s], HasPlainSpan node := by simpa using h
      obtain ⟨q, hq, hplain, _⟩ := Question.of_plain name hspan
      obtain ⟨hanswer, hafter, hsame⟩ := hfaithful.ask hq hplain
      rw [hstrategy] at hanswer hsame
      cases huses : usedOutside (Strategy.choose program context.bindings) (.str name) [s] with
      | error fault =>
        exact .inr ⟨fault, by simp [hanswer, huses], rfl⟩
      | ok used =>
        refine .inl ⟨used, _, by simp only [hanswer, huses, ok_bind], hafter, hsame, ?_⟩
        constructor
        · rintro rfl
          exact ⟨(hdeclared _ _).mp hvariable, hfunction, htype, huses⟩
        · intro hused
          exact Except.ok.inj (huses.symm.trans hused.used)
    · next hvariable =>
      refine .inl ⟨false, resolver, rfl, hfaithful, hstrategy, ?_⟩
      constructor
      · intro hfalse
        cases hfalse
      · intro hused
        exact absurd ((hdeclared _ _).mpr hused.isVariable) hvariable

/-- One step of the pass for default exports: the answer says whether the statement exports a bare
name. -/
theorem exportsBareName_eq (R : ExportReading S)
    (hdeclared : ∀ name kind, (declared.of (.str name)).any (fun d => d.kind == kind) = true ↔
      DeclaredAs program name kind)
    (hfaithful : resolver.IsFaithful)
    (hstrategy : resolver.strategy = Strategy.choose program context.bindings)
    (h : S s) :
    (∃ bare after, exportsBareName declared s resolver = .ok (bare, after) ∧ after.IsFaithful ∧
        after.strategy = Strategy.choose program context.bindings ∧
        (bare = true ↔ AddsName context program s .bareName)) ∨
      ∃ name fault, DefaultOf s name ∧ exportsBareName declared s resolver = .error fault ∧
        usedOutside (Strategy.choose program context.bindings) (.str name) [s] = .error fault := by
  unfold exportsBareName
  rcases R.defaultName_eq h with ⟨name, hof, hname⟩ | ⟨hno, hname⟩
  · rw [hname, ok_bind, if_neg (by simp [Value.isNull])]
    rcases isUsedVariable_eq name hdeclared hfaithful hstrategy (R.hasPlainSpan h) with
      ⟨used, after, heq, hafter, hsame, hused⟩ | ⟨fault, heq, hfault⟩
    · refine .inl ⟨!used, after, by simp [heq], hafter, hsame, ?_⟩
      constructor
      · intro hunused
        exact .bareName name hof fun hvariable => by simp [hused.mpr hvariable] at hunused
      · intro hbare
        cases hbare with
        | bareName other hother hunused =>
          obtain rfl := hof.unique hother
          simpa using fun hyes => hunused (hused.mp hyes)
    · exact .inr ⟨name, fault, hof, by simp [heq], hfault⟩
  · rw [hname, ok_bind]
    refine .inl ⟨false, resolver, rfl, hfaithful, hstrategy, ?_⟩
    constructor
    · intro hfalse
      cases hfalse
    · intro hbare
      cases hbare with
      | bareName name hof _ => exact absurd hof (hno name)

end Questions

/-- The pass for default exports.  The resolver that is passed on keeps answers, and the invariant is
that they are the ones that asking anew would give. -/
theorem reportBareNames_eq (R : ExportReading S) {declared : Gathered} {resolver : Resolver}
    {statements : List Value}
    (hdeclared : ∀ name kind, (declared.of (.str name)).any (fun d => d.kind == kind) = true ↔
      DeclaredAs program name kind)
    (hfaithful : resolver.IsFaithful)
    (hstrategy : resolver.strategy = Strategy.choose program context.bindings)
    (hreport : ∀ s ∈ statements, ∃ d, context.report s ExportMessage.bareName.id = .ok d)
    (h : ∀ s ∈ statements, S s) :
    (∃ row, reportBareNames context declared resolver statements = .ok row ∧
        Marks (fun s => AddsName context program s .bareName) statements row ∧
        Listed context .bareName statements
          (At statements fun s => AddsName context program s .bareName) (row.filterMap id)) ∨
      ∃ s ∈ statements, ∃ name fault, DefaultOf s name ∧
        reportBareNames context declared resolver statements = .error fault ∧
        usedOutside (Strategy.choose program context.bindings) (.str name) [s] = .error fault := by
  induction statements generalizing resolver with
  | nil => exact .inl ⟨[], rfl, .nil, .nil fun i ⟨s, hs, _⟩ => by cases hs⟩
  | cons s rest ih =>
    unfold reportBareNames
    rcases exportsBareName_eq R hdeclared hfaithful hstrategy (h s List.mem_cons_self) with
      ⟨bare, after, heq, hafter, hsame, hbare⟩ | ⟨name, fault, hof, heq, hfault⟩
    · obtain ⟨d, hd⟩ := hreport s List.mem_cons_self
      have hd' : context.report s "noDefaultExportAlias" = .ok d := hd
      rcases ih hafter hsame (fun t ht => hreport t (List.mem_cons_of_mem _ ht))
          (fun t ht => h t (List.mem_cons_of_mem _ ht)) with
        ⟨row, hrow, hmarks, hlisted⟩ | ⟨t, ht, name, fault, hof, hrow, hfault⟩
      · cases bare with
        | true =>
          refine .inl ⟨some d :: row, by simp [heq, hd', hrow], ?_, ?_⟩
          · exact .cons (by simpa using hbare) hmarks
          · exact .cons hlisted ⟨s, rfl, hbare.mp rfl⟩ hd
        | false =>
          have hno : ¬ AddsName context program s .bareName := fun hyes => by simpa using hbare.mpr hyes
          refine .inl ⟨none :: row, by simp [heq, hrow], ?_, ?_⟩
          · exact .cons (by simpa using hno) hmarks
          · exact .shift hlisted fun ⟨t, ht, hyes⟩ => hno (Option.some.inj ht ▸ hyes)
      · refine .inr ⟨t, List.mem_cons_of_mem _ ht, name, fault, hof, ?_, hfault⟩
        cases bare <;> simp [heq, hd', hrow]
    · exact .inr ⟨s, List.mem_cons_self, name, fault, hof, by simp [heq], hfault⟩

/-- Three rows together say which statements only add a name. -/
theorem reported_eq {statements : List Value} {lists aliases names : List (Option Diagnostic)}
    (hlists : Marks (fun s => AddsName context program s .specifiers) statements lists)
    (haliases : Marks (fun s => AddsName context program s .aliased) statements aliases)
    (hnames : Marks (fun s => AddsName context program s .bareName) statements names) :
    List.Forall₂ (fun s reported => reported = true ↔ ∃ m, AddsName context program s m) statements
      ((lists.zip (aliases.zip names)).map fun (a, b, c) => a.isSome || b.isSome || c.isSome) := by
  induction hlists generalizing aliases names with
  | nil =>
    cases haliases
    exact .nil
  | @cons s a _ _ ha _ ih =>
    cases haliases with
    | @cons _ b _ _ hb haliases =>
      cases hnames with
      | @cons _ c _ _ hc hnames =>
        refine .cons ?_ (ih haliases hnames)
        dsimp only
        rw [Bool.or_eq_true, Bool.or_eq_true, ha, hb, hc]
        constructor
        · rintro ((h | h) | h)
          · exact ⟨_, h⟩
          · exact ⟨_, h⟩
          · exact ⟨_, h⟩
        · rintro ⟨m, h⟩
          cases h with
          | specifiers list values => exact .inl (.inl (.specifiers list values))
          | aliased renames => exact .inl (.inr (.aliased renames))
          | bareName name bare unused => exact .inr (.bareName name bare unused)

/-- The statement is an export that may not stand anywhere, and does not only add a name. -/
def Bound (context : Context) (program s : Value) : Prop :=
  ExportStatement s ∧ (∀ m, ¬ AddsName context program s m) ∧
    isExempt (allowsReExport context.options) s = .ok false

/-- The test for such a statement, given whether the statement was reported already. -/
theorem isMisplaced_decides (R : ExportReading S) {s : Value} {reported : Bool} (h : S s)
    (hreported : reported = true ↔ ∃ m, AddsName context program s m) :
    Decides (isMisplaced (allowsReExport context.options) s reported) (Bound context program s) := by
  unfold isMisplaced
  refine (isExport_decides (R.isNode h)).bind (fun hexport => ?_) (fun hexport => ?_)
  · cases reported with
    | true =>
      obtain ⟨m, hm⟩ := hreported.mp rfl
      exact .inr ⟨rfl, fun hbound => hbound.2.1 m hm⟩
    | false =>
      have hother : ∀ m, ¬ AddsName context program s m := fun m hm => by
        simpa using hreported.mpr ⟨m, hm⟩
      obtain ⟨exempt, hexempt⟩ := R.exists_isExempt (allowsReExport context.options) h
      simp only [hexempt, ok_bind, pure_eq_ok]
      refine (Decides.of_bool _).congr ?_
      cases exempt with
      | true => simp [Bound, hexempt]
      | false => simpa [Bound, hexempt, hexport] using hother
  · exact .inr ⟨rfl, fun hbound => hexport hbound.1⟩

/-- The pass for exports that stand too early, over the statements that come before another one. -/
theorem reportMisplaced_eq (R : ExportReading S) {statements : List Value} {reported : List Bool}
    (hreported : List.Forall₂ (fun s reported => reported = true ↔ ∃ m, AddsName context program s m)
      statements reported)
    (hreport : ∀ s ∈ statements, ∃ d, context.report s ExportMessage.early.id = .ok d)
    (h : ∀ s ∈ statements, S s) :
    ∃ ds, reportMisplaced context (allowsReExport context.options) (statements.zip reported) = .ok ds ∧
      Listed context .early statements (At statements (Bound context program)) ds := by
  induction hreported with
  | nil => exact ⟨[], rfl, .nil fun i ⟨s, hs, _⟩ => by cases hs⟩
  | @cons s reported _ _ hhere _ ih =>
    obtain ⟨ds, hds, hlisted⟩ := ih (fun t ht => hreport t (List.mem_cons_of_mem _ ht))
      (fun t ht => h t (List.mem_cons_of_mem _ ht))
    rw [List.zip_cons_cons, reportMisplaced]
    rcases isMisplaced_decides R (h s List.mem_cons_self) hhere with ⟨hyes, hbound⟩ | ⟨hno, hbound⟩
    · obtain ⟨d, hd⟩ := hreport s List.mem_cons_self
      have hd' : context.report s "exportsLast" = .ok d := hd
      exact ⟨d :: ds, by simp [hyes, hd', hds], .cons hlisted ⟨s, rfl, hbound⟩ hd⟩
    · refine ⟨ds, by simp [hno, hds], .shift hlisted ?_⟩
      exact fun ⟨t, ht, hyes⟩ => hbound (Option.some.inj ht ▸ hyes)

/-! ## The last statement that is no export -/

/-- From the last statement on, the first one that is no export is looked for. -/
theorem beforeLastOther_eq {backwards : List Value} (h : ∀ s ∈ backwards, isNode s = true) :
    ((∀ s ∈ backwards, ExportStatement s) ∧ beforeLastOther backwards = .ok none) ∨
      ∃ later t earlier, backwards = later ++ t :: earlier ∧ (∀ s ∈ later, ExportStatement s) ∧
        ¬ ExportStatement t ∧ beforeLastOther backwards = .ok (some earlier.length) := by
  induction backwards with
  | nil => exact .inl ⟨by simp, rfl⟩
  | cons s rest ih =>
    rw [beforeLastOther]
    rcases isExport_decides (h s List.mem_cons_self) with ⟨hyes, hexport⟩ | ⟨hno, hexport⟩
    · rw [hyes, ok_bind, if_pos rfl]
      rcases ih fun t ht => h t (List.mem_cons_of_mem _ ht) with
        ⟨hall, heq⟩ | ⟨later, t, earlier, rfl, hlater, hother, heq⟩
      · exact .inl ⟨by simpa [hexport] using hall, heq⟩
      · exact .inr ⟨s :: later, t, earlier, rfl, by simpa [hexport] using hlater, hother, heq⟩
    · exact .inr ⟨[], s, rest, rfl, by simp, hexport, by simp [hno]⟩

/-- The number that is found tells which statements stand too early. -/
theorem beforeLastOther_reverse_eq {statements : List Value}
    (h : ∀ s ∈ statements, isNode s = true) :
    ((∀ i, ¬ StandsEarly statements i) ∧ beforeLastOther statements.reverse = .ok none) ∨
      ∃ count, beforeLastOther statements.reverse = .ok (some count) ∧
        ∀ i, i < count ↔ StandsEarly statements i := by
  have hnodes : ∀ s ∈ statements.reverse, isNode s = true := by simpa using h
  rcases beforeLastOther_eq hnodes with
    ⟨hall, heq⟩ | ⟨later, t, earlier, hsplit, hlater, hother, heq⟩
  · refine .inl ⟨?_, heq⟩
    rintro i ⟨j, t, _, ht, hno⟩
    exact hno (hall t (List.mem_reverse.mpr (List.mem_of_getElem? ht)))
  · have hstatements : statements = earlier.reverse ++ t :: later.reverse := by
      rw [← List.reverse_reverse statements, hsplit]
      simp
    refine .inr ⟨earlier.length, heq, fun i => ?_⟩
    constructor
    · intro hi
      exact ⟨earlier.length, t, hi, by simp [hstatements], hother⟩
    · rintro ⟨j, u, hij, hu, hno⟩
      -- A place after the found one holds an export, so the place with the other statement is not
      -- after it.
      refine Nat.lt_of_lt_of_le hij (Nat.le_of_not_lt fun hj => hno (hlater u ?_))
      rw [hstatements, List.getElem?_append_right (by simpa using hj.le)] at hu
      obtain ⟨k, hk⟩ : ∃ k, j - earlier.reverse.length = k + 1 :=
        ⟨j - earlier.length - 1, by simp; omega⟩
      rw [hk, List.getElem?_cons_succ] at hu
      exact List.mem_reverse.mp (List.mem_of_getElem? hu)

end Passes

/-! ## Questions that have an answer -/

/-- The value is absent, or a table in which every name has nothing or a list of objects with plain
spans. -/
def PlainBindings (bindings : Value) : Prop :=
  bindings = .null ∨ ∃ fields, bindings = .obj fields ∧
    ∀ name, ∃ entries, (Fields.get fields name).orEmpty = .arr entries ∧
      ∀ entry ∈ entries, Strategy.IsPlainEntry entry

section Answers

variable {S : Value → Prop} {fields : Fields} {statements : List Value}

/-- The children of a program are its statements. -/
theorem child_mem_statements (hkind : isKind (.obj fields) "Program" = true)
    (hbody : Fields.get fields "body" = .arr statements) {e : Edge} (he : e ∈ edges (.obj fields)) :
    e.child ∈ statements := by
  have hfields : childFields fields = ["body"] :=
    childFields_of_kind (isKind_obj_iff.mp hkind) (by decide)
  rw [edges, hfields, List.flatMap_singleton, hbody] at he
  obtain ⟨⟨item, i⟩, hitem, heq⟩ := List.mem_filterMap.mp he
  dsimp only at heq
  split at heq
  · obtain rfl := Option.some.inj heq
    exact List.fst_mem_of_mem_zipIdx hitem
  · cases heq

/-- What a live path from a program leads to is the program or a readable node. -/
theorem readable_of_live (R : ExportReading S) (hkind : isKind (.obj fields) "Program" = true)
    (hbody : Fields.get fields "body" = .arr statements) (hread : ∀ s ∈ statements, S s)
    {path : Path} {v : Value} {role : Role} (h : Live (.obj fields) path v role) :
    v = .obj fields ∨ S v := by
  induction h with
  | root => exact .inl rfl
  | @step _ parent e _ _ _ _ child _ ih =>
    rcases ih with rfl | hparent
    · exact .inr (hread _ (child_mem_statements hkind hbody child))
    · exact .inr (R.child hparent child)

/-- Every occurrence of a name in a program has a plain span. -/
theorem hasPlainSpan_of_occurs (R : ExportReading S) (hkind : isKind (.obj fields) "Program" = true)
    (hbody : Fields.get fields "body" = .arr statements) (hread : ∀ s ∈ statements, S s)
    {name : String} {o : Occurrence} (h : Occurs (.obj fields) name o) : HasPlainSpan o.node := by
  have hchild : ∀ {path : Path} {parent : Value} {above : Role} {e : Edge},
      Live (.obj fields) path parent above → e ∈ edges parent → S e.child := by
    intro path parent above e hlive hedge
    rcases readable_of_live R hkind hbody hread hlive with rfl | hparent
    · exact hread _ (child_mem_statements hkind hbody hedge)
    · exact R.child hparent hedge
  cases h with
  | identifier before _ child => exact R.hasPlainSpan (hchild before child)
  | tag before _ child => exact R.hasPlainSpan (hchild before child)

/-- With plain bindings each question about a name and a statement has an answer. -/
theorem exists_usedOutside (R : ExportReading S) {bindings : Value}
    (hbindings : PlainBindings bindings) (hkind : isKind (.obj fields) "Program" = true)
    (hbody : Fields.get fields "body" = .arr statements) (hread : ∀ s ∈ statements, S s)
    (name : String) {s : Value} (h : S s) :
    ∃ used, usedOutside (Strategy.choose (.obj fields) bindings) (.str name) [s] = .ok used := by
  obtain ⟨P, hlists⟩ : ∃ P, (Strategy.choose (.obj fields) bindings).Lists name P := by
    rcases hbindings with rfl | ⟨table, rfl, hentries⟩
    · obtain ⟨found, hfound, hoccurs⟩ := exists_occurrences name (isNode_of_isKind hkind)
      exact ⟨_, Strategy.scan_lists hfound fun o ho =>
        hasPlainSpan_of_occurs R hkind hbody hread ((hoccurs o).mp ho)⟩
    · obtain ⟨entries, heq, hplain⟩ := hentries name
      exact ⟨_, Strategy.table_lists heq hplain⟩
  have hspan : ∀ node ∈ [s], HasPlainSpan node := by simpa using R.hasPlainSpan h
  obtain ⟨q, hq, hplain, hname, _⟩ := Question.of_plain name hspan
  rw [usedOutside, hq, ok_bind]
  exact (hlists.answer_decides hplain hname).exists_ok

end Answers

/-! ## All passes together -/

/-- The diagnostics are exactly those that the verdicts ask for: one for each place that is reported,
pass by pass and in the order of the statements. -/
structure ExactReports (context : Context) (program : Value) (statements : List Value)
    (reports : List (Nat × ExportMessage)) (ds : List Diagnostic) : Prop where
  /-- What is reported is what the verdicts say. -/
  verdicts : ∀ i m, (i, m) ∈ reports ↔ Verdict context program statements i m
  /-- No statement is reported twice. -/
  once : (reports.map Prod.fst).Nodup
  /-- The reports are in order. -/
  ordered : reports.Pairwise fun a b => a.2.pass < b.2.pass ∨ a.2 = b.2 ∧ a.1 < b.1
  /-- Each diagnostic is the one for its statement and its message. -/
  diagnostics : List.Forall₂ (fun r d => ∃ s, statements[r.1]? = some s ∧
    context.report s r.2.id = .ok d) reports ds

section Assembly

variable {S : Value → Prop} {context : Context} {program : Value} {statements : List Value}

/-- The verdicts of one of the first passes are those of its condition. -/
theorem at_addsName_iff {m : ExportMessage} (hm : m ≠ .early) (i : Nat) :
    At statements (fun s => AddsName context program s m) i ↔
      Verdict context program statements i m := by
  constructor
  · rintro ⟨s, hs, hadds⟩
    exact .adds hs hadds
  · intro h
    cases h with
    | adds hs hadds => exact ⟨_, hs, hadds⟩
    | early => exact absurd rfl hm

/-- The verdicts of the last pass are those for bound statements that stand too early. -/
theorem at_bound_iff (i : Nat) :
    StandsEarly statements i ∧ At statements (Bound context program) i ↔
      Verdict context program statements i .early := by
  constructor
  · rintro ⟨hearly, s, hs, hexport, hother, hbound⟩
    exact .early hs hexport hother hbound hearly
  · intro h
    cases h with
    | adds _ hadds => cases hadds
    | early hs hexport hother hbound hearly => exact ⟨hearly, _, hs, hexport, hother, hbound⟩

/-- Diagnostics that are listed for each message are exact reports when they are put together. -/
theorem exactReports_of_listed {part : ExportMessage → List Diagnostic}
    (h : ∀ m, Listed context m statements (fun i => Verdict context program statements i m) (part m)) :
    ∃ reports, ExactReports context program statements reports (ExportMessage.all.flatMap part) := by
  choose places hsorted hmem hreports using h
  have hverdicts : ∀ i m, (i, m) ∈ (ExportMessage.all.flatMap fun m => (places m).map (·, m)) ↔
      Verdict context program statements i m := by
    intro i m
    refine Iff.trans ?_ (hmem m i)
    simp [List.mem_flatMap, ExportMessage.mem_all]
  have hordered : (ExportMessage.all.flatMap fun m => (places m).map (·, m)).Pairwise
      fun a b => a.2.pass < b.2.pass ∨ a.2 = b.2 ∧ a.1 < b.1 := by
    refine List.pairwise_flatMap.mpr ⟨fun m _ => ?_, ?_⟩
    · exact List.pairwise_map.mpr ((hsorted m).imp fun hlt => .inr ⟨rfl, hlt⟩)
    · refine ExportMessage.pairwise_pass_all.imp fun {m m'} hlt a ha b hb => .inl ?_
      obtain ⟨i, _, rfl⟩ := List.mem_map.mp ha
      obtain ⟨j, _, rfl⟩ := List.mem_map.mp hb
      exact hlt
  refine ⟨_, hverdicts, ?_, hordered, ?_⟩
  · -- Two reports of one place would be of one message, and then of two places.
    rw [List.nodup_iff_pairwise_ne, List.pairwise_map]
    refine hordered.imp_of_mem fun {a b} ha hb hab heq => ?_
    have hverdict := (hverdicts b.1 b.2).mp hb
    rw [← heq] at hverdict
    have hsame : a.2 = b.2 := ((hverdicts a.1 a.2).mp ha).unique hverdict
    rcases hab with hpass | ⟨_, hlt⟩
    · rw [hsame] at hpass
      exact Nat.lt_irrefl _ hpass
    · rw [heq] at hlt
      exact Nat.lt_irrefl _ hlt
  · induction ExportMessage.all with
    | nil => exact .nil
    | cons m rest ih =>
      rw [List.flatMap_cons, List.flatMap_cons]
      exact List.rel_append (List.forall₂_map_left_iff.mpr (hreports m)) ih

/-- The rows of the first three passes and the reports of the last one are exact reports. -/
theorem exactReports_of_passes {lists aliases names : List (Option Diagnostic)}
    {early : List Diagnostic}
    (hlists : Listed context .specifiers statements
      (At statements fun s => AddsName context program s .specifiers) (lists.filterMap id))
    (haliases : Listed context .aliased statements
      (At statements fun s => AddsName context program s .aliased) (aliases.filterMap id))
    (hnames : Listed context .bareName statements
      (At statements fun s => AddsName context program s .bareName) (names.filterMap id))
    (hearly : Listed context .early statements
      (fun i => Verdict context program statements i .early) early) :
    ∃ reports, ExactReports context program statements reports
      (lists.filterMap id ++ aliases.filterMap id ++ names.filterMap id ++ early) := by
  let part : ExportMessage → List Diagnostic
    | .specifiers => lists.filterMap id
    | .aliased => aliases.filterMap id
    | .bareName => names.filterMap id
    | .early => early
  have hpart : ∀ m, Listed context m statements
      (fun i => Verdict context program statements i m) (part m) := by
    intro m
    cases m with
    | specifiers => exact hlists.congr (at_addsName_iff (by decide))
    | aliased => exact haliases.congr (at_addsName_iff (by decide))
    | bareName => exact hnames.congr (at_addsName_iff (by decide))
    | early => exact hearly
  simpa [ExportMessage.all, part] using exactReports_of_listed hpart

/-- The last pass, over the statements before the last one that is no export. -/
theorem exists_early (R : ExportReading S) {reported : List Bool}
    (hreported : List.Forall₂ (fun s reported => reported = true ↔ ∃ m, AddsName context program s m)
      statements reported)
    (hreport : ∀ s ∈ statements, ∃ d, context.report s ExportMessage.early.id = .ok d)
    (h : ∀ s ∈ statements, S s) :
    (beforeLastOther statements.reverse = .ok none ∧
        Listed context .early statements (fun i => Verdict context program statements i .early) []) ∨
      ∃ count ds, beforeLastOther statements.reverse = .ok (some count) ∧
        reportMisplaced context (allowsReExport context.options) ((statements.zip reported).take count) =
          .ok ds ∧
        Listed context .early statements (fun i => Verdict context program statements i .early) ds := by
  rcases beforeLastOther_reverse_eq fun s hs => R.isNode (h s hs) with
    ⟨hnone, heq⟩ | ⟨count, heq, hcount⟩
  · refine .inl ⟨heq, .nil fun i hverdict => ?_⟩
    exact hnone i ((at_bound_iff i).mpr hverdict).1
  · obtain ⟨ds, hds, hlisted⟩ := reportMisplaced_eq R (List.forall₂_take count hreported)
      (fun s hs => hreport s (List.mem_of_mem_take hs)) (fun s hs => h s (List.mem_of_mem_take hs))
    refine .inr ⟨count, ds, heq, ?_, ?_⟩
    · rw [List.zip_eq_zipWith, List.take_zipWith]
      exact hds
    · refine hlisted.of_take.congr fun i => Iff.trans ?_ (at_bound_iff i)
      rw [← hcount]
      constructor
      · rintro ⟨s, hs, hbound⟩
        rw [List.getElem?_take] at hs
        split at hs
        · next hi => exact ⟨hi, s, hs, hbound⟩
        · cases hs
      · rintro ⟨hi, s, hs, hbound⟩
        exact ⟨s, by rw [List.getElem?_take, if_pos hi, hs], hbound⟩

/-- Lists of local values are found by the test of the first pass. -/
theorem listsLocalValues_decides (R : ExportReading S) (context : Context) (program : Value)
    {s : Value} (h : S s) :
    Decides (listsLocalValues s) (AddsName context program s .specifiers) := by
  unfold listsLocalValues
  refine (R.listsLocalNames_decides h).bind (fun hlist => ?_) (fun hlist => ?_)
  · obtain ⟨types, htypes⟩ := (R.exportsOnlyTypes_decides h).exists_ok
    have hiff : types = true ↔ TypesOnly s := by
      rw [← (R.exportsOnlyTypes_decides h).ok_true_iff, htypes]
      simp
    simp only [if_true, htypes, ok_bind, pure_eq_ok]
    refine (Decides.of_bool _).congr ?_
    constructor
    · intro hvalues
      exact .specifiers hlist fun hyes => by simp [hiff.mpr hyes] at hvalues
    · intro hadds
      cases hadds with
      | specifiers _ hvalues => simpa using fun hyes => hvalues (hiff.mp hyes)
  · refine .inr ⟨rfl, fun hadds => ?_⟩
    cases hadds with
    | specifiers list => exact hlist list

/-- Aliases are found by the test of the second pass. -/
theorem exportsAlias_decides_addsName (R : ExportReading S) (context : Context) (program : Value)
    {s : Value} (h : S s) :
    Decides (exportsAlias s) (AddsName context program s .aliased) := by
  refine (R.exportsAlias_decides h).congr ⟨.aliased, fun hadds => ?_⟩
  cases hadds with
  | aliased renames => exact renames

end Assembly

/-- The rule gives exact reports, or ends with the fault of a question about uses. -/
theorem checkExports_eq {S : Value → Prop} (R : ExportReading S) {context : Context}
    {fields : Fields} {statements : List Value} (hrule : context.rule = .exportCodeLast)
    (htext : context.source.text = .null ∨ ∃ text, context.source.text = .str text)
    (hbody : Fields.get fields "body" = .arr statements) (hread : ∀ s ∈ statements, S s) :
    (∃ ds reports, checkExports context (.obj fields) = .ok ds ∧
        ExactReports context (.obj fields) statements reports ds) ∨
      ∃ s ∈ statements, ∃ name fault, DefaultOf s name ∧
        checkExports context (.obj fields) = .error fault ∧
        usedOutside (Strategy.choose (.obj fields) context.bindings) (.str name) [s] =
          .error fault := by
  have hreport : ∀ m : ExportMessage, ∀ s ∈ statements, ∃ d, context.report s m.id = .ok d :=
    fun m s hs => exists_statement_report R hrule htext (hread s hs) m
  have hget : (Value.obj fields).get "body" = .ok (.arr statements) := congrArg Except.ok hbody
  have helements : (Value.arr statements).orEmpty = .arr statements := by cases statements <;> rfl
  rw [checkExports, hget, ok_bind, helements]
  by_cases hpresent : (Value.arr statements).truthy = true
  · obtain ⟨lists, hlists, hlistsMarks, hlistsListed⟩ := reportWhere_eq (hreport .specifiers)
      fun s hs => listsLocalValues_decides R context (.obj fields) (hread s hs)
    obtain ⟨aliases, haliases, haliasesMarks, haliasesListed⟩ := reportWhere_eq (hreport .aliased)
      fun s hs => exportsAlias_decides_addsName R context (.obj fields) (hread s hs)
    obtain ⟨declared, hdeclared, hof⟩ := declarations_eq R hbody hread
    have hlists' : context.reportWhere "noExportSpecifiers" listsLocalValues statements =
        .ok lists := hlists
    have haliases' : context.reportWhere "noExportAlias" exportsAlias statements =
        .ok aliases := haliases
    simp only [hpresent, Value.elements, hlists', haliases', hdeclared, ok_bind]
    have hfaithful :=
      Resolver.isFaithful_ofStrategy (Strategy.choose (.obj fields) context.bindings)
    rcases reportBareNames_eq R hof hfaithful rfl (hreport .bareName) hread with
      ⟨names, hnames, hnamesMarks, hnamesListed⟩ | ⟨s, hs, name, fault, hdefault, hnames, hfault⟩
    · simp only [hnames, ok_bind]
      rcases exists_early R (reported_eq hlistsMarks haliasesMarks hnamesMarks) (hreport .early)
          hread with ⟨hcount, hearly⟩ | ⟨count, early, hcount, hmisplaced, hearly⟩
      · obtain ⟨reports, hexact⟩ :=
          exactReports_of_passes hlistsListed haliasesListed hnamesListed hearly
        exact .inl ⟨_, reports, by rw [hcount]; rfl, hexact⟩
      · obtain ⟨reports, hexact⟩ :=
          exactReports_of_passes hlistsListed haliasesListed hnamesListed hearly
        refine .inl ⟨_, reports, ?_, hexact⟩
        rw [hcount, ok_bind]
        dsimp only
        rw [hmisplaced]
        rfl
    · exact .inr ⟨s, hs, name, fault, hdefault, by simp [hnames], hfault⟩
  · obtain rfl : statements = [] := by simpa [Value.truthy] using hpresent
    refine .inl ⟨[], [], rfl, fun i m => ?_, .nil, .nil, .nil⟩
    refine ⟨fun h => (by cases h), fun h => ?_⟩
    cases h with
    | adds here => cases here
    | early here => cases here

/-- With plain bindings the rule gives reports. -/
theorem exists_checkExports {S : Value → Prop} (R : ExportReading S) {context : Context} {fields : Fields}
    {statements : List Value} (hrule : context.rule = .exportCodeLast)
    (htext : context.source.text = .null ∨ ∃ text, context.source.text = .str text)
    (hkind : isKind (.obj fields) "Program" = true)
    (hbody : Fields.get fields "body" = .arr statements) (hread : ∀ s ∈ statements, S s)
    (hplain : PlainBindings context.bindings) : ∃ ds, checkExports context (.obj fields) = .ok ds := by
  rcases checkExports_eq R hrule htext hbody hread with
    ⟨ds, _, heq, _⟩ | ⟨s, hs, name, fault, _, _, hfault⟩
  · exact ⟨ds, heq⟩
  · obtain ⟨used, hused⟩ := exists_usedOutside R hplain hkind hbody hread name (hread s hs)
    cases hused.symm.trans hfault

/-- What the rule about exports says of a program with well-shaped statements.  Each statement is
reported at most once, under the message of its verdict, and nothing else is reported; the only thing
that can end the rule early is a question about uses that a table of bindings cannot answer, and a
plain table, or none, answers all. -/
theorem checkExports_verdicts (context : Context) (fields : Fields) (statements : List Value)
    (hrule : context.rule = .exportCodeLast)
    (htext : context.source.text = .null ∨ ∃ text, context.source.text = .str text)
    (hkind : isKind (.obj fields) "Program" = true)
    (hbody : Fields.get fields "body" = .arr statements)
    (hshaped : ∀ s ∈ statements, ExportShaped s) :
    ((∃ ds reports, checkExports context (.obj fields) = .ok ds ∧
        ExactReports context (.obj fields) statements reports ds) ∨
      ∃ s ∈ statements, ∃ name fault, DefaultOf s name ∧
        checkExports context (.obj fields) = .error fault ∧
        usedOutside (Strategy.choose (.obj fields) context.bindings) (.str name) [s] = .error fault) ∧
    (PlainBindings context.bindings → ∃ ds, checkExports context (.obj fields) = .ok ds) ∧
    ∀ i m m', Verdict context (.obj fields) statements i m →
      Verdict context (.obj fields) statements i m' → m = m' := by
  refine ⟨checkExports_eq exportReading_exportShaped hrule htext hbody hshaped,
    fun hplain => ?_, fun i m m' h h' => h.unique h'⟩
  exact exists_checkExports exportReading_exportShaped hrule htext hkind hbody hshaped hplain

/-- The program `export { a }; ;`: the list is reported as a list, and not as an export that stands
too early. -/
theorem checkExports_verdicts_list :
    let specifier : Value := .obj [("type", .str "ExportSpecifier")]
    let list : Value :=
      .obj [("type", .str "ExportNamedDeclaration"), ("specifiers", .arr [specifier])]
    let empty : Value := .obj [("type", .str "EmptyStatement")]
    let fields : Fields := [("type", .str "Program"), ("body", .arr [list, empty])]
    let context : Context := ⟨.exportCodeLast, .empty, ⟨.null⟩, .null⟩
    ∃ ds reports, checkExports context (.obj fields) = .ok ds ∧
      ExactReports context (.obj fields) [list, empty] reports ds ∧
      (0, ExportMessage.specifiers) ∈ reports ∧ (0, ExportMessage.early) ∉ reports := by
  intro specifier list empty fields context
  have hspecifier : ExportShaped specifier := .node (by decide) fun e he => (by cases he)
  have hlist : ExportShaped list := by
    refine .node (by decide) fun e he => ?_
    obtain rfl := List.mem_singleton.mp he
    exact hspecifier
  have hempty : ExportShaped empty := .node (by decide) fun e he => (by cases he)
  have hshaped : ∀ s ∈ [list, empty], ExportShaped s := by
    intro s hs
    rcases List.mem_cons.mp hs with rfl | hs
    · exact hlist
    · obtain rfl := List.mem_singleton.mp hs
      exact hempty
  have hadds : AddsName context (.obj fields) list .specifiers := by
    refine .specifiers ⟨by decide, rfl, rfl, specifier, [], rfl⟩ ?_
    rintro (⟨hall, _⟩ | ⟨_, hmarked | ⟨first, rest, heq, hmarked⟩⟩)
    · exact absurd hall (by decide)
    · cases hmarked
    · cases heq
      cases hmarked specifier List.mem_cons_self
  obtain ⟨houtcome, hplain, hunique⟩ :=
    checkExports_verdicts context fields [list, empty] rfl (.inl rfl) (by decide) rfl hshaped
  obtain ⟨ds, hds⟩ := hplain (.inl rfl)
  rcases houtcome with ⟨ds', reports, heq, hexact⟩ | ⟨_, _, _, _, _, hfault, _⟩
  · have hverdict : Verdict context (.obj fields) [list, empty] 0 .specifiers := .adds rfl hadds
    refine ⟨ds', reports, heq, hexact, (hexact.verdicts _ _).mpr hverdict, fun hearly => ?_⟩
    cases hunique _ _ _ hverdict ((hexact.verdicts _ _).mp hearly)
  · cases hds.symm.trans hfault

end TreeLint.Rule

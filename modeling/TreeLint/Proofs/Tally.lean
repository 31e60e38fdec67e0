/-
  Counting the items of a report.

  Each item is counted once as an error or a warning, and once more for its rule if it names one.  So the
  counts add up: those of the severities to the number of items, those of the rules to the number of items with
  a rule.  The items of a run all name the rule that reported them.
-/
import TreeLint.Command.Report
import TreeLint.Proofs.FirstSeen
import TreeLint.Proofs.Independence
import TreeLint.Proofs.Shape

set_option autoImplicit false

namespace TreeLint.Command

open TreeLint.Json TreeLint.Syntax TreeLint.Rule

/-! ## Items -/

/-- The value is a text. -/
def IsText (v : Value) : Prop :=
  ∃ s, v = .str s

/-- The item is an object, and its severity and its rule are texts, or absent. -/
structure Countable (item : Value) : Prop where
  object : item.isObject = true
  severity : OrAbsent IsText (fieldOf item "severity")
  rule : OrAbsent IsText (fieldOf item "rule")

/-- The item says that it is an error. -/
def saysError (item : Value) : Bool :=
  (fieldOf item "severity").isText "error"

/-- The item is one of the rule. -/
def isOfRule (name : String) (item : Value) : Bool :=
  (fieldOf item "rule").isText name

/-- The item names a rule. -/
def namesRule (item : Value) : Bool :=
  (fieldOf item "rule").truthy

/-- The rule that the item names. -/
def ruleName? (item : Value) : Option String :=
  if namesRule item then (fieldOf item "rule").text? else none

/-- The empty text names no rule. -/
theorem ruleName?_eq_some_iff {item : Value} {name : String} :
    ruleName? item = some name ↔ name ≠ "" ∧ isOfRule name item = true := by
  rw [ruleName?, namesRule, isOfRule, isText_iff]
  cases fieldOf item "rule" with
  | str s =>
    by_cases hs : s = ""
    · subst hs
      simp [Value.truthy]
    · have htruthy : (Value.str s).truthy = true := by simp [Value.truthy, hs]
      rw [if_pos htruthy, Value.text?, Option.some.injEq, Value.str.injEq]
      exact ⟨fun heq => ⟨heq ▸ hs, heq⟩, And.right⟩
  | _ => simp [Value.text?]

/-- The rule that an item of this sort names is a text. -/
theorem Countable.isSome_ruleName? {item : Value} (h : Countable item) :
    (ruleName? item).isSome = namesRule item := by
  rw [ruleName?]
  rcases h.rule with hrule | ⟨s, hrule⟩
  · simp [namesRule, hrule, Value.truthy]
  · cases hnames : namesRule item with
    | false => rfl
    | true => simp [hrule, Value.text?]

/-! ## Counts -/

/-- How often each name occurs in a row, names in the order in which they are first seen. -/
def tally (names : List String) : List (String × Nat) :=
  names.eraseDups.map fun name => (name, names.count name)

/-- Each name of a row is counted in one entry. -/
theorem nodup_tally (names : List String) : ((tally names).map Prod.fst).Nodup := by
  rw [tally, List.map_map]
  simpa [Function.comp_def] using nodup_eraseDups names

theorem mem_tally {names : List String} {name : String} {n : Nat} :
    (name, n) ∈ tally names ↔ 0 < n ∧ n = names.count name := by
  simp only [tally, List.mem_map, List.mem_eraseDups, Prod.mk.injEq]
  constructor
  · rintro ⟨other, hother, rfl, rfl⟩
    exact ⟨List.count_pos_iff.mpr hother, rfl⟩
  · rintro ⟨hpos, rfl⟩
    exact ⟨name, List.count_pos_iff.mp hpos, rfl, rfl⟩

/-- One more than a count so far. -/
def oneMore (n : Option Nat) : Nat :=
  n.getD 0 + 1

/-- Counting the names of a row one by one gives the tally. -/
theorem tabulate_oneMore (names : List String) :
    tabulate id (fun _ => oneMore) names = (tally names).map fun count => (.str count.1, count.2) := by
  have hother : ∀ (row : List String) (a other : String), other ≠ id a →
      (row ++ [a]).count other = row.count other := by
    intro row a other hne
    have hlast : other ∉ [a] := mt List.mem_singleton.mp hne
    rw [List.count_append, List.count_eq_zero_of_not_mem hlast, Nat.add_zero]
  have hhere : ∀ (row : List String) (a : String), (row ++ [a]).count (id a) =
      oneMore (if id a ∈ row.map id then some (row.count (id a)) else none) := by
    intro row a
    by_cases hmem : a ∈ row
    · simp [oneMore, hmem]
    · simp [oneMore, hmem, List.count_eq_zero_of_not_mem]
  rw [tabulate_eq_entriesOf (fun names name => names.count name) hother hhere, entriesOf, List.map_id, tally,
    List.map_map]
  rfl

/-- The counts of all names come to the length of the row. -/
theorem total_tally (names : List String) : total Prod.snd (tally names) = names.length := by
  have htotal := @total_tabulate String Nat id (fun _ => oneMore) id (fun _ => rfl) (fun _ _ => rfl) names
  rwa [tabulate_oneMore, total_map] at htotal

/-! ## Summaries -/

namespace Summary

/-- A count as the entry of a table. -/
def countEntry (count : Value × Nat) : Value × Value :=
  (count.1, .int count.2)

/-- The table of the counts of a row of rules. -/
def ruleTable (names : List String) : Table :=
  ⟨(tabulate id (fun _ => oneMore) names).map countEntry⟩

/-- The summary of a row of items and a row of rules. -/
def counted (items : List Value) (names : List String) : Summary :=
  ⟨items.countP saysError, items.countP fun item => !saysError item, ruleTable names⟩

theorem countRule_cons {k rule : Value} (hk : ¬k.alike rule = true) (v : Value)
    (rest : List (Value × Value)) :
    countRule ⟨(k, v) :: rest⟩ rule = ⟨(k, v) :: (countRule ⟨rest⟩ rule).entries⟩ := by
  have hfind : Table.find? ⟨(k, v) :: rest⟩ rule = Table.find? ⟨rest⟩ rule := by
    simp [Table.find?, hk]
  rw [countRule, countRule, hfind]
  split <;> simp [Table.put, Table.putEntry, hk]

/-- One more for a rule renews its count. -/
theorem countRule_eq_renew (rule : Value) (counts : List (Value × Nat)) :
    countRule ⟨counts.map countEntry⟩ rule = ⟨(renew rule oneMore counts).map countEntry⟩ := by
  induction counts with
  | nil => rfl
  | cons count rest ih =>
    obtain ⟨k, n⟩ := count
    by_cases hk : k.alike rule = true
    · simp [countRule, Table.find?, Table.put, Table.putEntry, renew, countEntry, oneMore, hk]
    · rw [List.map_cons, countEntry, countRule_cons hk, ih, renew, if_neg hk, List.map_cons, countEntry]

theorem countRule_ruleTable (names : List String) (name : String) :
    countRule (ruleTable names) (.str name) = ruleTable (names ++ [name]) := by
  rw [ruleTable, ruleTable, countRule_eq_renew, tabulate_concat, id]

theorem isError_of_orAbsent {fields : Fields} (h : OrAbsent IsText (Fields.get fields "severity")) :
    isError fields = .ok (saysError (.obj fields)) := by
  rw [isError, saysError, fieldOf_obj]
  cases hlookup : fields.lookup "severity" with
  | none => simp [Fields.get, hlookup, Value.isText, pure_eq_ok]
  | some severity =>
    have hget : Fields.get fields "severity" = severity := by
      simp [Fields.get, hlookup]
    rw [hget] at h ⊢
    rcases h with rfl | ⟨s, rfl⟩ <;> rfl

theorem countSeverity_counted (items : List Value) (names : List String) (item : Value) :
    (counted items names).countSeverity (saysError item) = counted (items ++ [item]) names := by
  rw [countSeverity]
  split
  · next hsays => simp [counted, hsays]
  · next hsays => simp [counted, hsays]

/-- One more item is counted once for its severity, and once for the rule that it names. -/
theorem add_counted (items : List Value) (names : List String) {item : Value} (h : Countable item) :
    (counted items names).add item =
      .ok (counted (items ++ [item]) (names ++ (ruleName? item).toList)) := by
  cases item with
  | obj fields =>
    rw [add, isError_of_orAbsent h.severity]
    show (if namesRule (.obj fields) then _ else _) = _
    rw [countSeverity_counted]
    by_cases hnames : namesRule (.obj fields) = true
    · obtain hrule | ⟨s, hrule⟩ := h.rule
      · rw [namesRule, hrule] at hnames
        cases hnames
      · have hname : ruleName? (.obj fields) = some s := by
          rw [ruleName?, if_pos hnames, hrule, Value.text?]
        rw [fieldOf_obj] at hrule
        rw [if_pos hnames, hrule, hname, Option.toList_some, counted, counted, ← countRule_ruleTable]
        rfl
    · have hname : ruleName? (.obj fields) = none := if_neg hnames
      rw [if_neg hnames, hname, Option.toList_none, List.append_nil]
      rfl
  | _ => cases h.object

/-- Each item of a row is counted once. -/
theorem of_countable {items : List Value} (h : ∀ item ∈ items, Countable item) :
    Summary.of (.arr items) = .ok (counted items (items.filterMap ruleName?)) := by
  show items.foldlM add empty = _
  induction items using List.reverseRecOn with
  | nil => rfl
  | append_singleton items item ih =>
    have hitem := h item (List.mem_append_right _ List.mem_cons_self)
    have hlast : [item].filterMap ruleName? = (ruleName? item).toList := by
      cases hname : ruleName? item <;> simp [hname]
    rw [List.foldlM_append, ih fun other hother => h other (List.mem_append_left _ hother),
      List.filterMap_append, hlast]
    show (counted items _).add item >>= pure = _
    rw [add_counted items _ hitem]
    rfl

/-- The document of a summary. -/
def documentOf (errors warnings total : Nat) (counts : List (String × Nat)) : Value :=
  .obj [("error", .int errors), ("warning", .int warnings), ("total", .int total),
    ("by_rule", .obj (counts.map fun count => (count.1, .int count.2)))]

theorem total_counted (items : List Value) (names : List String) :
    (counted items names).total = items.length := by
  rw [List.length_eq_countP_add_countP saysError]
  simp [Summary.total, counted]

theorem toValue_counted (items : List Value) (names : List String) :
    (counted items names).toValue =
      documentOf (items.countP saysError) (items.countP fun item => !saysError item) items.length
        (tally names) := by
  rw [toValue, total_counted]
  simp [counted, documentOf, ruleTable, tabulate_oneMore, Table.toValue, Table.fieldName, countEntry,
    Function.comp_def]

end Summary

/-! ## Rows of items -/

theorem count_filterMap_ruleName? {name : String} (hname : name ≠ "") (items : List Value) :
    (items.filterMap ruleName?).count name = items.countP (isOfRule name) := by
  rw [List.count_filterMap]
  refine List.countP_congr fun item _ => ?_
  rw [beq_iff_eq, ruleName?_eq_some_iff]
  exact and_iff_right hname

theorem length_filterMap_ruleName? {items : List Value} (h : ∀ item ∈ items, Countable item) :
    (items.filterMap ruleName?).length = items.countP namesRule := by
  rw [List.length_filterMap_eq_countP]
  refine List.countP_congr fun item hitem => ?_
  rw [(h item hitem).isSome_ruleName?]

/-- The document about a row of items has a count for each rule that they name. -/
theorem exists_counts {items : List Value} (h : ∀ item ∈ items, Countable item) :
    ∃ warnings counts,
      (Summary.of (.arr items)).map Summary.toValue =
        .ok (Summary.documentOf (items.countP saysError) warnings items.length counts) ∧
      items.countP saysError + warnings = items.length ∧ (counts.map Prod.fst).Nodup ∧
      (∀ name n, (name, n) ∈ counts ↔ name ≠ "" ∧ 0 < n ∧ n = items.countP (isOfRule name)) ∧
      total Prod.snd counts = items.countP namesRule := by
  refine ⟨items.countP fun item => !saysError item, tally (items.filterMap ruleName?), ?_, ?_, nodup_tally _,
    fun name n => ?_, ?_⟩
  · rw [Summary.of_countable h, ← Summary.toValue_counted]
    rfl
  · exact Summary.total_counted items []
  · rw [mem_tally]
    constructor
    · rintro ⟨hpos, rfl⟩
      obtain ⟨item, _, hitem⟩ := List.mem_filterMap.mp (List.count_pos_iff.mp hpos)
      obtain ⟨hname, _⟩ := ruleName?_eq_some_iff.mp hitem
      exact ⟨hname, hpos, count_filterMap_ruleName? hname items⟩
    · rintro ⟨hname, hpos, rfl⟩
      exact ⟨hpos, (count_filterMap_ruleName? hname items).symm⟩
  · rw [total_tally, length_filterMap_ruleName? h]

/-! ## Items of runs -/

/-- The name by which a rule is known in a report. -/
def reportName (rule : Rule) : String :=
  Rule.collection ++ "/" ++ rule.name

theorem reportName_injective {a b : Rule} (h : reportName a = reportName b) : a = b :=
  Rule.name_injective (String.append_right_inj _ |>.mp h)

theorem reportName_ne_empty (rule : Rule) : reportName rule ≠ "" := by
  cases rule <;> decide

theorem rule_item (d : Diagnostic) : fieldOf (item d) "rule" = .str (reportName d.rule) := rfl

theorem countable_item (d : Diagnostic) : Countable (item d) :=
  ⟨rfl, .inr ⟨d.severity.name, rfl⟩, .inr ⟨reportName d.rule, rfl⟩⟩

theorem saysError_item (d : Diagnostic) :
    saysError (item d) = decide (d.rule.info.category = .problem) := by
  show (Value.str d.rule.info.category.severity.name).isText "error" = _
  cases d.rule.info.category <;> rfl

theorem namesRule_item (d : Diagnostic) : namesRule (item d) = true := by
  rw [namesRule, rule_item, Value.truthy]
  simpa using reportName_ne_empty d.rule

theorem isOfRule_item (rule : Rule) (d : Diagnostic) :
    isOfRule (reportName rule) (item d) = decide (d.rule = rule) := by
  rw [Bool.eq_iff_iff, isOfRule, rule_item, isText_iff, Value.str.injEq, decide_eq_true_eq]
  exact ⟨reportName_injective, congrArg reportName⟩

/-- Counting items is counting diagnostics. -/
theorem countP_items {p : Value → Bool} {q : Diagnostic → Bool} (h : ∀ d, p (item d) = q d)
    (ds : List Diagnostic) : (ds.map item).countP p = ds.countP q := by
  rw [List.countP_map]
  exact List.countP_congr fun d _ => by rw [Function.comp, h]

/-- The rules that are counted for the items of a run are those that have reported. -/
theorem isOfRule_items_iff {engine : Engine} {program text bindings : Value} {ds : List Diagnostic}
    (hrun : engine.run program text bindings = .ok ds) {name : String} {n : Nat} :
    (name ≠ "" ∧ 0 < n ∧ n = (ds.map item).countP (isOfRule name)) ↔
      ∃ rule ∈ engine.rules, name = reportName rule ∧ 0 < n ∧
        n = ds.countP fun d => decide (d.rule = rule) := by
  constructor
  · rintro ⟨_, hpos, rfl⟩
    obtain ⟨i, hi, hname⟩ := List.countP_pos_iff.mp hpos
    obtain ⟨d, hd, rfl⟩ := List.mem_map.mp hi
    rw [isOfRule, rule_item, isText_iff, Value.str.injEq] at hname
    subst hname
    exact ⟨d.rule, rule_mem_of_run hrun hd, rfl, hpos, countP_items (isOfRule_item d.rule) ds⟩
  · rintro ⟨rule, _, rfl, hpos, hcount⟩
    exact ⟨reportName_ne_empty rule, hpos, hcount.trans (countP_items (isOfRule_item rule) ds).symm⟩

/-- The summary counts every item once.  Of items whose severities and rules are texts or absent, those that
say that they are errors and all others come to the number of items.  The rules that are named are counted
under their names, each in one entry, and the counts come to the number of items that name one.  The items of
a run are counted as its diagnostics are: the errors are those of rules about problems, and each rule that has
reported is counted under its own name. -/
theorem summary_counts_once :
    (∀ items : List Value, (∀ item ∈ items, Countable item) →
      ∃ warnings counts,
        (Summary.of (.arr items)).map Summary.toValue =
          .ok (Summary.documentOf (items.countP saysError) warnings items.length counts) ∧
        items.countP saysError + warnings = items.length ∧ (counts.map Prod.fst).Nodup ∧
        (∀ name n, (name, n) ∈ counts ↔ name ≠ "" ∧ 0 < n ∧ n = items.countP (isOfRule name)) ∧
        total Prod.snd counts = items.countP namesRule) ∧
    ∀ (engine : Engine) (program text bindings : Value) (ds : List Diagnostic),
      engine.run program text bindings = .ok ds →
      ∃ warnings counts,
        (Summary.of (.arr (Result.analysed ds).items)).map Summary.toValue =
          .ok (Summary.documentOf (ds.countP fun d => decide (d.rule.info.category = .problem)) warnings
            ds.length counts) ∧
        (ds.countP fun d => decide (d.rule.info.category = .problem)) + warnings = ds.length ∧
        (counts.map Prod.fst).Nodup ∧
        (∀ name n, (name, n) ∈ counts ↔ ∃ rule ∈ engine.rules, name = Rule.collection ++ "/" ++ rule.name ∧
          0 < n ∧ n = ds.countP fun d => decide (d.rule = rule)) ∧
        total Prod.snd counts = ds.length := by
  refine ⟨fun items h => exists_counts h, fun engine program text bindings ds hrun => ?_⟩
  have hitems : ∀ i ∈ ds.map item, Countable i := by
    intro i hi
    obtain ⟨d, _, rfl⟩ := List.mem_map.mp hi
    exact countable_item d
  obtain ⟨warnings, counts, hdocument, hall, hnodup, hcounts, htotal⟩ := exists_counts hitems
  rw [List.length_map, countP_items saysError_item] at hdocument hall
  refine ⟨warnings, counts, hdocument, hall, hnodup,
    fun name n => (hcounts name n).trans (isOfRule_items_iff hrun), ?_⟩
  rw [htotal, countP_items namesRule_item, List.countP_true]

/-- Items of all sorts: one has a severity of no meaning and an empty rule, one has neither.  And a program with
two switch statements and an empty catch clause, of which the clause alone is an error. -/
theorem summary_counts_once_mixed :
    let items : List Value :=
      [.obj [("severity", .str "error"), ("rule", .str "no-else")],
        .obj [("severity", .null), ("rule", .str "no-else")],
        .obj [("severity", .str "grave"), ("rule", .str "")], .obj [("rule", .null)], .obj []]
    let block : Value := .obj [("type", .str "BlockStatement"), ("body", .arr [])]
    let clause : Value := .obj [("type", .str "CatchClause"), ("body", block)]
    let choice : Value := .obj [("type", .str "SwitchStatement")]
    let program : Value := .obj [("type", .str "Program"), ("body", .arr [choice, clause, choice])]
    (∀ item ∈ items, Countable item) ∧
      (∃ counts, (Summary.of (.arr items)).map Summary.toValue = .ok (Summary.documentOf 1 4 5 counts) ∧
        ("no-else", 2) ∈ counts ∧ total Prod.snd counts = 2) ∧
      ∃ ds counts, Engine.run ⟨[.noSwitch, .noSwallowedCatch], .null, false⟩ program .null .null = .ok ds ∧
        (Summary.of (.arr (Result.analysed ds).items)).map Summary.toValue =
          .ok (Summary.documentOf 1 2 3 counts) ∧
        ("inhuman/no-switch", 2) ∈ counts ∧ total Prod.snd counts = 3 := by
  intro items block clause choice program
  have hitems : ∀ item ∈ items, Countable item := by
    intro item hitem
    simp only [items, List.mem_cons, List.not_mem_nil, or_false] at hitem
    rcases hitem with rfl | rfl | rfl | rfl | rfl
    · exact ⟨rfl, .inr ⟨_, rfl⟩, .inr ⟨_, rfl⟩⟩
    · exact ⟨rfl, .inl rfl, .inr ⟨_, rfl⟩⟩
    · exact ⟨rfl, .inr ⟨_, rfl⟩, .inr ⟨_, rfl⟩⟩
    · exact ⟨rfl, .inl rfl, .inl rfl⟩
    · exact ⟨rfl, .inl rfl, .inl rfl⟩
  have hcount : (checkVisits (Engine.contexts ⟨[.noSwitch, .noSwallowedCatch], .null, false⟩ [] .null .null)
      program (traverse [⟨[], program⟩])).toOption.map (fun found => (found.length,
        (found.countP fun d => decide (d.rule.info.category = .problem)),
        found.countP fun d => decide (d.rule = .noSwitch))) = some (3, 1, 2) := by decide +kernel
  obtain ⟨found, hfound, hnumbers⟩ := Option.map_eq_some_iff.mp hcount
  obtain ⟨hlength, hnumbers⟩ := Prod.mk.inj hnumbers
  obtain ⟨hproblems, hchoices⟩ := Prod.mk.inj hnumbers
  have hperm := inOrder_perm found
  rw [← hperm.length_eq] at hlength
  rw [← hperm.countP_eq] at hproblems hchoices
  have hrun : Engine.run ⟨[.noSwitch, .noSwallowedCatch], .null, false⟩ program .null .null =
      .ok (inOrder found) :=
    run_eq_ok_iff.mpr ⟨[], _, found, rfl, rfl, toOption_eq_some_iff.mp hfound, rfl⟩
  obtain ⟨hany, hruns⟩ := summary_counts_once
  obtain ⟨warnings, counts, hdocument, hall, _, hcounts, htotal⟩ := hany items hitems
  obtain ⟨others, reported, hwritten, hsum, _, hreported, hfull⟩ := hruns _ _ _ _ _ hrun
  rw [hproblems, hlength] at hwritten hsum
  obtain rfl : warnings = 4 := Nat.add_left_cancel hall
  obtain rfl : others = 2 := Nat.add_left_cancel hsum
  refine ⟨hitems, ⟨counts, hdocument, (hcounts _ _).mpr (by decide), htotal⟩, inOrder found, reported, hrun,
    hwritten, (hreported _ _).mpr ⟨.noSwitch, by decide, rfl, by decide, hchoices.symm⟩, ?_⟩
  rw [hfull, hlength]

end TreeLint.Command

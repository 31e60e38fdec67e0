/-
  The uses of a name.

  A search through a program and a table made beforehand both list the uses of a name by their
  spans.  What a question about the name is answered with depends only on which spans are listed,
  not on where the list comes from, on its order, or on how often a span is in it.
-/
import TreeLint.Proofs.Exclusion

set_option autoImplicit false

namespace TreeLint.Usage

open TreeLint.Json TreeLint.Syntax

namespace Strategy

/-- The strategy lists the uses of a name without a fault.  The spans that it lists are those with the
given property, and they are missing or made of whole numbers. -/
def Lists (strategy : Strategy) (name : String) (P : Option Span → Prop) : Prop :=
  ∃ uses : List (Option Span), strategy.useSpans (.str name) = uses.map .ok ∧
    (∀ use ∈ uses, ∀ s, use = some s → s.IsWhole) ∧ ∀ use, use ∈ uses ↔ P use

/-- A plain question about a name whose uses are listed is answered by whether one of the listed spans
lies outside. -/
theorem Lists.answer_decides {strategy : Strategy} {name : String} {P : Option Span → Prop}
    (h : strategy.Lists name P) {q : Question} (hplain : q.IsPlain) (hname : q.name = .str name) :
    Decides (q.answer strategy) (∃ use, P use ∧ Outside q.excluded use) := by
  obtain ⟨uses, huses, hwhole, hmem⟩ := h
  rw [Question.answer, hname, huses]
  refine (anyOutside_decides hplain.2 hwhole).congr ?_
  simp only [hmem]

/-- Two strategies that list the same spans answer plain questions alike. -/
theorem Lists.answer_eq {a b : Strategy} {name : String} {P : Option Span → Prop}
    (ha : a.Lists name P) (hb : b.Lists name P) {q : Question} (hplain : q.IsPlain)
    (hname : q.name = .str name) : q.answer a = q.answer b := by
  rcases ha.answer_decides hplain hname with ⟨hx, hout⟩ | ⟨hx, hout⟩
  · rw [hx, ((hb.answer_decides hplain hname).ok_true_iff).mpr hout]
  · rw [hx, ((hb.answer_decides hplain hname).ok_false_iff).mpr hout]

/-- What is chosen from a row is listed when each choice gives a plain span. -/
theorem exists_listed {α : Type} (choice : α → Option (Except Fault (Option Span))) {row : List α}
    (h : ∀ a ∈ row, ∀ x, choice a = some x →
      ∃ use, x = .ok use ∧ ∀ s, use = some s → s.IsWhole) :
    ∃ uses : List (Option Span), row.filterMap choice = uses.map .ok ∧
      (∀ use ∈ uses, ∀ s, use = some s → s.IsWhole) ∧
      ∀ use, use ∈ uses ↔ ∃ a ∈ row, choice a = some (.ok use) := by
  have hchosen : ∀ x ∈ row.filterMap choice,
      ∃ use, x = .ok use ∧ ∀ s, use = some s → s.IsWhole := by
    intro x hx
    obtain ⟨a, ha, hchoice⟩ := List.mem_filterMap.mp hx
    exact h a ha x hchoice
  obtain ⟨uses, huses, hwhole⟩ := exists_eq_map_ok hchosen
  refine ⟨uses, huses, hwhole, fun use => ?_⟩
  rw [← List.mem_filterMap, huses, List.mem_map]
  constructor
  · intro huse
    exact ⟨use, huse, rfl⟩
  · rintro ⟨other, hother, heq⟩
    exact Except.ok.inj heq ▸ hother

/-! ## From the program -/

/-- The use is one of the occurrences, which refers to a variable. -/
def FoundUse (found : List Occurrence) (use : Option Span) : Prop :=
  ∃ o ∈ found, o.role = .reference ∧ span o.node = .ok use

/-- A search lists the occurrences that refer to a variable. -/
theorem scan_lists {program : Value} {name : String} {found : List Occurrence}
    (hfound : occurrences program (.str name) = found.map .ok)
    (hplain : ∀ o ∈ found, HasPlainSpan o.node) : (scan program).Lists name (FoundUse found) := by
  have hchoice : ∀ o : Occurrence, useSpan? (.ok o) =
      if o.role = .reference then some (span o.node) else none := fun _ => rfl
  have hfaultless : ∀ o ∈ found, ∀ x, useSpan? (.ok o) = some x →
      ∃ use, x = .ok use ∧ ∀ s, use = some s → s.IsWhole := by
    intro o ho x hx
    rw [hchoice] at hx
    split at hx
    · obtain ⟨use, hspan, hs⟩ := hplain o ho
      exact ⟨use, (Option.some.inj hx).symm.trans hspan, hs⟩
    · cases hx
  obtain ⟨uses, huses, hwhole, hmem⟩ := exists_listed (fun o => useSpan? (.ok o)) hfaultless
  refine ⟨uses, ?_, hwhole, fun use => ?_⟩
  · rw [useSpans, hfound, List.filterMap_map]
    exact huses
  · rw [hmem, FoundUse]
    constructor
    · rintro ⟨o, ho, hx⟩
      rw [hchoice] at hx
      split at hx
      · next hrole => exact ⟨o, ho, hrole, Option.some.inj hx⟩
      · cases hx
    · rintro ⟨o, ho, hrole, hspan⟩
      exact ⟨o, ho, by rw [hchoice, if_pos hrole, hspan]⟩

/-! ## From a table -/

/-- The entry of a text in the table that an object is. -/
theorem find?_ofFields (fields : Fields) (name : String) :
    (Table.ofFields fields).find? (.str name) = fields.lookup name := by
  induction fields with
  | nil => rfl
  | cons field rest ih =>
    obtain ⟨key, value⟩ := field
    have hcons : (Table.ofFields ((key, value) :: rest)).find? (.str name) =
        if key == name then some value else (Table.ofFields rest).find? (.str name) := by
      simp only [Table.ofFields, Table.find?, List.map_cons, List.find?_cons, Value.alike_str]
      cases key == name <;> rfl
    rw [hcons, ih, List.lookup_cons, Bool.beq_comm]
    cases name == key <;> rfl

/-- The entry records a use: it says so, or does not say what it records. -/
def RecordsUse (fields : Fields) : Prop :=
  fields.lookup "kind" = none ∨ fields.lookup "kind" = some (.str "reference")

/-- The use is recorded in one of the entries. -/
def RecordedUse (entries : List Value) (use : Option Span) : Prop :=
  ∃ fields, .obj fields ∈ entries ∧ RecordsUse fields ∧ spanOf fields = use

/-- The entry is an object with a plain span. -/
def IsPlainEntry (entry : Value) : Prop :=
  ∃ fields, entry = .obj fields ∧ hasWholeSpan fields = true

theorem entrySpan?_eq_some_iff {fields : Fields} {x : Except Fault (Option Span)} :
    entrySpan? (.obj fields) = some x ↔ RecordsUse fields ∧ x = .ok (spanOf fields) := by
  simp only [entrySpan?, RecordsUse]
  cases fields.lookup "kind" with
  | none =>
    simp only [true_or, true_and, Option.some.injEq]
    exact eq_comm
  | some kind =>
    dsimp only
    by_cases htext : kind.isText Role.reference.name = true
    · have hkind : kind = .str "reference" := isText_iff.mp htext
      rw [if_pos htext, hkind, Option.some.injEq]
      simp only [reduceCtorEq, or_true, true_and]
      exact eq_comm
    · have hkind : kind ≠ .str "reference" := fun h => htext (isText_iff.mpr h)
      simp [htext, hkind]

/-- A table lists what the entries of the name record. -/
theorem table_lists {fields : Fields} {name : String} {entries : List Value}
    (hentries : (Fields.get fields name).orEmpty = .arr entries)
    (hplain : ∀ entry ∈ entries, IsPlainEntry entry) :
    (table (Table.ofFields fields)).Lists name (RecordedUse entries) := by
  have huses : (table (Table.ofFields fields)).useSpans (.str name) =
      entries.filterMap entrySpan? := by
    have hget : ((Table.ofFields fields).find? (.str name)).getD .null = Fields.get fields name := by
      rw [find?_ofFields, Fields.get]
    rw [useSpans, hget, hentries]
    rfl
  have hfaultless : ∀ entry ∈ entries, ∀ x, entrySpan? entry = some x →
      ∃ use, x = .ok use ∧ ∀ s, use = some s → s.IsWhole := by
    intro entry hentry x hx
    obtain ⟨content, rfl, hspan⟩ := hplain entry hentry
    obtain ⟨_, rfl⟩ := entrySpan?_eq_some_iff.mp hx
    refine ⟨_, rfl, fun s hs => ?_⟩
    rw [hasWholeSpan, hs] at hspan
    exact Span.isWhole_iff.mpr hspan
  obtain ⟨uses, hlisted, hwhole, hmem⟩ := exists_listed entrySpan? hfaultless
  refine ⟨uses, huses.trans hlisted, hwhole, fun use => ?_⟩
  rw [hmem, RecordedUse]
  constructor
  · rintro ⟨entry, hentry, hx⟩
    obtain ⟨content, rfl, _⟩ := hplain entry hentry
    obtain ⟨hrecords, heq⟩ := entrySpan?_eq_some_iff.mp hx
    exact ⟨content, hentry, hrecords, (Except.ok.inj heq).symm⟩
  · rintro ⟨content, hentry, hrecords, hspan⟩
    exact ⟨.obj content, hentry, entrySpan?_eq_some_iff.mpr ⟨hrecords, by rw [hspan]⟩⟩

end Strategy

end TreeLint.Usage

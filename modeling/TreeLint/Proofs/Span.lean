/-
  Spans of whole numbers.

  Whole numbers can always be compared, so that spans of whole numbers can be put in order and held
  against each other.  A node with such a span, or with none, has a place in the text, known or not, and
  can be reported.
-/
import TreeLint.Proofs.Shape
import TreeLint.Rule.Report

set_option autoImplicit false

namespace TreeLint.Syntax

open TreeLint.Json

/-! ## Comparing whole numbers -/

/-- A value that counts as a whole number is that number in every comparison. -/
theorem number?_of_whole? {v : Value} {n : Int} (h : v.whole? = some n) :
    v.number? = some (.whole n) := by
  cases v with
  | bool b =>
    cases h
    rfl
  | int m =>
    cases h
    rfl
  | _ => cases h

theorem isKey_of_whole? {v : Value} {n : Int} (h : v.whole? = some n) : v.isKey = true := by
  cases v with
  | bool b => rfl
  | int m => rfl
  | _ => cases h

/-- How a whole number comes before another value depends on the number only. -/
theorem precedes_of_whole?_left {a : Value} {m : Int} (h : a.whole? = some m) (orEqual : Bool)
    (b : Value) :
    Value.precedes orEqual a b = match b.number? with
      | some y => .ok ((Number.whole m).precedes orEqual y)
      | none => .error .unsuited := by
  cases a with
  | bool c =>
    cases h
    cases b <;> simp [Value.precedes, Value.number?]
  | int c =>
    cases h
    cases b <;> simp [Value.precedes, Value.number?]
  | _ => cases h

/-- How a whole number comes after another value depends on the number only. -/
theorem precedes_of_whole?_right {b : Value} {n : Int} (h : b.whole? = some n) (orEqual : Bool)
    (a : Value) :
    Value.precedes orEqual a b = match a.number? with
      | some x => .ok (x.precedes orEqual (.whole n))
      | none => .error .unsuited := by
  cases b with
  | bool c =>
    cases h
    cases a <;> simp [Value.precedes, Value.number?]
  | int c =>
    cases h
    cases a <;> simp [Value.precedes, Value.number?]
  | _ => cases h

theorem precedes_whole (m n : Int) :
    (Number.whole m).precedes true (.whole n) = decide (m ≤ n) := by
  simp only [Number.precedes, Number.compare?]
  rcases Int.lt_trichotomy m n with h | h | h
  · simp [compare, compareOfLessAndEq, h, Int.le_of_lt h]
  · simp [compare, compareOfLessAndEq, h]
  · simp [compare, compareOfLessAndEq, Int.not_lt.mpr (Int.le_of_lt h), (Int.ne_of_lt h).symm, h]

/-- Two whole numbers are alike when they are the same number. -/
theorem alike_of_whole? {a b : Value} {m n : Int} (ha : a.whole? = some m)
    (hb : b.whole? = some n) : a.alike b = decide (m = n) := by
  have hnan : a.isNaN = false := by
    cases a with
    | float x => cases ha
    | _ => rfl
  have hsame : a.same b = a.sameNumber b := by
    cases a with
    | bool c => cases b <;> simp only [Value.same]
    | int c => cases b <;> simp only [Value.same]
    | _ => cases ha
  have hnumber : a.sameNumber b = (some (compare m n) == some .eq) := by
    rw [Value.sameNumber, number?_of_whole? ha, number?_of_whole? hb]
    rfl
  rw [Value.alike_of_isNaN_eq_false _ hnan, hsame, hnumber]
  rcases Int.lt_trichotomy m n with h | h | h
  · simp [compare, compareOfLessAndEq, h, Int.ne_of_lt h]
  · simp [compare, compareOfLessAndEq, h]
  · simp [compare, compareOfLessAndEq, Int.not_lt.mpr (Int.le_of_lt h), (Int.ne_of_lt h).symm]

namespace Span

/-- Both ends are whole numbers. -/
def IsWhole (s : Span) : Prop :=
  ∃ start stop, s.start.whole? = some start ∧ s.stop.whole? = some stop

theorem isWhole_iff {s : Span} : s.IsWhole ↔ s.wholeEnds?.isSome = true := by
  unfold IsWhole wholeEnds?
  cases s.start.whole? with
  | none => simp
  | some start =>
    cases s.stop.whole? with
    | none => simp
    | some stop => simp

theorem IsWhole.isKey {s : Span} (h : s.IsWhole) : s.isKey = true := by
  obtain ⟨start, stop, hstart, hstop⟩ := h
  rw [Span.isKey, isKey_of_whole? hstart, isKey_of_whole? hstop]
  rfl

/-- A span lies inside another one, both ends included. -/
def Within (inner outer : Span) : Prop :=
  inner.inside outer = .ok true

/-- Between spans of whole numbers, lying inside is the comparison of the two ends. -/
theorem inside_eq {inner outer : Span} {a b c d : Int} (ha : inner.start.whole? = some a)
    (hb : inner.stop.whole? = some b) (hc : outer.start.whole? = some c)
    (hd : outer.stop.whole? = some d) : inner.inside outer = .ok (decide (c ≤ a ∧ b ≤ d)) := by
  have hstart : Value.precedes true outer.start inner.start = .ok (decide (c ≤ a)) := by
    rw [precedes_of_whole?_left hc, number?_of_whole? ha]
    exact congrArg Except.ok (precedes_whole c a)
  have hstop : Value.precedes true inner.stop outer.stop = .ok (decide (b ≤ d)) := by
    rw [precedes_of_whole?_left hb, number?_of_whole? hd]
    exact congrArg Except.ok (precedes_whole b d)
  rw [inside, hstart, hstop, ok_bind]
  by_cases hca : c ≤ a
  · simp [hca]
  · simp [hca]

/-- Whether one span of whole numbers lies inside another can always be said. -/
theorem inside_decides {inner outer : Span} (hinner : inner.IsWhole) (houter : outer.IsWhole) :
    Decides (inner.inside outer) (inner.Within outer) := by
  obtain ⟨a, b, ha, hb⟩ := hinner
  obtain ⟨c, d, hc, hd⟩ := houter
  exact .of_exists_ok ⟨_, inside_eq ha hb hc hd⟩

/-- Spans of the same whole numbers exclude the same uses, of whatever kind these are. -/
theorem inside_congr {outer other : Span} (houter : outer.IsWhole) (hother : other.IsWhole)
    (h : outer.alike other = true) (inner : Span) : inner.inside outer = inner.inside other := by
  obtain ⟨a, b, ha, hb⟩ := houter
  obtain ⟨c, d, hc, hd⟩ := hother
  rw [Span.alike, alike_of_whole? ha hc, alike_of_whole? hb hd] at h
  obtain ⟨rfl, rfl⟩ : a = c ∧ b = d := by simpa using h
  rw [inside, inside, precedes_of_whole?_left ha, precedes_of_whole?_left hc,
    precedes_of_whole?_right hb, precedes_of_whole?_right hd]

/-- Spans of whole numbers can be put in order. -/
theorem exists_sort {spans : List Span} (h : ∀ s ∈ spans, s.IsWhole) :
    ∃ sorted, Span.sort spans = .ok sorted ∧ sorted.Perm spans := by
  have hall : (spans.all fun s => s.wholeEnds?.isSome) = true :=
    List.all_eq_true.mpr fun s hs => isWhole_iff.mp (h s hs)
  refine ⟨spans.mergeSort notAfter, ?_, List.mergeSort_perm _ _⟩
  rw [Span.sort, if_pos hall]

end Span

/-- The ends of a node's span, where they are whole numbers. -/
def extent? (v : Value) : Option (Int × Int) :=
  match span v with
  | .ok (some s) => s.wholeEnds?
  | _ => none

theorem extent?_eq_some_iff {v : Value} {a b : Int} :
    extent? v = some (a, b) ↔
      ∃ s, span v = .ok (some s) ∧ s.start.whole? = some a ∧ s.stop.whole? = some b := by
  unfold extent?
  cases hspan : span v with
  | error fault => simp
  | ok use =>
    cases use with
    | none => simp
    | some s =>
      simp only [Except.ok.injEq, Option.some.injEq, exists_eq_left', Span.wholeEnds?]
      cases s.start.whole? with
      | none => simp
      | some start =>
        cases s.stop.whole? with
        | none => simp
        | some stop => simp

/-- The span of a node can be read, and is missing or made of whole numbers. -/
def HasPlainSpan (v : Value) : Prop :=
  ∃ use, span v = .ok use ∧ ∀ s, use = some s → s.IsWhole

/-- A span with whole ends is one. -/
theorem hasPlainSpan_of_extent? {v : Value} (h : (extent? v).isSome = true) : HasPlainSpan v := by
  obtain ⟨⟨a, b⟩, hextent⟩ := Option.isSome_iff_exists.mp h
  obtain ⟨s, hspan, hstart, hstop⟩ := extent?_eq_some_iff.mp hextent
  refine ⟨some s, hspan, ?_⟩
  rintro _ ⟨⟩
  exact ⟨a, b, hstart, hstop⟩

/-- A shaped node has such a span. -/
theorem ShapedBy.hasPlainSpan {table : ShapeTable} {S : Value → Prop} (T : ShapedBy table S) {v : Value}
    (h : S v) : HasPlainSpan v := by
  obtain ⟨fields, _, rfl, _, _, hspan⟩ := T.exists_fields h
  refine ⟨spanOf fields, rfl, fun s hs => ?_⟩
  rw [hasWholeSpan, hs] at hspan
  exact Span.isWhole_iff.mpr hspan

end TreeLint.Syntax

namespace TreeLint.Rule

open TreeLint.Json TreeLint.Syntax

/-! ## Places and reports -/

theorem sliceBound_of_whole? {v : Value} {n : Int} (h : v.whole? = some n) :
    Source.sliceBound v = .ok (some n) := by
  unfold Source.sliceBound
  rw [h]
  cases v with
  | null => cases h
  | _ => rfl

/-- The text of a node with a plain span can be read, if there is one. -/
theorem gives_textOf {source : Source}
    (htext : source.text = .null ∨ ∃ text, source.text = .str text) {v : Value} (h : HasPlainSpan v) :
    Gives (source.textOf v) fun found => found = .null ∨ ∃ s, found = .str s := by
  obtain ⟨use, huse, hwhole⟩ := h
  rw [Source.textOf, huse, ok_bind]
  cases use with
  | none => exact .ok (.inl rfl)
  | some s =>
    obtain ⟨start, stop, hstart, hstop⟩ := hwhole s rfl
    refine .ite (fun _ => .ok (.inl rfl)) fun hknown => ?_
    obtain ⟨text, htext⟩ := htext.resolve_left fun hnull => hknown (isNull_iff.mpr hnull)
    simp only [Source.between, sliceBound_of_whole? hstart, sliceBound_of_whole? hstop, ok_bind, htext]
    exact .ok (.inr ⟨_, rfl⟩)

/-- A node with a plain span has a place in a text, known or not. -/
theorem exists_locationOf {source : Source}
    (htext : source.text = .null ∨ ∃ text, source.text = .str text) {fields : Fields}
    (h : HasPlainSpan (.obj fields)) : ∃ location, source.locationOf (.obj fields) = .ok location := by
  obtain ⟨use, huse, hwhole⟩ := h
  obtain ⟨own, hown⟩ : ∃ own, Source.ownLocation? (.obj fields) = .ok own := by
    simp only [Source.ownLocation?, Value.get, ok_bind, pure_eq_ok]
    split
    · split
      · exact ⟨_, rfl⟩
      · exact ⟨none, rfl⟩
    · exact ⟨none, rfl⟩
  rw [Source.locationOf, hown, huse]
  cases own with
  | some location => exact ⟨location, rfl⟩
  | none =>
    cases use with
    | none => exact ⟨.unknown, rfl⟩
    | some s =>
      obtain ⟨start, _, hstart, _⟩ := hwhole s rfl
      rcases htext with htext | ⟨text, htext⟩
      · exact ⟨.unknown, by simp [htext, Value.isNull]⟩
      · refine ⟨Source.locate (Source.lineStarts (text.toList.map (· == '\n'))) (.whole start), ?_⟩
        have hstarts : Source.startsOf (.str text) =
            .ok (Source.lineStarts (text.toList.map (· == '\n'))) := by
          unfold Source.startsOf
          by_cases hpresent : (Value.str text).truthy = true
          · simp [hpresent, Source.lineEnds]
          · obtain rfl : text = "" := by simpa [Value.truthy] using hpresent
            rfl
        simp [htext, Value.isNull, Source.locationOfSpan, hstarts, number?_of_whole? hstart]

/-- A node with a plain span can be reported under each message of the rule. -/
theorem exists_report {context : Context} {id message : String}
    (hmessage : context.rule.info.messages.lookup id = some message)
    (htext : context.source.text = .null ∨ ∃ text, context.source.text = .str text) {fields : Fields}
    (h : HasPlainSpan (.obj fields)) : ∃ d, context.report (.obj fields) id = .ok d := by
  obtain ⟨location, hlocation⟩ := exists_locationOf htext h
  obtain ⟨use, huse, _⟩ := h
  exact ⟨⟨context.rule, id, message, location, use⟩,
    by simp [Context.report, hmessage, hlocation, huse]⟩

end TreeLint.Rule

/-
  Offsets as lines and columns.

  The lines of a text start at zero and after each line feed.  An offset that is not negative stands in the
  line that starts last before it: the line counts the line feeds in front of the offset, and the column is
  how far the offset lies behind the start of its line.  Line and column give the offset back, and they are
  in the order of the offsets, behind the end of the text as well as in it.
-/
import TreeLint.Proofs.ReportOrder

set_option autoImplicit false

namespace TreeLint.Source

open TreeLint.Json TreeLint.Syntax

/-! ## The table of line starts -/

/-- The offsets at which the lines of a text start. -/
def startsIn (cs : List Char) : List Nat :=
  lineStarts (cs.map (· == '\n'))

theorem startsIn_nil : startsIn [] = [0] := rfl

/-- One more character starts a line when it is a line feed. -/
theorem startsIn_concat (front : List Char) (c : Char) :
    startsIn (front ++ [c]) = startsIn front ++ if c = '\n' then [front.length + 1] else [] := by
  simp only [startsIn, lineStarts, List.map_append, List.zipIdx_append, List.filterMap_append,
    List.cons_append, List.length_map, List.map_cons, List.map_nil]
  by_cases hc : c = '\n' <;> simp [hc]

/-- There is one line more than there are line feeds. -/
theorem length_startsIn (cs : List Char) : (startsIn cs).length = cs.count '\n' + 1 := by
  induction cs using List.reverseRecOn with
  | nil => rfl
  | append_singleton front c ih =>
    rw [startsIn_concat, List.length_append, ih, List.count_append]
    by_cases hc : c = '\n' <;> simp [hc]

/-- No line starts behind the end of the text. -/
theorem le_length_of_mem_startsIn {cs : List Char} {start : Nat} (h : start ∈ startsIn cs) :
    start ≤ cs.length := by
  induction cs using List.reverseRecOn with
  | nil =>
    rw [startsIn_nil, List.mem_singleton] at h
    simp [h]
  | append_singleton front c ih =>
    rw [startsIn_concat, List.mem_append] at h
    rw [List.length_append, List.length_singleton]
    rcases h with hfront | hlast
    · have := ih hfront
      omega
    · split at hlast
      · rw [List.mem_singleton] at hlast
        omega
      · cases hlast

/-- A longer text has the same line starts and further ones, which come after the end of the first part. -/
theorem exists_startsIn_append (front back : List Char) :
    ∃ later, startsIn (front ++ back) = startsIn front ++ later ∧
      ∀ start ∈ later, front.length < start := by
  induction back using List.reverseRecOn with
  | nil => exact ⟨[], by simp, by simp⟩
  | append_singleton back c ih =>
    obtain ⟨later, hstarts, hlater⟩ := ih
    refine ⟨later ++ if c = '\n' then [(front ++ back).length + 1] else [], ?_, ?_⟩
    · rw [← List.append_assoc front, startsIn_concat, hstarts, List.append_assoc]
    · intro start hstart
      rcases List.mem_append.mp hstart with hstart | hstart
      · exact hlater start hstart
      · split at hstart
        · rw [List.mem_singleton, List.length_append] at hstart
          omega
        · cases hstart

/-- The offset after the last line feed, zero when there is none. -/
def LastStart (cs : List Char) (start : Nat) : Prop :=
  (start = 0 ∧ '\n' ∉ cs) ∨
    ∃ before after, cs = before ++ '\n' :: after ∧ '\n' ∉ after ∧ start = before.length + 1

/-- The last of the line starts comes after the last line feed. -/
theorem exists_getLast?_startsIn (cs : List Char) :
    ∃ start, (startsIn cs).getLast? = some start ∧ LastStart cs start := by
  induction cs using List.reverseRecOn with
  | nil => exact ⟨0, rfl, .inl ⟨rfl, by simp⟩⟩
  | append_singleton front c ih =>
    by_cases hc : c = '\n'
    · refine ⟨front.length + 1, ?_, .inr ⟨front, [], by rw [hc], by simp, rfl⟩⟩
      rw [startsIn_concat, if_pos hc, List.getLast?_concat]
    · obtain ⟨start, hlast, hstart⟩ := ih
      refine ⟨start, ?_, ?_⟩
      · rw [startsIn_concat, if_neg hc, List.append_nil, hlast]
      · rcases hstart with ⟨rfl, hnone⟩ | ⟨before, after, rfl, hnone, rfl⟩
        · exact .inl ⟨rfl, by simp [hnone, Ne.symm hc]⟩
        · exact .inr ⟨before, after ++ [c], by simp, by simp [hnone, Ne.symm hc], rfl⟩

theorem LastStart.le_length {cs : List Char} {start : Nat} (h : LastStart cs start) :
    start ≤ cs.length := by
  rcases h with ⟨rfl, _⟩ | ⟨before, after, rfl, _, rfl⟩
  · exact Nat.zero_le _
  · simp only [List.length_append, List.length_cons]
    omega

/-! ## Looking an offset up -/

/-- An offset parts the line starts: those of the text in front of it are not after it, and all others
are. -/
theorem exists_startsIn_split (cs : List Char) (n : Nat) :
    ∃ later, startsIn cs = startsIn (cs.take n) ++ later ∧
      (∀ start ∈ startsIn (cs.take n), start ≤ n) ∧ ∀ start ∈ later, n < start := by
  obtain ⟨later, hstarts, hlater⟩ := exists_startsIn_append (cs.take n) (cs.drop n)
  rw [List.take_append_drop] at hstarts
  refine ⟨later, hstarts, fun start hstart => ?_, fun start hstart => ?_⟩
  · exact Nat.le_trans (le_length_of_mem_startsIn hstart) (List.length_take_le n cs)
  · -- a start after the first part lies in the text, so that the text has the whole first part
    have hafter := hlater start hstart
    have hinside : start ≤ cs.length :=
      le_length_of_mem_startsIn (hstarts ▸ List.mem_append_right _ hstart)
    rw [List.length_take] at hafter
    omega

/-- The line of an offset is the last one that starts in the text in front of it. -/
theorem linesBefore_startsIn (cs : List Char) (n : Nat) :
    linesBefore (startsIn cs) (.whole n) = (startsIn (cs.take n)).length := by
  obtain ⟨later, hstarts, hfront, hlater⟩ := exists_startsIn_split cs n
  have hall : (startsIn (cs.take n)).countP (fun start : Nat => decide ((start : Int) ≤ n)) =
      (startsIn (cs.take n)).length := by
    apply List.countP_eq_length.mpr
    intro start hstart
    have := hfront start hstart
    apply decide_eq_true
    omega
  have hnone : later.countP (fun start : Nat => decide ((start : Int) ≤ n)) = 0 := by
    apply List.countP_eq_zero.mpr
    intro start hstart
    have := hlater start hstart
    rw [decide_eq_true_iff]
    omega
  rw [linesBefore_whole, hstarts, List.countP_append, hall, hnone, Nat.add_zero]

/-- What line and column say of an offset: the line counts the line feeds in front of it, the line starts
after the last of them, and the column leads from there to the offset. -/
def IsPlaceOf (cs : List Char) (n : Nat) (place : Location) : Prop :=
  ∃ feeds start column : Nat, place = ⟨.int (feeds + 1 : Nat), .int column⟩ ∧
    feeds = (cs.take n).count '\n' ∧ LastStart (cs.take n) start ∧
    (startsIn cs)[feeds]? = some start ∧ start + column = n

theorem isPlaceOf_locate (cs : List Char) (n : Nat) :
    IsPlaceOf cs n (locate (startsIn cs) (.whole n)) := by
  obtain ⟨start, hlast, hstart⟩ := exists_getLast?_startsIn (cs.take n)
  obtain ⟨later, hstarts, _, _⟩ := exists_startsIn_split cs n
  have hlength := length_startsIn (cs.take n)
  have hentry : (startsIn cs)[(cs.take n).count '\n']? = some start := by
    rw [hstarts, List.getElem?_append_left (by omega), ← hlast, List.getLast?_eq_getElem?, hlength,
      Nat.add_sub_cancel]
  have hle : start ≤ n := Nat.le_trans hstart.le_length (List.length_take_le n cs)
  refine ⟨(cs.take n).count '\n', start, n - start, ?_, rfl, hstart, hentry, by omega⟩
  have hline : linesBefore (startsIn cs) (.whole n) = (cs.take n).count '\n' + 1 := by
    rw [linesBefore_startsIn, hlength]
  have hfrom : lineStart (startsIn cs) ((cs.take n).count '\n' + 1) = start := by
    rw [lineStart, if_neg (Nat.succ_ne_zero _), Nat.add_sub_cancel, List.getD_eq_getElem?_getD, hentry]
    rfl
  rw [locate, hline, hfrom, distance, Int.ofNat_sub hle]

/-! ## The order of places -/

/-- A place by numbers that comes before another one: by the line, then by the column. -/
def Location.Before (a b : Location) : Prop :=
  ∃ line column line' column' : Int, a = ⟨.int line, .int column⟩ ∧ b = ⟨.int line', .int column'⟩ ∧
    (line < line' ∨ line = line' ∧ column < column')

theorem Location.Before.irrefl (a : Location) : ¬ a.Before a := by
  rintro ⟨line, column, line', column', rfl, heq, hlt⟩
  cases heq
  omega

theorem Location.Before.asymm {a b : Location} (h : a.Before b) : ¬ b.Before a := by
  obtain ⟨line, column, line', column', rfl, rfl, hlt⟩ := h
  rintro ⟨_, _, _, _, hb, ha, hgt⟩
  cases ha
  cases hb
  omega

/-- Of two places in order, the first is the second or comes before it. -/
theorem Location.NotAfter.eq_or_before {a b : Location} (h : a.NotAfter b) : a = b ∨ a.Before b := by
  obtain ⟨line, column, line', column', rfl, rfl, hle⟩ := h
  by_cases hsame : line = line' ∧ column = column'
  · obtain ⟨rfl, rfl⟩ := hsame
    exact .inl rfl
  · refine .inr ⟨line, column, line', column', rfl, rfl, ?_⟩
    omega

/-- One place has one offset. -/
theorem IsPlaceOf.offset_unique {cs : List Char} {m n : Nat} {place : Location}
    (hm : IsPlaceOf cs m place) (hn : IsPlaceOf cs n place) : m = n := by
  obtain ⟨feeds, start, column, rfl, _, _, hentry, hoffset⟩ := hm
  obtain ⟨feeds', start', column', hplace, _, _, hentry', hoffset'⟩ := hn
  cases hplace
  cases hentry.symm.trans hentry'
  omega

/-- Places are in the order of their offsets. -/
theorem locate_before_iff (cs : List Char) (m n : Nat) :
    (locate (startsIn cs) (.whole m)).Before (locate (startsIn cs) (.whole n)) ↔ m < n := by
  have hbefore : ∀ {m n : Nat}, m < n →
      (locate (startsIn cs) (.whole m)).Before (locate (startsIn cs) (.whole n)) := by
    intro m n hlt
    have hle : (m : Int) ≤ n := by omega
    refine (locate_notAfter (startsIn cs) hle).eq_or_before.resolve_left fun heq => ?_
    have hsame := (isPlaceOf_locate cs m).offset_unique (heq ▸ isPlaceOf_locate cs n)
    omega
  refine ⟨fun h => ?_, hbefore⟩
  rcases Nat.lt_trichotomy m n with hlt | rfl | hgt
  · exact hlt
  · exact absurd h (Location.Before.irrefl _)
  · exact absurd h (hbefore hgt).asymm

/-! ## Places of nodes -/

/-- The node carries no place of its own, and its span starts at the offset. -/
def StartsAt (node : Value) (n : Nat) : Prop :=
  ownLocation? node = .ok none ∧
    ∃ s, span node = .ok (some s) ∧ s.start.whole? = some (n : Int)

theorem startsOf_text (text : String) : startsOf (.str text) = .ok (startsIn text.toList) := by
  unfold startsOf
  by_cases hpresent : (Value.str text).truthy = true
  · simp [hpresent, lineEnds, startsIn]
  · obtain rfl : text = "" := by simpa [Value.truthy] using hpresent
    rfl

/-- The place of a node is that of the offset at which it starts. -/
theorem StartsAt.locationOf_eq {node : Value} {n : Nat} (h : StartsAt node n) (text : String) :
    locationOf ⟨.str text⟩ node = .ok (locate (startsIn text.toList) (.whole n)) := by
  obtain ⟨hown, s, hspan, hstart⟩ := h
  simp [locationOf, hown, hspan, Value.isNull, locationOfSpan, startsOf_text, number?_of_whole? hstart]

/-- Places embed offsets.  A node without a place of its own that starts at an offset has the line and the
column of this offset, and of two such nodes one has the smaller place, by its line and then by its column,
exactly when it starts at the smaller offset, in the text or behind its end. -/
theorem locationOf_embeds_offsets (text : String) (node other : Value) (m n : Nat)
    (hm : StartsAt node m) (hn : StartsAt other n) :
    ∃ place place', locationOf ⟨.str text⟩ node = .ok place ∧ locationOf ⟨.str text⟩ other = .ok place' ∧
      IsPlaceOf text.toList m place ∧ IsPlaceOf text.toList n place' ∧ (place.Before place' ↔ m < n) :=
  ⟨_, _, hm.locationOf_eq text, hn.locationOf_eq text, isPlaceOf_locate _ m, isPlaceOf_locate _ n,
    locate_before_iff _ m n⟩

/-- In a text of two lines, one node starts at the line feed and another one far behind the end. -/
theorem locationOf_embeds_offsets_beyond :
    let at1 : Value := .obj [("type", .str "Identifier"), ("start", .int 1), ("end", .int 2)]
    let at9 : Value := .obj [("type", .str "Identifier"), ("range", .arr [.int 9, .null])]
    StartsAt at1 1 ∧ StartsAt at9 9 ∧ ∃ place place', locationOf ⟨.str "a\nb"⟩ at1 = .ok place ∧
      locationOf ⟨.str "a\nb"⟩ at9 = .ok place' ∧ place = ⟨.int 1, .int 1⟩ ∧
      place' = ⟨.int 2, .int 7⟩ ∧ place.Before place' := by
  intro at1 at9
  have h1 : StartsAt at1 1 := ⟨rfl, _, rfl, rfl⟩
  have h9 : StartsAt at9 9 := ⟨rfl, _, rfl, rfl⟩
  obtain ⟨place, place', hplace, hplace', _, _, hbefore⟩ :=
    locationOf_embeds_offsets "a\nb" at1 at9 1 9 h1 h9
  refine ⟨h1, h9, place, place', hplace, hplace', ?_, ?_, hbefore.mpr (by omega)⟩
  · exact Except.ok.inj (hplace.symm.trans rfl)
  · exact Except.ok.inj (hplace'.symm.trans rfl)

end TreeLint.Source

/-
  Numbers with too many digits.

  Reading a document goes through its text from front to back, and what is left to read is always an end
  of the text.  So a number that has too many digits to be read stands in the text as a row of that many
  digits, and a text without such a row is either a document or fails at one of its characters.
-/
import TreeLint.Json.Reader

set_option autoImplicit false

namespace TreeLint.Json

/-- The text has a row of digits that is longer than a whole number may be. -/
def HasLongNumeral (cs : List Char) : Prop :=
  ∃ digits, digits <:+: cs ∧ (∀ c ∈ digits, c.isDigit = true) ∧ digitLimit < digits.length

theorem HasLongNumeral.of_suffix {rest cs : List Char} (h : HasLongNumeral rest) (hrest : rest <:+ cs) :
    HasLongNumeral cs := by
  obtain ⟨digits, hpart, hdigits, hlong⟩ := h
  exact ⟨digits, hpart.trans hrest.isInfix, hdigits, hlong⟩

theorem not_hasLongNumeral_of_length_le {cs : List Char} (h : cs.length ≤ digitLimit) :
    ¬ HasLongNumeral cs := by
  rintro ⟨digits, hpart, _, hlong⟩
  exact absurd (Nat.le_trans hpart.length_le h) (Nat.not_le.mpr hlong)

/-- An outcome of reading from the text: what is left is an end of it, and if a number has too many digits
they stand in it. -/
structure ReadsFrom {α : Type} (cs : List Char) (outcome : Except ReadError (α × List Char)) : Prop where
  rest : ∀ a rest, outcome = .ok (a, rest) → rest <:+ cs
  digits : outcome = .error .tooManyDigits → HasLongNumeral cs

namespace ReadsFrom

variable {α β : Type} {cs left : List Char}

theorem ok {a : α} (h : left <:+ cs) : ReadsFrom cs (.ok (a, left)) where
  rest b rest hb := by
    cases hb
    exact h
  digits h := by cases h

theorem here (n : Nat) : ReadsFrom (α := α) cs (.error (.here n)) where
  rest a rest h := by cases h
  digits h := by cases h

theorem of_suffix {outcome : Except ReadError (α × List Char)} (h : ReadsFrom left outcome)
    (hleft : left <:+ cs) : ReadsFrom cs outcome where
  rest a rest ha := (h.rest a rest ha).trans hleft
  digits hmany := (h.digits hmany).of_suffix hleft

/-- Reading goes on with what the step before has left. -/
theorem bind {x : Except ReadError (α × List Char)}
    {f : α × List Char → Except ReadError (β × List Char)} (h : ReadsFrom cs x)
    (hf : ∀ a left, left <:+ cs → ReadsFrom left (f (a, left))) : ReadsFrom cs (x >>= f) := by
  cases x with
  | error error =>
    refine ⟨fun b rest hb => ?_, fun hmany => h.digits ?_⟩
    · cases hb
    · cases hmany
      rfl
  | ok read =>
    have hleft : read.2 <:+ cs := h.rest read.1 read.2 rfl
    exact (hf read.1 read.2 hleft).of_suffix hleft

end ReadsFrom

theorem skipBlanks_suffix (cs : List Char) : skipBlanks cs <:+ cs :=
  List.dropWhile_suffix _

/-! ## Texts -/

theorem suffix_of_lowHalf {unit code : Nat} {cs rest : List Char}
    (h : lowHalf unit cs = .ok (some (code, rest))) : rest <:+ cs := by
  unfold lowHalf at h
  split at h
  · split at h
    · split at h
      · cases h
      · split at h
        · simp only [Except.ok.injEq, Option.some.injEq, Prod.mk.injEq] at h
          obtain ⟨-, rfl⟩ := h
          exact ⟨['\\', 'u', _, _, _, _], rfl⟩
        · cases h
    · cases h
  · cases h

theorem here_of_lowHalf {unit : Nat} {cs : List Char} {error : ReadError}
    (h : lowHalf unit cs = .error error) : ∃ n, error = .here n := by
  unfold lowHalf at h
  split at h
  · split at h
    · split at h
      · cases h
        exact ⟨_, rfl⟩
      · split at h
        · cases h
        · cases h
    · cases h
  · cases h

theorem readsFrom_readEscape (opening start cs : List Char) :
    ReadsFrom cs (readEscape opening start cs) := by
  unfold readEscape
  split
  · exact .here _
  · split
    · next a b c d after =>
      have hafter : after <:+ 'u' :: a :: b :: c :: d :: after := ⟨['u', a, b, c, d], rfl⟩
      split
      · exact .here _
      · split
        · exact .here _
        · next unit _ =>
          cases hlow : lowHalf unit after with
          | error error =>
            obtain ⟨n, rfl⟩ := here_of_lowHalf hlow
            exact .here n
          | ok found =>
            cases found with
            | none => exact .ok hafter
            | some pair => exact .ok ((suffix_of_lowHalf hlow).trans hafter)
    · exact .here _
  · split
    · exact .ok (List.suffix_cons _ _)
    · exact .here _

theorem readsFrom_readText (opening : List Char) (fuel : Nat) (done cs : List Char) :
    ReadsFrom cs (readText opening fuel done cs) := by
  induction fuel generalizing done cs with
  | zero => exact .here _
  | succ fuel ih =>
    cases cs with
    | nil => exact .here _
    | cons c rest =>
      rw [readText]
      split
      · exact .ok (List.suffix_cons c rest)
      · split
        · refine .of_suffix (.bind (readsFrom_readEscape opening (c :: rest) rest) ?_)
            (List.suffix_cons c rest)
          exact fun plain left _ => ih (plain :: done) left
        · split
          · exact .here _
          · exact (ih (c :: done) rest).of_suffix (List.suffix_cons c rest)

/-! ## Numbers -/

theorem readPlaces_suffix (cs : List Char) : (readPlaces cs).2 <:+ cs := by
  unfold readPlaces
  split
  · split
    · exact (List.dropWhile_suffix _).trans (List.suffix_cons _ _)
    · exact List.suffix_rfl
  · exact List.suffix_rfl

theorem signOf_suffix (cs : List Char) : (Decimal.signOf cs).2 <:+ cs := by
  unfold Decimal.signOf
  split
  · exact List.suffix_cons _ _
  · exact List.suffix_cons _ _
  · exact List.suffix_rfl

theorem readPower_suffix (cs : List Char) : (readPower cs).2 <:+ cs := by
  unfold readPower
  split
  · next mark rest =>
    split
    · dsimp only
      split
      · exact ((List.dropWhile_suffix _).trans (signOf_suffix rest)).trans (List.suffix_cons mark rest)
      · exact List.suffix_rfl
    · exact List.suffix_rfl
  · exact List.suffix_rfl

theorem wholeDigits_isPrefix (cs : List Char) : wholeDigits cs <+: cs := by
  unfold wholeDigits
  split
  · exact ⟨_, rfl⟩
  · exact List.takeWhile_prefix _

theorem isDigit_of_mem_wholeDigits {cs : List Char} {c : Char} (h : c ∈ wholeDigits cs) :
    c.isDigit = true := by
  unfold wholeDigits at h
  split at h
  · obtain rfl := List.mem_singleton.mp h
    decide
  · exact List.all_eq_true.mp List.all_takeWhile c h

theorem readsFrom_readNumber (cs : List Char) : ReadsFrom cs (readNumber cs) := by
  unfold readNumber
  split
  next negative unsigned hsign =>
  have hunsigned : unsigned <:+ cs := by
    split at hsign
    · cases hsign
      exact List.suffix_cons _ _
    · cases hsign
      exact List.suffix_rfl
  have hdrop := (List.drop_suffix (wholeDigits unsigned).length unsigned).trans hunsigned
  have hplaces := (readPlaces_suffix (unsigned.drop (wholeDigits unsigned).length)).trans hdrop
  have hpower := (readPower_suffix (readPlaces (unsigned.drop (wholeDigits unsigned).length)).2).trans
    hplaces
  dsimp only
  split
  · exact .here _
  · split
    · split
      · next hlong =>
        refine ⟨fun a rest h => ?_, fun _ => ⟨wholeDigits unsigned, ?_, fun c hc => ?_, hlong⟩⟩
        · cases h
        · exact (wholeDigits_isPrefix unsigned).isInfix.trans hunsigned.isInfix
        · exact isDigit_of_mem_wholeDigits hc
      · exact .ok hpower
    · exact .ok hpower

theorem readsFrom_readPlain (cs : List Char) : ReadsFrom cs (readPlain cs) := by
  unfold readPlain
  split
  · exact .ok (List.drop_suffix _ _)
  · exact readsFrom_readNumber cs

/-! ## Documents -/

theorem readsFrom_value_items_fields (fuel : Nat) :
    (∀ cs, ReadsFrom cs (readValue fuel cs)) ∧ (∀ cs, ReadsFrom cs (readItems fuel cs)) ∧
      ∀ done cs, ReadsFrom cs (readFields fuel done cs) := by
  induction fuel with
  | zero => exact ⟨fun cs => .here _, fun cs => .here _, fun done cs => .here _⟩
  | succ fuel ih =>
    obtain ⟨hvalue, hitems, hfields⟩ := ih
    refine ⟨fun cs => ?_, fun cs => ?_, fun done cs => ?_⟩
    · unfold readValue
      split
      · next rest =>
        refine .of_suffix (.bind (readsFrom_readText _ fuel [] rest) ?_) (List.suffix_cons _ rest)
        exact fun s left _ => .ok List.suffix_rfl
      · next rest =>
        have hrest := (skipBlanks_suffix rest).trans (List.suffix_cons '[' rest)
        split
        · next after heq => exact .ok ((heq ▸ List.suffix_cons ']' after).trans hrest)
        · refine .of_suffix (.bind (hitems _) ?_) hrest
          exact fun items left _ => .ok List.suffix_rfl
      · next rest =>
        have hrest := (skipBlanks_suffix rest).trans (List.suffix_cons '\x7b' rest)
        split
        · next after heq => exact .ok ((heq ▸ List.suffix_cons '\x7d' after).trans hrest)
        · refine .of_suffix (.bind (hfields [] _) ?_) hrest
          exact fun fields left _ => .ok List.suffix_rfl
      · exact readsFrom_readPlain cs
    · unfold readItems
      refine .bind (hvalue cs) fun item left _ => ?_
      have hleft := skipBlanks_suffix left
      dsimp only
      split
      · next after heq => exact .ok ((heq ▸ List.suffix_cons ']' after).trans hleft)
      · next after heq =>
        have hafter := ((skipBlanks_suffix after).trans (List.suffix_cons ',' after)).trans (heq ▸ hleft)
        refine .of_suffix (.bind (hitems _) ?_) hafter
        exact fun items rest _ => .ok List.suffix_rfl
      · exact .here _
    · unfold readFields
      split
      · next rest =>
        refine .of_suffix (.bind (readsFrom_readText _ fuel [] rest) fun key left _ => ?_)
          (List.suffix_cons _ rest)
        have hleft := skipBlanks_suffix left
        dsimp only
        split
        · next after heq =>
          have hafter := ((skipBlanks_suffix after).trans (List.suffix_cons ':' after)).trans
            (heq ▸ hleft)
          refine .of_suffix (.bind (hvalue _) fun value later _ => ?_) hafter
          have hlater := skipBlanks_suffix later
          dsimp only
          split
          · next last heq => exact .ok ((heq ▸ List.suffix_cons '\x7d' last).trans hlater)
          · next last heq =>
            exact (hfields _ _).of_suffix (((skipBlanks_suffix last).trans
              (List.suffix_cons ',' last)).trans (heq ▸ hlater))
          · exact .here _
        · exact .here _
      · exact .here _

/-- A document is refused for its digits only if it has a row of too many. -/
theorem hasLongNumeral_of_read {cs : List Char} (h : read cs = .error .tooManyDigits) :
    HasLongNumeral cs := by
  have hvalue := (readsFrom_value_items_fields (2 * cs.length + 2)).1 (skipBlanks cs)
  unfold read at h
  cases hread : readValue (2 * cs.length + 2) (skipBlanks cs) with
  | error error =>
    rw [hread] at h
    cases h
    exact (hvalue.digits hread).of_suffix (skipBlanks_suffix cs)
  | ok result =>
    rw [hread] at h
    dsimp only [bind, Except.bind] at h
    split at h
    · cases h
    · cases h

end TreeLint.Json

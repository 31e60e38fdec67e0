/-
  Documents read from text.

  The grammar is JSON with the names `NaN`, `Infinity` and `-Infinity` for the numbers without
  digits.  A field that is written twice keeps its first place and takes its last value.  Where a
  text is no document, reading stops at a place that the messages show: the character that is not
  what it should be, the opening quote of a text that does not end, or the start of a bad escape.

  Lists and objects are read at any depth.  An interpreter that limits its own recursion gives up on
  a document that is nested deeply enough; that limit is outside the model, here and in every
  function that goes down a tree.
-/
import TreeLint.Decimal.Reader
import TreeLint.Json.Value
import TreeLint.Text.Hex

set_option autoImplicit false

namespace TreeLint.Json

/-- Why a text is no document. -/
inductive ReadError where
  /-- The text fails where this many of its characters are left. -/
  | here (left : Nat)
  /-- A whole number has more digits than are accepted. -/
  | tooManyDigits
deriving DecidableEq, Repr

/-- The text after any blanks. -/
def skipBlanks (cs : List Char) : List Char :=
  cs.dropWhile fun c => c = ' ' ∨ c = '\t' ∨ c = '\n' ∨ c = '\r'

/-! ## Texts -/

/-- The character of a one-letter escape. -/
def unescape? (c : Char) : Option Char :=
  if c = '"' ∨ c = '\\' ∨ c = '/' then some c
  else if c = 'b' then some (Char.ofNat 8)
  else if c = 'f' then some (Char.ofNat 12)
  else if c = 'n' then some '\n'
  else if c = 'r' then some '\r'
  else if c = 't' then some '\t'
  else none

/-- The character of a code point.  A lone surrogate is no character and becomes U+FFFD, so lone
surrogates are not told apart: texts that differ only in them are read as the same text. -/
def charOf (n : Nat) : Char :=
  if 0xd800 ≤ n ∧ n < 0xe000 then Char.ofNat 0xfffd else Char.ofNat n

/-- The unit after the escape of a high half: the low half that completes the pair, if it follows.
At least one character has to follow the second escape. -/
def lowHalf (unit : Nat) (rest : List Char) : Except ReadError (Option (Nat × List Char)) :=
  match rest with
  | '\\' :: 'u' :: a :: b :: c :: d :: after =>
    if 0xd800 ≤ unit ∧ unit < 0xdc00 ∧ after ≠ [] then
      match Text.hexNumber? [a, b, c, d] with
      | none => .error (.here (rest.length - 1))
      | some low =>
        if 0xdc00 ≤ low ∧ low < 0xe000 then
          .ok (some (0x10000 + (unit - 0xd800) * 0x400 + (low - 0xdc00), after))
        else .ok none
    else .ok none
  | _ => .ok none

/-- One character of a text after its backslash.  The text of which it is a part opens at `opening`
and the escape starts at `start`. -/
def readEscape (opening start : List Char) (cs : List Char) :
    Except ReadError (Char × List Char) :=
  match cs with
  | [] => .error (.here opening.length)
  | 'u' :: rest =>
    match rest with
    | a :: b :: c :: d :: after =>
      if after = [] then .error (.here (start.length - 1))
      else
        match Text.hexNumber? [a, b, c, d] with
        | none => .error (.here (start.length - 1))
        | some unit => do
          match ← lowHalf unit after with
          | some (code, after) => .ok (charOf code, after)
          | none => .ok (charOf unit, after)
    | _ => .error (.here (start.length - 1))
  | c :: rest =>
    match unescape? c with
    | some plain => .ok (plain, rest)
    | none => .error (.here start.length)

/-- The rest of a text that opens at `opening`, after the characters that are already read. -/
def readText (opening : List Char) :
    Nat → List Char → List Char → Except ReadError (String × List Char)
  | 0, _, _ => .error (.here opening.length)
  | _ + 1, _, [] => .error (.here opening.length)
  | fuel + 1, done, c :: rest =>
    if c = '"' then .ok (String.ofList done.reverse, rest)
    else if c = '\\' then do
      let (plain, rest) ← readEscape opening (c :: rest) rest
      readText opening fuel (plain :: done) rest
    else if c.toNat < 32 then .error (.here (rest.length + 1))
    else readText opening fuel (c :: done) rest

/-! ## Numbers and names -/

/-- The places after a point, if there are any. -/
def readPlaces (cs : List Char) : List Char × List Char :=
  match cs with
  | '.' :: rest =>
    if (rest.head?.map Char.isDigit).getD false then
      (rest.takeWhile Char.isDigit, rest.dropWhile Char.isDigit)
    else ([], cs)
  | _ => ([], cs)

/-- The power of ten after its mark, if there is one. -/
def readPower (cs : List Char) : Option Int × List Char :=
  match cs with
  | mark :: rest =>
    if mark = 'e' ∨ mark = 'E' then
      let (below, unsigned) := Decimal.signOf rest
      if (unsigned.head?.map Char.isDigit).getD false then
        let size : Int := Decimal.ofDigits (Decimal.digitRun (unsigned.takeWhile Char.isDigit)).1
        (some (if below then -size else size), unsigned.dropWhile Char.isDigit)
      else (none, cs)
    else (none, cs)
  | [] => (none, cs)

/-- The digits before the point: a single zero, or a row that does not start with one. -/
def wholeDigits (cs : List Char) : List Char :=
  match cs with
  | '0' :: _ => ['0']
  | _ => cs.takeWhile Char.isDigit

/-- The longest number at the start of a text. -/
def readNumber (cs : List Char) : Except ReadError (Value × List Char) :=
  let (negative, unsigned) :=
    match cs with
    | '-' :: rest => (true, rest)
    | _ => (false, cs)
  let whole := wholeDigits unsigned
  if whole = [] then .error (.here cs.length)
  else
    let (places, rest) := readPlaces (unsigned.drop whole.length)
    let (power, rest) := readPower rest
    let value := Decimal.ofDigits (Decimal.digitRun (whole ++ places)).1
    if places = [] ∧ power = none then
      if digitLimit < whole.length then .error .tooManyDigits
      else .ok (.int (if negative then -(value : Int) else value), rest)
    else .ok (.float (Decimal.toFloat negative value (power.getD 0 - places.length)), rest)

/-- The values that have names. -/
def names : List (String × Value) :=
  [("null", .null), ("true", .bool true), ("false", .bool false), ("NaN", .float (0 / 0)),
   ("Infinity", .float (1 / 0)), ("-Infinity", .float (-(1 / 0)))]

/-- A named value or a number. -/
def readPlain (cs : List Char) : Except ReadError (Value × List Char) :=
  match names.find? fun (name, _) => name.toList.isPrefixOf cs with
  | some (name, value) => .ok (value, cs.drop name.length)
  | none => readNumber cs

/-! ## Documents -/

mutual

/-- The value at the start of a text. -/
def readValue : Nat → List Char → Except ReadError (Value × List Char)
  | 0, cs => .error (.here cs.length)
  | fuel + 1, cs =>
    match cs with
    | '"' :: rest => do
      let (s, rest) ← readText cs fuel [] rest
      .ok (.str s, rest)
    | '[' :: rest =>
      match skipBlanks rest with
      | ']' :: rest => .ok (.arr [], rest)
      | rest => do
        let (items, rest) ← readItems fuel rest
        .ok (.arr items, rest)
    | '\x7b' :: rest =>
      match skipBlanks rest with
      | '\x7d' :: rest => .ok (.obj [], rest)
      | rest => do
        let (fields, rest) ← readFields fuel [] rest
        .ok (.obj fields, rest)
    | _ => readPlain cs

/-- The items of a list up to its end. -/
def readItems : Nat → List Char → Except ReadError (List Value × List Char)
  | 0, cs => .error (.here cs.length)
  | fuel + 1, cs => do
    let (item, rest) ← readValue fuel cs
    match skipBlanks rest with
    | ']' :: rest => .ok ([item], rest)
    | ',' :: rest => do
      let (items, rest) ← readItems fuel (skipBlanks rest)
      .ok (item :: items, rest)
    | rest => .error (.here rest.length)

/-- The fields of an object up to its end, after those that are already read. -/
def readFields : Nat → Fields → List Char → Except ReadError (Fields × List Char)
  | 0, _, cs => .error (.here cs.length)
  | fuel + 1, done, cs =>
    match cs with
    | '"' :: rest => do
      let (key, rest) ← readText cs fuel [] rest
      match skipBlanks rest with
      | ':' :: rest => do
        let (value, rest) ← readValue fuel (skipBlanks rest)
        let done := done.put key value
        match skipBlanks rest with
        | '\x7d' :: rest => .ok (done, rest)
        | ',' :: rest => readFields fuel done (skipBlanks rest)
        | rest => .error (.here rest.length)
      | rest => .error (.here rest.length)
    | _ => .error (.here cs.length)

end

/-- The document that a whole text holds. -/
def read (cs : List Char) : Except ReadError Value := do
  let (value, rest) ← readValue (2 * cs.length + 2) (skipBlanks cs)
  match skipBlanks rest with
  | [] => .ok value
  | rest => .error (.here rest.length)

/-! ## Places -/

/-- Line and column of the place where a number of characters are left, both counted from one. -/
def lineAndColumn (cs : List Char) (left : Nat) : Nat × Nat :=
  let before := cs.take (cs.length - left)
  (before.count '\n' + 1, (before.reverse.takeWhile (· ≠ '\n')).length + 1)

end TreeLint.Json

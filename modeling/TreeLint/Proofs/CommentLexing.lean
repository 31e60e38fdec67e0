/-
  Comments, read from left to right.

  Reading a text from left to right, each place starts a comment that has an end, or else a comment
  that runs to the end of the line, or else is a plain character.  The rules take out comments in two
  passes instead.  Here stand the pieces of the reading, what each pass does at one of them, and that
  blanks at both ends make no difference.
-/
import Mathlib.Data.List.TakeWhile
import TreeLint.Source.Comment

set_option autoImplicit false

namespace TreeLint.Source

/-! ## Pieces -/

/-- A piece of a text. -/
inductive Piece where
  /-- A comment that has an end. -/
  | block (text : List Char)
  /-- A comment that runs to the end of the line. -/
  | line (text : List Char)
  /-- A plain character. -/
  | plain (c : Char)
deriving DecidableEq, Repr

/-- The text of a piece. -/
def Piece.text : Piece → List Char
  | block text => text
  | line text => text
  | plain c => [c]

/-- The character that a piece is, if it is plain. -/
def Piece.plain? : Piece → Option Char
  | plain c => some c
  | _ => none

/-- The pieces of a text, from left to right. -/
def pieces : List Char → List Piece
  | [] => []
  | '/' :: '*' :: rest =>
    match _ : afterClose? rest with
    | some after => .block ('/' :: '*' :: rest.take (rest.length - after.length)) :: pieces after
    | none => .plain '/' :: pieces ('*' :: rest)
  | '/' :: '/' :: rest =>
    .line ('/' :: '/' :: rest.takeWhile fun c => !endsLine c) ::
      pieces (rest.dropWhile fun c => !endsLine c)
  | c :: rest => .plain c :: pieces rest
termination_by cs => cs.length
decreasing_by
  · have hlt := length_afterClose?_lt ‹afterClose? rest = some after›
    simp only [List.length_cons]
    omega
  · simp only [List.length_cons]
    omega
  · have hle : (rest.dropWhile fun c => !endsLine c).length ≤ rest.length :=
      (List.dropWhile_sublist _).length_le
    simp only [List.length_cons]
    omega
  · simp only [List.length_cons]
    omega

theorem pieces_of_close {rest after : List Char} (h : afterClose? rest = some after) :
    pieces ('/' :: '*' :: rest) =
      .block ('/' :: '*' :: rest.take (rest.length - after.length)) :: pieces after := by
  rw [pieces]
  split
  · next other hother =>
    cases h.symm.trans hother
    rfl
  · next hnone => cases h.symm.trans hnone

theorem pieces_line (rest : List Char) :
    pieces ('/' :: '/' :: rest) = .line ('/' :: '/' :: rest.takeWhile fun c => !endsLine c) ::
      pieces (rest.dropWhile fun c => !endsLine c) := by
  rw [pieces]

theorem pieces_plain {c : Char} {rest : List Char}
    (hblock : ∀ inner, c = '/' → rest = '*' :: inner → afterClose? inner = none)
    (hline : ∀ inner, c = '/' → rest ≠ '/' :: inner) :
    pieces (c :: rest) = .plain c :: pieces rest := by
  rw [pieces.eq_def]
  split
  · next heq => cases heq
  · next inner heq =>
    obtain ⟨rfl, rfl⟩ := List.cons.inj heq
    have hnone := hblock inner rfl rfl
    split
    · next after hafter => cases hnone.symm.trans hafter
    · rfl
  · next inner heq =>
    obtain ⟨rfl, rfl⟩ := List.cons.inj heq
    exact absurd rfl (hline inner rfl)
  · next heq =>
    obtain ⟨rfl, rfl⟩ := List.cons.inj heq
    rfl

theorem mem_filterMap_plain?_iff {row : List Piece} {c : Char} :
    c ∈ row.filterMap Piece.plain? ↔ .plain c ∈ row := by
  rw [List.mem_filterMap]
  constructor
  · rintro ⟨piece, hpiece, hc⟩
    cases piece with
    | plain d =>
      cases hc
      exact hpiece
    | block | line => cases hc
  · intro hc
    exact ⟨.plain c, hc, rfl⟩

/-- What follows the end of a comment is what the text ends with. -/
theorem suffix_of_afterClose? {cs after : List Char} (h : afterClose? cs = some after) :
    after <:+ cs := by
  fun_induction afterClose? cs with
  | case1 => cases h
  | case2 rest =>
    cases h
    exact (List.suffix_cons '/' _).trans (List.suffix_cons '*' _)
  | case3 c rest _ ih => exact (ih h).trans (List.suffix_cons c rest)

/-- No character is lost. -/
theorem flatMap_text_pieces (cs : List Char) : (pieces cs).flatMap Piece.text = cs := by
  fun_induction pieces cs with
  | case1 => rfl
  | case2 rest after h ih =>
    obtain ⟨front, rfl⟩ := suffix_of_afterClose? h
    simp [Piece.text, ih]
  | case3 rest h ih => simp [Piece.text, ih]
  | case4 rest ih => simp [Piece.text, ih]
  | case5 c rest _ _ ih => simp [Piece.text, ih]

/-! ## The two passes -/

/-- The first pass keeps a character that starts no comment with an end. -/
theorem dropBlockComments_cons {c : Char} {rest : List Char}
    (h : ∀ inner, c = '/' → rest = '*' :: inner → afterClose? inner = none) :
    dropBlockComments (c :: rest) = c :: dropBlockComments rest := by
  rw [dropBlockComments.eq_def]
  split
  · next heq => cases heq
  · next inner heq =>
    obtain ⟨rfl, rfl⟩ := List.cons.inj heq
    have hnone := h inner rfl rfl
    split
    · next after hafter =>
      rw [hnone] at hafter
      cases hafter
    · rfl
  · next heq =>
    obtain ⟨rfl, rfl⟩ := List.cons.inj heq
    rfl

/-- The first pass takes out a comment that has an end. -/
theorem dropBlockComments_of_close {rest after : List Char} (h : afterClose? rest = some after) :
    dropBlockComments ('/' :: '*' :: rest) = dropBlockComments after := by
  rw [dropBlockComments]
  split
  · next other hother =>
    cases h.symm.trans hother
    rfl
  · next hnone => cases h.symm.trans hnone

/-- The first pass keeps a whole stretch in which no comment with an end starts. -/
theorem dropBlockComments_append {front rest : List Char}
    (hopen : ∀ before after, front = before ++ '/' :: '*' :: after →
      afterClose? (after ++ rest) = none)
    (hstar : ∀ inner, rest ≠ '*' :: inner) :
    dropBlockComments (front ++ rest) = front ++ dropBlockComments rest := by
  induction front with
  | nil => rfl
  | cons c front ih =>
    have htail := ih fun before after heq => hopen (c :: before) after (by rw [heq]; rfl)
    rw [List.cons_append, dropBlockComments_cons, htail, List.cons_append]
    rintro inner rfl heq
    cases front with
    | nil => exact absurd heq (hstar inner)
    | cons d front =>
      obtain ⟨rfl, rfl⟩ := List.cons.inj heq
      exact hopen [] front rfl

/-- The second pass keeps a character that starts no comment. -/
theorem dropLineComments_cons {c : Char} {rest : List Char}
    (h : ∀ inner, c = '/' → rest ≠ '/' :: inner) :
    dropLineComments (c :: rest) = c :: dropLineComments rest := by
  rw [dropLineComments.eq_def]
  split
  · next heq => cases heq
  · next inner heq =>
    obtain ⟨rfl, rfl⟩ := List.cons.inj heq
    exact absurd rfl (h inner rfl)
  · next heq =>
    obtain ⟨rfl, rfl⟩ := List.cons.inj heq
    rfl

/-- The second pass takes out a comment up to the end of the line. -/
theorem dropLineComments_line (rest : List Char) :
    dropLineComments ('/' :: '/' :: rest) =
      dropLineComments (rest.dropWhile fun c => !endsLine c) := by
  rw [dropLineComments]

/-- What follows a comment that runs to the end of a line is nothing or starts with that end. -/
theorem dropWhile_eq_nil_or_endsLine (rest : List Char) :
    (rest.dropWhile fun c => !endsLine c) = [] ∨
      ∃ c inner, (rest.dropWhile fun c => !endsLine c) = c :: inner ∧ endsLine c = true := by
  cases h : rest.dropWhile fun c => !endsLine c with
  | nil => exact .inl rfl
  | cons c inner =>
    refine .inr ⟨c, inner, rfl, ?_⟩
    have hne : (rest.dropWhile fun c => !endsLine c) ≠ [] := by
      rw [h]
      exact List.cons_ne_nil c inner
    have hhead := List.head_dropWhile_not _ hne
    simpa [h] using hhead

/-- The first pass brings no slash to the front of a text. -/
theorem dropBlockComments_ne_slash {rest : List Char} (h : ∀ inner, rest ≠ '/' :: inner) :
    ∀ inner, dropBlockComments rest ≠ '/' :: inner := by
  cases rest with
  | nil =>
    intro inner hinner
    simp [dropBlockComments] at hinner
  | cons c rest =>
    intro inner hinner
    rw [dropBlockComments_cons (by rintro _ rfl _; exact absurd rfl (h rest))] at hinner
    exact h rest (by rw [(List.cons.inj hinner).1])

/-- Both passes keep a plain character. -/
theorem residue_plain {c : Char} {rest : List Char}
    (hblock : ∀ inner, c = '/' → rest = '*' :: inner → afterClose? inner = none)
    (hline : ∀ inner, c = '/' → rest ≠ '/' :: inner) :
    dropLineComments (dropBlockComments (c :: rest)) =
      c :: dropLineComments (dropBlockComments rest) := by
  rw [dropBlockComments_cons hblock, dropLineComments_cons]
  intro inner hc
  exact dropBlockComments_ne_slash (fun inner => hline inner hc) inner

/-- Both passes together take out a comment that runs to the end of a line and hides nothing. -/
theorem residue_line {rest : List Char}
    (hopen : ∀ before after, '/' :: '/' :: (rest.takeWhile fun c => !endsLine c) =
        before ++ '/' :: '*' :: after →
      afterClose? (after ++ rest.dropWhile fun c => !endsLine c) = none) :
    dropLineComments (dropBlockComments ('/' :: '/' :: rest)) =
      dropLineComments (dropBlockComments (rest.dropWhile fun c => !endsLine c)) := by
  have hinside : ∀ c ∈ rest.takeWhile fun c => !endsLine c, (!endsLine c) = true :=
    List.all_eq_true.mp List.all_takeWhile
  have hsplit := List.takeWhile_append_dropWhile (p := fun c => !endsLine c) (l := rest)
  -- What follows the comment starts with the end of the line, which both passes keep.
  obtain ⟨hstar, hkept⟩ : (∀ inner, (rest.dropWhile fun c => !endsLine c) ≠ '*' :: inner) ∧
      (dropBlockComments (rest.dropWhile fun c => !endsLine c)).dropWhile (fun c => !endsLine c) =
        dropBlockComments (rest.dropWhile fun c => !endsLine c) := by
    rcases dropWhile_eq_nil_or_endsLine rest with hnil | ⟨c, inner, hcons, hend⟩
    · rw [hnil]
      simp [dropBlockComments]
    · have hslash : c ≠ '/' := by
        rintro rfl
        exact absurd hend (by decide)
      have hne : c ≠ '*' := by
        rintro rfl
        exact absurd hend (by decide)
      rw [hcons, dropBlockComments_cons fun _ hc => absurd hc hslash]
      exact ⟨fun other heq => hne (List.cons.inj heq).1, by simp [hend]⟩
  have hfirst : dropBlockComments ('/' :: '/' :: rest) =
      '/' :: '/' :: ((rest.takeWhile fun c => !endsLine c) ++
        dropBlockComments (rest.dropWhile fun c => !endsLine c)) := by
    have happend := dropBlockComments_append hopen hstar
    rwa [List.cons_append, List.cons_append, hsplit] at happend
  rw [hfirst, dropLineComments_line, List.dropWhile_append_of_pos hinside, hkept]

/-! ## Blanks at both ends -/

/-- The characters are all blank. -/
def AllBlank (cs : List Char) : Prop :=
  ∀ c ∈ cs, Text.isBlank c = true

theorem allBlank_filterMap_plain?_iff {row : List Piece} :
    AllBlank (row.filterMap Piece.plain?) ↔ ∀ c, .plain c ∈ row → Text.isBlank c = true := by
  simp only [AllBlank, mem_filterMap_plain?_iff]

theorem allBlank_append {front back : List Char} :
    AllBlank (front ++ back) ↔ AllBlank front ∧ AllBlank back :=
  List.forall_mem_append

theorem ne_of_isBlank {c : Char} (h : Text.isBlank c = true) : c ≠ '/' ∧ c ≠ '*' := by
  constructor
  · rintro rfl
    exact absurd h (by decide)
  · rintro rfl
    exact absurd h (by decide)

/-- A text is what trimming leaves of it, between blanks. -/
theorem exists_eq_append_trim (cs : List Char) :
    ∃ front back, cs = front ++ (Text.trim cs ++ back) ∧ AllBlank front ∧ AllBlank back := by
  refine ⟨cs.takeWhile Text.isBlank,
    ((cs.dropWhile Text.isBlank).reverse.takeWhile Text.isBlank).reverse, ?_, ?_, ?_⟩
  · have hback : Text.trim cs ++
        ((cs.dropWhile Text.isBlank).reverse.takeWhile Text.isBlank).reverse =
          cs.dropWhile Text.isBlank := by
      rw [Text.trim, Text.trimBy, ← List.reverse_append, List.takeWhile_append_dropWhile,
        List.reverse_reverse]
    rw [hback, List.takeWhile_append_dropWhile]
  · exact List.all_eq_true.mp List.all_takeWhile
  · intro c hc
    exact List.all_eq_true.mp List.all_takeWhile c (List.mem_reverse.mp hc)

/-- Trimming leaves nothing of a text when it is blank. -/
theorem trim_isEmpty_iff (cs : List Char) : (Text.trim cs).isEmpty = true ↔ AllBlank cs := by
  constructor
  · intro hempty
    obtain ⟨front, back, heq, hfront, hback⟩ := exists_eq_append_trim cs
    rw [List.isEmpty_iff.mp hempty, List.nil_append] at heq
    rw [heq]
    exact allBlank_append.mpr ⟨hfront, hback⟩
  · intro hblank
    have hnone : cs.dropWhile Text.isBlank = [] := List.dropWhile_eq_nil_iff.mpr hblank
    rw [Text.trim, Text.trimBy, hnone]
    rfl

/-- The first pass keeps blanks at the front. -/
theorem dropBlockComments_blank_append {front : List Char} (h : AllBlank front) (cs : List Char) :
    dropBlockComments (front ++ cs) = front ++ dropBlockComments cs := by
  induction front with
  | nil => rfl
  | cons c front ih =>
    have hslash := (ne_of_isBlank (h c List.mem_cons_self)).1
    rw [List.cons_append, dropBlockComments_cons fun _ hc => absurd hc hslash,
      ih fun d hd => h d (List.mem_cons_of_mem _ hd), List.cons_append]

/-- The second pass keeps blanks at the front. -/
theorem dropLineComments_blank_append {front : List Char} (h : AllBlank front) (cs : List Char) :
    dropLineComments (front ++ cs) = front ++ dropLineComments cs := by
  induction front with
  | nil => rfl
  | cons c front ih =>
    have hslash := (ne_of_isBlank (h c List.mem_cons_self)).1
    rw [List.cons_append, dropLineComments_cons fun _ hc => absurd hc hslash,
      ih fun d hd => h d (List.mem_cons_of_mem _ hd), List.cons_append]

section Back

variable {back : List Char}

/-- Blanks at the back do not start with a character of a comment. -/
theorem AllBlank.ne_cons (h : AllBlank back) {c : Char} (hc : c = '/' ∨ c = '*') (inner : List Char) :
    back ≠ c :: inner := by
  rintro rfl
  obtain ⟨hslash, hstar⟩ := ne_of_isBlank (h c List.mem_cons_self)
  exact hc.elim hslash hstar

/-- Blanks at the back close no comment. -/
theorem afterClose?_append_blank (h : AllBlank back) (cs : List Char) :
    afterClose? (cs ++ back) = (afterClose? cs).map (· ++ back) := by
  have hcons : ∀ {c : Char} {rest : List Char}, (∀ inner, c = '*' → rest = '/' :: inner → False) →
      afterClose? (c :: rest) = afterClose? rest := by
    intro c rest hne
    rw [afterClose?.eq_def]
    split
    · next heq => cases heq
    · next inner heq =>
      obtain ⟨rfl, rfl⟩ := List.cons.inj heq
      exact (hne inner rfl rfl).elim
    · next heq =>
      obtain ⟨rfl, rfl⟩ := List.cons.inj heq
      rfl
  fun_induction afterClose? cs with
  | case1 =>
    rw [List.nil_append, Option.map_none]
    induction back with
    | nil => rfl
    | cons c back ih =>
      rw [hcons fun inner hc _ => (ne_of_isBlank (h c List.mem_cons_self)).2 hc]
      exact ih fun d hd => h d (List.mem_cons_of_mem _ hd)
  | case2 rest => rfl
  | case3 c rest hne ih =>
    rw [List.cons_append, hcons, ih]
    intro inner hc heq
    cases rest with
    | nil => exact h.ne_cons (.inl rfl) inner heq
    | cons d rest => exact hne rest hc (by rw [(List.cons.inj heq).1])

/-- The first pass keeps blanks at the back. -/
theorem dropBlockComments_append_blank (h : AllBlank back) (cs : List Char) :
    dropBlockComments (cs ++ back) = dropBlockComments cs ++ back := by
  fun_induction dropBlockComments cs with
  | case1 =>
    have hkept := dropBlockComments_blank_append h []
    rwa [dropBlockComments, List.append_nil] at hkept
  | case2 rest after hclose ih =>
    have hafter : afterClose? (rest ++ back) = some (after ++ back) := by
      rw [afterClose?_append_blank h, hclose, Option.map_some]
    rw [List.cons_append, List.cons_append, dropBlockComments_of_close hafter, ih]
  | case3 rest hnone ih =>
    rw [List.cons_append, dropBlockComments_cons, ih, List.cons_append]
    rintro inner _ heq
    have hinner : rest ++ back = inner := (List.cons.inj heq).2
    rw [← hinner, afterClose?_append_blank h, hnone, Option.map_none]
  | case4 c rest hne ih =>
    rw [List.cons_append, dropBlockComments_cons, ih, List.cons_append]
    intro inner hc heq
    cases rest with
    | nil => exact absurd heq (h.ne_cons (.inr rfl) inner)
    | cons d rest => exact (hne rest hc (by rw [(List.cons.inj heq).1])).elim

/-- The second pass keeps some of the blanks at the back, and else nothing more. -/
theorem exists_dropLineComments_append (h : AllBlank back) (cs : List Char) :
    ∃ kept, dropLineComments (cs ++ back) = dropLineComments cs ++ kept ∧ AllBlank kept := by
  have hblanks : ∀ {ds : List Char}, AllBlank ds → dropLineComments ds = ds := by
    intro ds hds
    have hkept := dropLineComments_blank_append hds []
    rwa [dropLineComments, List.append_nil] at hkept
  fun_induction dropLineComments cs with
  | case1 => exact ⟨back, hblanks h, h⟩
  | case2 rest ih =>
    rw [List.cons_append, List.cons_append, dropLineComments_line, List.dropWhile_append]
    split
    · next hempty =>
      have hdropped : AllBlank (back.dropWhile fun c => !endsLine c) :=
        fun c hc => h c ((List.dropWhile_sublist _).subset hc)
      refine ⟨back.dropWhile fun c => !endsLine c, ?_, hdropped⟩
      rw [hblanks hdropped, List.isEmpty_iff.mp hempty, dropLineComments, List.nil_append]
    · exact ih
  | case3 c rest hne ih =>
    obtain ⟨kept, hkept, hblank⟩ := ih
    refine ⟨kept, ?_, hblank⟩
    rw [List.cons_append, dropLineComments_cons, hkept, List.cons_append]
    intro inner hc heq
    cases rest with
    | nil => exact h.ne_cons (.inl rfl) inner heq
    | cons d rest => exact hne rest hc (by rw [(List.cons.inj heq).1])

end Back

/-- A text is blanks and comments only when both passes leave blanks of it. -/
theorem onlyComments_iff (cs : List Char) :
    onlyComments cs = true ↔ AllBlank (dropLineComments (dropBlockComments cs)) := by
  obtain ⟨front, back, heq, hfront, hback⟩ := exists_eq_append_trim cs
  obtain ⟨kept, hkept, hblank⟩ :=
    exists_dropLineComments_append hback (dropBlockComments (Text.trim cs))
  have hresidue : dropLineComments (dropBlockComments cs) =
      front ++ (dropLineComments (dropBlockComments (Text.trim cs)) ++ kept) := by
    conv =>
      lhs
      rw [heq]
    rw [dropBlockComments_blank_append hfront, dropLineComments_blank_append hfront,
      dropBlockComments_append_blank hback, hkept]
  rw [onlyComments, hresidue, allBlank_append, allBlank_append, Bool.or_eq_true,
    trim_isEmpty_iff (dropLineComments _)]
  constructor
  · rintro (hempty | hinner)
    · rw [List.isEmpty_iff.mp hempty, dropBlockComments, dropLineComments]
      exact ⟨hfront, by simp [AllBlank], hblank⟩
    · exact ⟨hfront, hinner, hblank⟩
  · rintro ⟨_, hinner, _⟩
    exact .inr hinner

end TreeLint.Source

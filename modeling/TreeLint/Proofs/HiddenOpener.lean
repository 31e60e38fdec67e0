/-
  Comments that hide the start of another comment.

  Taking out comments in two passes gives the plain characters of the reading from left to right, unless
  a comment that runs to the end of a line holds the start of one that has an end.  The first pass then
  takes out all that lies between the two, code as well.  How much is lost is said by the first such
  place: what stands in front of it is kept, and the passes go on after the end.
-/
import TreeLint.Proofs.CommentLexing

set_option autoImplicit false

namespace TreeLint.Source

/-! ## Hidden openers -/

/-- The comment holds the start of a comment that has an end in it or in what follows. -/
def Hides (comment following : List Char) : Prop :=
  ∃ before after, comment = before ++ '/' :: '*' :: after ∧
    (afterClose? (after ++ following)).isSome = true

/-- A comment among the pieces at the front runs to the end of a line and hides the start of another. -/
def HidesOpener (front back : List Piece) : Prop :=
  ∃ earlier comment later, front = earlier ++ .line comment :: later ∧
    Hides comment ((later ++ back).flatMap Piece.text)

theorem hidesOpener_cons_iff {piece : Piece} {front back : List Piece} :
    HidesOpener (piece :: front) back ↔
      (∃ comment, piece = .line comment ∧ Hides comment ((front ++ back).flatMap Piece.text)) ∨
        HidesOpener front back := by
  constructor
  · rintro ⟨earlier, comment, later, hsplit, hhides⟩
    cases earlier with
    | nil =>
      obtain ⟨rfl, rfl⟩ := List.cons.inj hsplit
      exact .inl ⟨comment, rfl, hhides⟩
    | cons first earlier =>
      obtain ⟨rfl, rfl⟩ := List.cons.inj hsplit
      exact .inr ⟨earlier, comment, later, rfl, hhides⟩
  · rintro (⟨comment, rfl, hhides⟩ | ⟨earlier, comment, later, rfl, hhides⟩)
    · exact ⟨[], comment, front, rfl, hhides⟩
    · exact ⟨piece :: earlier, comment, later, rfl, hhides⟩

/-- Of the pieces at the front the two passes leave the plain characters, if no opener is hidden among
them; they then go on with the text of the other pieces. -/
theorem residue_of_pieces {cs : List Char} {front back : List Piece}
    (hsplit : pieces cs = front ++ back) (h : ¬ HidesOpener front back) :
    dropLineComments (dropBlockComments cs) = front.filterMap Piece.plain? ++
      dropLineComments (dropBlockComments (back.flatMap Piece.text)) := by
  -- Along the reading from left to right; what is hidden in the rest is hidden in the whole.
  induction front generalizing cs with
  | nil =>
    rw [← show pieces cs = back from hsplit, flatMap_text_pieces]
    rfl
  | cons piece front ih =>
    have hrest : ¬ HidesOpener front back := fun hrest => h (hidesOpener_cons_iff.mpr (.inr hrest))
    rw [List.cons_append] at hsplit
    fun_cases pieces cs with
    | case1 => simp [pieces] at hsplit
    | case2 rest after hclose =>
      rw [pieces_of_close hclose] at hsplit
      obtain ⟨rfl, hafter⟩ := List.cons.inj hsplit
      rw [dropBlockComments_of_close hclose, ih hafter hrest]
      rfl
    | case3 rest hnone =>
      have hblock : ∀ inner, '/' = '/' → '*' :: rest = '*' :: inner → afterClose? inner = none := by
        rintro inner _ heq
        rw [← (List.cons.inj heq).2, hnone]
      have hline : ∀ inner, '/' = '/' → '*' :: rest ≠ '/' :: inner := by simp
      rw [pieces_plain hblock hline] at hsplit
      obtain ⟨rfl, hafter⟩ := List.cons.inj hsplit
      rw [residue_plain hblock hline, ih hafter hrest]
      rfl
    | case4 rest =>
      rw [pieces_line] at hsplit
      obtain ⟨rfl, hafter⟩ := List.cons.inj hsplit
      rw [residue_line, ih hafter hrest]
      · rfl
      · intro before after hcomment
        refine Option.not_isSome_iff_eq_none.mp fun hclosed => h ?_
        refine hidesOpener_cons_iff.mpr (.inl ⟨_, rfl, before, after, hcomment, ?_⟩)
        rwa [← hafter, flatMap_text_pieces]
    | case5 c rest hblock hline =>
      have hblock' : ∀ inner, c = '/' → rest = '*' :: inner → afterClose? inner = none :=
        fun inner hc hrest => (hblock inner hc hrest).elim
      rw [pieces_plain hblock' hline] at hsplit
      obtain ⟨rfl, hafter⟩ := List.cons.inj hsplit
      rw [residue_plain hblock' hline, ih hafter hrest]
      rfl

/-- A text in which no opener is hidden is left with its plain characters. -/
theorem residue_eq_plain {cs : List Char} (h : ¬ HidesOpener (pieces cs) []) :
    dropLineComments (dropBlockComments cs) = (pieces cs).filterMap Piece.plain? := by
  have hnothing : dropLineComments (dropBlockComments (([] : List Piece).flatMap Piece.text)) = [] := by
    simp [dropBlockComments, dropLineComments]
  rw [residue_of_pieces (List.append_nil _).symm h, hnothing, List.append_nil]

/-- Comments that run to the end of a line and do not hold `/*` hide nothing. -/
theorem not_hidesOpener {row back : List Piece}
    (h : ∀ comment, .line comment ∈ row → ¬ ['/', '*'] <:+: comment) : ¬ HidesOpener row back := by
  rintro ⟨earlier, comment, later, rfl, before, after, hcomment, _⟩
  refine h comment (List.mem_append_right _ List.mem_cons_self) ⟨before, after, ?_⟩
  rw [hcomment, List.append_assoc]
  rfl

/-! ## The first hidden opener -/

/-- A comment that has an end has it also in a longer text. -/
theorem isSome_afterClose?_append (front : List Char) {cs : List Char}
    (h : (afterClose? cs).isSome = true) : (afterClose? (front ++ cs)).isSome = true := by
  induction front with
  | nil => exact h
  | cons c front ih =>
    rw [List.cons_append, afterClose?.eq_def]
    split
    · next heq => cases heq
    · rfl
    · next heq =>
      obtain ⟨rfl, rfl⟩ := List.cons.inj heq
      exact ih

/-- A comment that hides an opener hides a first one. -/
theorem Hides.exists_first {comment following : List Char} (h : Hides comment following) :
    ∃ before after rest, comment = before ++ '/' :: '*' :: after ∧
      afterClose? (after ++ following) = some rest ∧
      ∀ start inner, before ≠ start ++ '/' :: '*' :: inner := by
  obtain ⟨before, after, hcomment, hclosed⟩ := h
  -- On the length of what stands in front: an opener there has an end as well.
  induction hlength : before.length using Nat.strong_induction_on generalizing before after with
  | _ n ih =>
    by_cases hearlier : ∃ start inner, before = start ++ '/' :: '*' :: inner
    · obtain ⟨start, inner, rfl⟩ := hearlier
      have hshorter : start.length < n := by
        rw [← hlength, List.length_append, List.length_cons]
        omega
      refine ih start.length hshorter start (inner ++ '/' :: '*' :: after) ?_ ?_ rfl
      · rw [hcomment]
        simp
      · have hlonger := isSome_afterClose?_append (inner ++ ['/', '*']) hclosed
        simpa using hlonger
    · obtain ⟨rest, hrest⟩ := Option.isSome_iff_exists.mp hclosed
      exact ⟨before, after, rest, hcomment, hrest,
        fun start inner heq => hearlier ⟨start, inner, heq⟩⟩

/-- Pieces that hide an opener have a first comment that does. -/
theorem HidesOpener.exists_first {row back : List Piece} (h : HidesOpener row back) :
    ∃ front comment later, row = front ++ .line comment :: later ∧
      Hides comment ((later ++ back).flatMap Piece.text) ∧
      ¬ HidesOpener front (.line comment :: later ++ back) := by
  induction row with
  | nil =>
    obtain ⟨earlier, comment, later, hsplit, _⟩ := h
    simp at hsplit
  | cons piece row ih =>
    by_cases hfirst : ∃ comment, piece = .line comment ∧
        Hides comment ((row ++ back).flatMap Piece.text)
    · obtain ⟨comment, rfl, hhides⟩ := hfirst
      refine ⟨[], comment, row, rfl, hhides, ?_⟩
      rintro ⟨earlier, other, later, hsplit, _⟩
      simp at hsplit
    · obtain ⟨front, comment, later, rfl, hhides, hclear⟩ :=
        ih ((hidesOpener_cons_iff.mp h).resolve_left hfirst)
      refine ⟨piece :: front, comment, later, rfl, hhides, fun hopener => ?_⟩
      rw [hidesOpener_cons_iff] at hopener
      refine hopener.elim (fun hpiece => hfirst ?_) hclear
      simpa using hpiece

/-- Where the first hidden opener of a text stands: the pieces in front of the comment that holds it,
how that comment starts, and what follows the end that belongs to the opener. -/
def FirstHidden (cs : List Char) (front : List Piece) (start rest : List Char) : Prop :=
  ∃ after back, pieces cs = front ++ .line (start ++ '/' :: '*' :: after) :: back ∧
    ¬ HidesOpener front (.line (start ++ '/' :: '*' :: after) :: back) ∧
    (∀ earlier inner, start ≠ earlier ++ '/' :: '*' :: inner) ∧
    afterClose? (after ++ back.flatMap Piece.text) = some rest

theorem exists_firstHidden {cs : List Char} (h : HidesOpener (pieces cs) []) :
    ∃ front start rest, FirstHidden cs front start rest := by
  obtain ⟨front, comment, back, hsplit, hhides, hclear⟩ := h.exists_first
  obtain ⟨start, after, rest, rfl, hrest, hstart⟩ := hhides.exists_first
  rw [List.append_nil] at hclear hrest
  exact ⟨front, start, rest, after, back, hsplit, hclear, hstart, hrest⟩

/-- The passes leave the plain characters in front of the first hidden opener, and go on with the start
of its comment and what follows its end. -/
theorem FirstHidden.residue {cs : List Char} {front : List Piece} {start rest : List Char}
    (h : FirstHidden cs front start rest) :
    dropLineComments (dropBlockComments cs) = front.filterMap Piece.plain? ++
      dropLineComments (start ++ dropBlockComments rest) := by
  obtain ⟨after, back, hsplit, hclear, hstart, hrest⟩ := h
  have htext : (Piece.line (start ++ '/' :: '*' :: after) :: back).flatMap Piece.text =
      start ++ '/' :: '*' :: (after ++ back.flatMap Piece.text) := by
    simp [Piece.text]
  have hfirst : dropBlockComments (start ++ '/' :: '*' :: (after ++ back.flatMap Piece.text)) =
      start ++ dropBlockComments rest := by
    rw [dropBlockComments_append, dropBlockComments_of_close hrest]
    · exact fun earlier inner heq => absurd heq (hstart earlier inner)
    · intro inner heq
      exact absurd (List.cons.inj heq).1 (by decide)
  rw [residue_of_pieces hsplit hclear, htext, hfirst]

/-! ## Lost code -/

/-- The text has a plain character that is not blank. -/
def HasCode (cs : List Char) : Prop :=
  ∃ c, .plain c ∈ pieces cs ∧ Text.isBlank c = false

/-- An opener is hidden in the text, no code stands in front of the first one, and the passes leave only
blanks of the start of its comment and what follows its end. -/
def LosesCode (cs : List Char) : Prop :=
  ∃ front start rest, FirstHidden cs front start rest ∧
    (∀ c, .plain c ∈ front → Text.isBlank c = true) ∧
    AllBlank (dropLineComments (start ++ dropBlockComments rest))

/-- A text in which no opener is hidden has code when not all that is left of it is blank. -/
theorem not_allBlank_residue_iff {cs : List Char} (h : ¬ HidesOpener (pieces cs) []) :
    ¬ AllBlank (dropLineComments (dropBlockComments cs)) ↔ HasCode cs := by
  rw [residue_eq_plain h, allBlank_filterMap_plain?_iff, HasCode]
  simp only [not_forall, Bool.not_eq_true, exists_prop]

/-- A text with code is left with blanks only when the code is lost behind a hidden opener. -/
theorem allBlank_residue_iff {cs : List Char} (h : HasCode cs) :
    AllBlank (dropLineComments (dropBlockComments cs)) ↔ LosesCode cs := by
  constructor
  · intro hblank
    by_cases hhides : HidesOpener (pieces cs) []
    · obtain ⟨front, start, rest, hfirst⟩ := exists_firstHidden hhides
      rw [hfirst.residue, allBlank_append, allBlank_filterMap_plain?_iff] at hblank
      exact ⟨front, start, rest, hfirst, hblank⟩
    · exact absurd hblank ((not_allBlank_residue_iff hhides).mpr h)
  · rintro ⟨front, start, rest, hfirst, hblank⟩
    rw [hfirst.residue, allBlank_append, allBlank_filterMap_plain?_iff]
    exact hblank

end TreeLint.Source

/-
  Which catch blocks are reported.

  A block that has statements is reported when nothing but blanks is left of the text between its braces
  once the comments are taken out.  A block with code is reported exactly when its code is lost behind a
  hidden opener; if no opener is hidden, the blocks without code are reported and no others.
-/
import TreeLint.Proofs.HiddenOpener
import TreeLint.Proofs.Span
import TreeLint.Rule.Statement

set_option autoImplicit false

namespace TreeLint.Source

open TreeLint.Json TreeLint.Syntax

/-! ## The text of a block -/

/-- The text between the braces: all but the first and the last character. -/
def interior (block : List Char) : List Char :=
  block.tail.dropLast

theorem slice_eq_interior (cs : List Char) : Text.slice cs (some 1) (some (-1)) = interior cs := by
  cases cs with
  | nil => rfl
  | cons c rest =>
    have hfirst : Text.clampOffset (c :: rest).length 1 = 1 := by
      simp [Text.clampOffset]
    have hlast : Text.clampOffset (c :: rest).length (-1) = rest.length := by
      rw [Text.clampOffset, if_pos (by decide), List.length_cons]
      omega
    simp only [Text.slice, Option.map_some, Option.getD_some, hfirst, hlast, List.drop_succ_cons,
      List.drop_zero, interior, List.tail_cons, List.dropLast_eq_take]

/-- The node takes up the characters of the text from the first offset up to the second. -/
structure Covers (fields : Fields) (text : String) (first last : Nat) : Prop where
  /-- The span is made of the two offsets. -/
  span : ∃ s, spanOf fields = some s ∧ s.start.whole? = some (first : Int) ∧
    s.stop.whole? = some (last : Int)
  /-- It does not end before it starts. -/
  ordered : first ≤ last
  /-- It lies in the text. -/
  inside : last ≤ text.toList.length

variable {fields : Fields} {text : String} {first last : Nat}

theorem Covers.hasPlainSpan (h : Covers fields text first last) : HasPlainSpan (.obj fields) := by
  obtain ⟨s, hs, hstart, hstop⟩ := h.span
  refine ⟨some s, congrArg Except.ok hs, ?_⟩
  rintro _ ⟨⟩
  exact ⟨first, last, hstart, hstop⟩

/-- The text of a node that lies in the text. -/
theorem Covers.textOf (h : Covers fields text first last) :
    Source.textOf ⟨.str text⟩ (.obj fields) =
      .ok (.str (String.ofList ((text.toList.drop first).take (last - first)))) := by
  obtain ⟨s, hs, hstart, hstop⟩ := h.span
  have hspan : Syntax.span (.obj fields) = .ok (some s) := congrArg Except.ok hs
  rw [Source.textOf, hspan, ok_bind]
  simp only [Value.isNull, between, Rule.sliceBound_of_whole? hstart, Rule.sliceBound_of_whole? hstop,
    ok_bind, pure_eq_ok]
  rw [Text.slice_of_le _ (h.ordered.trans h.inside) h.inside]
  rfl

/-- A block with a text holds only comments when both passes leave blanks of what is between its braces. -/
theorem blockHasOnlyComments_decides {source : Source} {block : Value} {content : String}
    (h : source.textOf block = .ok (.str content)) :
    Decides (blockHasOnlyComments (some source) block)
      (AllBlank (dropLineComments (dropBlockComments (interior content.toList)))) := by
  simp only [blockHasOnlyComments, h, ok_bind, pure_eq_ok, slice_eq_interior]
  exact (Decides.of_bool _).congr (onlyComments_iff _)

theorem Covers.blockHasOnlyComments_decides (h : Covers fields text first last) :
    Decides (blockHasOnlyComments (some ⟨.str text⟩) (.obj fields))
      (AllBlank (dropLineComments (dropBlockComments
        (interior ((text.toList.drop first).take (last - first)))))) := by
  have hdecides := Source.blockHasOnlyComments_decides h.textOf
  rwa [String.toList_ofList] at hdecides

/-- Taking out comments in two passes agrees with reading from left to right, as long as no comment that
runs to the end of a line holds `/*`.  The two passes then leave the plain characters between the braces of a
block, and the block holds only comments exactly when these are blank. -/
theorem blockHasOnlyComments_of_pieces (source : Source) (block : Value) (content : String)
    (htext : source.textOf block = .ok (.str content))
    (hline : ∀ comment, .line comment ∈ pieces (interior content.toList) → ¬ ['/', '*'] <:+: comment) :
    dropLineComments (dropBlockComments (interior content.toList)) =
      (pieces (interior content.toList)).filterMap Piece.plain? ∧
    Decides (blockHasOnlyComments (some source) block)
      (∀ c, .plain c ∈ pieces (interior content.toList) → Text.isBlank c = true) := by
  have hclear : ¬ HidesOpener (pieces (interior content.toList)) [] := not_hidesOpener hline
  have hresidue := residue_eq_plain hclear
  refine ⟨hresidue, (blockHasOnlyComments_decides htext).congr ?_⟩
  rw [hresidue, allBlank_filterMap_plain?_iff]

/-- Comments without a gap between them, the last of which runs to the end of the line and holds `*/`: only
blanks are left. -/
theorem blockHasOnlyComments_of_pieces_adjacent :
    let content := "\x7b /* a *//**/// b */\r\n \x7d"
    let text := "try " ++ content
    let block : Fields := [("type", .str "BlockStatement"), ("start", .int 4), ("end", .int 28)]
    (∀ comment, .line comment ∈ pieces (interior content.toList) → ¬ ['/', '*'] <:+: comment) ∧
      .line "// b */".toList ∈ pieces (interior content.toList) ∧
      Decides (blockHasOnlyComments (some ⟨.str text⟩) (.obj block))
        (∀ c, .plain c ∈ pieces (interior content.toList) → Text.isBlank c = true) ∧
      blockHasOnlyComments (some ⟨.str text⟩) (.obj block) = .ok true := by
  intro content text block
  have hpieces : pieces (interior content.toList) = [.plain ' ', .block "/* a */".toList,
      .block "/**/".toList, .line "// b */".toList, .plain '\r', .plain '\n', .plain ' '] := by
    decide +kernel
  have hline : ∀ comment, .line comment ∈ pieces (interior content.toList) →
      ¬ ['/', '*'] <:+: comment := by
    intro comment hcomment
    rw [hpieces] at hcomment
    simp only [List.mem_cons, reduceCtorEq, Piece.line.injEq, List.not_mem_nil, or_false, false_or]
      at hcomment
    rw [hcomment]
    decide +kernel
  have hblank : ∀ c, .plain c ∈ pieces (interior content.toList) → Text.isBlank c = true := by
    rw [← allBlank_filterMap_plain?_iff, hpieces]
    exact List.all_eq_true.mp (by decide +kernel)
  have hcovers : Covers block text 4 28 := ⟨⟨⟨.int 4, .int 28⟩, rfl, rfl, rfl⟩, by decide, by decide +kernel⟩
  have hcontent : String.ofList ((text.toList.drop 4).take (28 - 4)) = content := by decide +kernel
  have htext := hcovers.textOf
  rw [hcontent] at htext
  have hdecides := (blockHasOnlyComments_of_pieces _ _ content htext hline).2
  exact ⟨hline, by simp [hpieces], hdecides, hdecides.ok_true_iff.mpr hblank⟩

end TreeLint.Source

namespace TreeLint.Rule

open TreeLint.Json TreeLint.Syntax TreeLint.Source

/-- A block with statements is reported when it holds only comments. -/
theorem checkCatch_eq (context : Context) {clause block : Fields}
    (hclause : Fields.get clause "body" = .obj block)
    (hkind : isKind (.obj block) "BlockStatement" = true)
    (hbody : ∃ s rest, Fields.get block "body" = .arr (s :: rest)) :
    checkCatch context (.obj clause) = do
      if ← blockHasOnlyComments (some context.source) (.obj block) then
        return [← context.report (.obj block) "noSwallowedCatch"]
      else return [] := by
  obtain ⟨s, rest, hbody⟩ := hbody
  have hswallows : swallows context.source (.obj block) =
      blockHasOnlyComments (some context.source) (.obj block) := by
    simp [swallows, Value.get, hbody, Value.truthy]
  simp only [checkCatch, Value.get, hclause, ok_bind, isText_type, hkind, if_true, hswallows]

/-- The report of a block that lies in the text does not fail, and it is made when both passes leave only
blanks. -/
theorem checkCatch_outcome {context : Context} {clause block : Fields} {text : String}
    {first last : Nat} (hrule : context.rule = .noSwallowedCatch)
    (htext : context.source = ⟨.str text⟩) (hclause : Fields.get clause "body" = .obj block)
    (hkind : isKind (.obj block) "BlockStatement" = true) (hcovers : Covers block text first last)
    (hbody : ∃ s rest, Fields.get block "body" = .arr (s :: rest)) :
    (checkCatch context (.obj clause) = .ok [] ∧
      ¬ AllBlank (dropLineComments (dropBlockComments
        (interior ((text.toList.drop first).take (last - first)))))) ∨
    ∃ d, context.report (.obj block) "noSwallowedCatch" = .ok d ∧
      checkCatch context (.obj clause) = .ok [d] ∧
      AllBlank (dropLineComments (dropBlockComments
        (interior ((text.toList.drop first).take (last - first))))) := by
  have hmessage : ∃ message, context.rule.info.messages.lookup "noSwallowedCatch" = some message := by
    rw [hrule]
    exact ⟨_, rfl⟩
  obtain ⟨message, hmessage⟩ := hmessage
  have hknown : context.source.text = .null ∨ ∃ text, context.source.text = .str text :=
    .inr ⟨text, by rw [htext]⟩
  obtain ⟨d, hd⟩ := exists_report hmessage hknown hcovers.hasPlainSpan
  have hcheck := checkCatch_eq context hclause hkind hbody
  rw [hd, htext] at hcheck
  rcases hcovers.blockHasOnlyComments_decides with ⟨hyes, hblank⟩ | ⟨hno, hblank⟩
  · exact .inr ⟨d, hd, by rw [hcheck, hyes]; rfl, hblank⟩
  · exact .inl ⟨by rw [hcheck, hno]; rfl, hblank⟩

/-- What the rule about catch blocks says of a block with statements.  It reports the block once or
nothing at all.  A block with code is let pass exactly when the code is not lost behind a hidden opener.
If no opener is hidden, the blocks that are let pass are those with code. -/
theorem checkCatch_of_pieces (context : Context) (clause block : Fields) (text : String)
    (first last : Nat) (hrule : context.rule = .noSwallowedCatch)
    (htext : context.source = ⟨.str text⟩) (hclause : Fields.get clause "body" = .obj block)
    (hkind : isKind (.obj block) "BlockStatement" = true) (hcovers : Covers block text first last)
    (hbody : ∃ s rest, Fields.get block "body" = .arr (s :: rest)) :
    let content := interior ((text.toList.drop first).take (last - first))
    (checkCatch context (.obj clause) = .ok [] ∨
      ∃ d, context.report (.obj block) "noSwallowedCatch" = .ok d ∧
        checkCatch context (.obj clause) = .ok [d]) ∧
    (HasCode content → (checkCatch context (.obj clause) = .ok [] ↔ ¬ LosesCode content)) ∧
    (¬ HidesOpener (pieces content) [] →
      (checkCatch context (.obj clause) = .ok [] ↔ HasCode content)) := by
  intro content
  have houtcome := checkCatch_outcome hrule htext hclause hkind hcovers hbody
  have hpassed : checkCatch context (.obj clause) = .ok [] ↔
      ¬ AllBlank (dropLineComments (dropBlockComments content)) := by
    rcases houtcome with ⟨heq, hplain⟩ | ⟨d, _, heq, hblank⟩
    · exact ⟨fun _ => hplain, fun _ => heq⟩
    · exact ⟨fun hnone => (by cases heq.symm.trans hnone), fun hplain => absurd hblank hplain⟩
  refine ⟨?_, fun hcode => ?_, fun hhides => ?_⟩
  · exact houtcome.imp And.left fun ⟨d, hd, heq, _⟩ => ⟨d, hd, heq⟩
  · rw [hpassed, allBlank_residue_iff hcode]
  · rw [hpassed, not_allBlank_residue_iff hhides]

/-- A comment, a statement and a comment with a hidden opener: nothing is reported. -/
theorem checkCatch_of_pieces_handled :
    let text := "\x7b // why\n log(e); // /*\n /* done */ \x7d"
    let block : Fields := [("type", .str "BlockStatement"), ("start", .int 0), ("end", .int 37),
      ("body", .arr [.obj [("type", .str "ExpressionStatement")]])]
    let clause : Fields := [("type", .str "CatchClause"), ("body", .obj block)]
    let context : Context := ⟨.noSwallowedCatch, .empty, ⟨.str text⟩, .null⟩
    let content := interior ((text.toList.drop 0).take (37 - 0))
    Covers block text 0 37 ∧ HidesOpener (pieces content) [] ∧ HasCode content ∧
      ¬ LosesCode content ∧ checkCatch context (.obj clause) = .ok [] := by
  intro text block clause context content
  have hcovers : Covers block text 0 37 :=
    ⟨⟨⟨.int 0, .int 37⟩, rfl, rfl, rfl⟩, by decide, by decide⟩
  have hhides : HidesOpener (pieces content) [] :=
    ⟨(pieces content).take 12, "// /*".toList, (pieces content).drop 13, by decide +kernel,
      "// ".toList, [], rfl, by decide +kernel⟩
  have hcode : HasCode content := ⟨'l', by decide +kernel, by decide⟩
  have hloses : ¬ LosesCode content := by
    rw [← allBlank_residue_iff hcode, ← onlyComments_iff]
    decide +kernel
  have hverdict := checkCatch_of_pieces context clause block text 0 37 rfl rfl rfl (by decide) hcovers
    ⟨_, _, rfl⟩
  exact ⟨hcovers, hhides, hcode, hloses, (hverdict.2.1 hcode).mpr hloses⟩

/-- A block whose call stands between a comment with a hidden opener and one with its end: the block is
reported, although it has code. -/
theorem checkCatch_hidden_opener :
    let text := "\x7b // /*\n log(e); // */\n \x7d"
    let block : Fields := [("type", .str "BlockStatement"), ("start", .int 0), ("end", .int 25),
      ("body", .arr [.obj [("type", .str "ExpressionStatement")]])]
    let clause : Fields := [("type", .str "CatchClause"), ("body", .obj block)]
    let context : Context := ⟨.noSwallowedCatch, .empty, ⟨.str text⟩, .null⟩
    let content := interior ((text.toList.drop 0).take (25 - 0))
    Covers block text 0 25 ∧ HasCode content ∧
      ∃ d, context.report (.obj block) "noSwallowedCatch" = .ok d ∧
        checkCatch context (.obj clause) = .ok [d] := by
  intro text block clause context content
  have hcovers : Covers block text 0 25 :=
    ⟨⟨⟨.int 0, .int 25⟩, rfl, rfl, rfl⟩, by decide, by decide⟩
  have hblank : AllBlank (dropLineComments (dropBlockComments content)) :=
    (onlyComments_iff content).mp (by decide +kernel)
  refine ⟨hcovers, ⟨'l', by decide +kernel, by decide⟩, ?_⟩
  have hclause : Fields.get clause "body" = .obj block := rfl
  have htext : context.source = ⟨.str text⟩ := rfl
  have houtcome := checkCatch_outcome rfl htext hclause (by decide) hcovers ⟨_, _, rfl⟩
  rcases houtcome with ⟨_, hplain⟩ | ⟨d, hd, heq, _⟩
  · exact absurd hblank hplain
  · exact ⟨d, hd, heq⟩

end TreeLint.Rule

/-
  What loading a file can end in.

  A file gives a program or is refused, and the command reports either and goes on.  A few states of the
  disk are neither: a tree that cannot be opened, bytes that are not text, a number with too many digits
  and a source whose name holds a NUL.  They break loading off, and the command with it.
-/
import TreeLint.Command.Run
import TreeLint.Proofs.LinkLoop
import TreeLint.Proofs.Numerals

set_option autoImplicit false

namespace TreeLint.File

open TreeLint.Json TreeLint.Syntax

/-! ## Bytes -/

/-- The bytes are a text in UTF-8. -/
def IsUtf8 (bytes : ByteArray) : Prop :=
  ∃ s : String, s.toUTF8 = bytes

/-- The bytes are this text, with one character for each end of a line. -/
def Spells (bytes : ByteArray) (cs : List Char) : Prop :=
  ∃ s : String, s.toUTF8 = bytes ∧ Text.unifyNewlines s.toList = cs

theorem IsUtf8.exists_spells {bytes : ByteArray} (h : IsUtf8 bytes) : ∃ cs, Spells bytes cs := by
  obtain ⟨s, hs⟩ := h
  exact ⟨_, s, hs, rfl⟩

theorem Spells.isUtf8 {bytes : ByteArray} {cs : List Char} (h : Spells bytes cs) : IsUtf8 bytes := by
  obtain ⟨s, hs, _⟩ := h
  exact ⟨s, hs⟩

theorem decode_of_spells {bytes : ByteArray} {cs : List Char} (h : Spells bytes cs) :
    decode bytes = .ok cs := by
  obtain ⟨s, rfl, rfl⟩ := h
  rw [decode, String.fromUTF8?, String.toUTF8_eq_toByteArray, dif_pos s.isValidUTF8]
  rfl

theorem decode_of_not_isUtf8 {bytes : ByteArray} (h : ¬ IsUtf8 bytes) :
    decode bytes = .error (.broken .notText) := by
  rw [decode, String.fromUTF8?, dif_neg]
  exact fun hvalid => h ⟨String.fromUTF8 bytes hvalid, rfl⟩

/-! ## States of the disk -/

theorem hasNul_eq_false {path : String} (h : '\x00' ∉ path.toList) : hasNul path = false := by
  rw [hasNul, String.contains_char_eq]
  exact decide_eq_false h

/-- The path is one that can be asked for, and the entry stands there. -/
structure Stands (disk : Disk) (path : String) (entry : Entry) : Prop where
  named : hasNul path = false
  entry : disk path = .ok entry

/-- A file with this text stands at the path. -/
def HoldsText (disk : Disk) (path : String) (cs : List Char) : Prop :=
  ∃ bytes, Stands disk path (.file bytes) ∧ Spells bytes cs

/-- The file at the path holds a program, with the source text and the bindings that it comes with. -/
def HoldsProgram (disk : Disk) (path : String) (program text bindings : Value) : Prop :=
  ∃ cs document, HoldsText disk path cs ∧ Json.read cs = .ok document ∧
    unpack document = (program, text, bindings) ∧ isKind program "Program" = true

/-- A program from a file can be linked in place or by recursion. -/
theorem HoldsProgram.linkParents_eq {disk : Disk} {path : String} {program text bindings : Value}
    (h : HoldsProgram disk path program text bindings) : linkParents program = linkTree program := by
  obtain ⟨cs, document, _, hread, hparts, _⟩ := h
  have hdocument := hasDistinctNames_of_read hread
  refine linkParents_eq_linkTree ?_
  unfold unpack at hparts
  split at hparts
  · split at hparts
    · next hlookup =>
      cases hparts
      exact (hasDistinctNames_obj_iff.mp hdocument).2 _ (mem_of_lookup_eq_some hlookup)
    · cases hparts
      exact hdocument
  · cases hparts
    exact hdocument

/-- What a file gives: its program linked, the source text from where it is to be read, and the
bindings. -/
inductive Loads (disk : Disk) (path : String) (source : Option String) : Loaded → Prop where
  /-- No file is to be read for the source text. -/
  | own {program text bindings linked : Value} (held : HoldsProgram disk path program text bindings)
      (own : sourcePath? disk path source text = none) (linked_eq : linkTree program = .ok linked) :
      Loads disk path source ⟨linked, text, bindings⟩
  /-- The source text is that of a file. -/
  | file {program text bindings linked : Value} {name : String} {bytes : ByteArray} {cs : List Char}
      (held : HoldsProgram disk path program text bindings)
      (from_eq : sourcePath? disk path source text = some name) (named : hasNul name = false)
      (read_eq : disk.read name = .ok bytes) (spelled : Spells bytes cs)
      (linked_eq : linkTree program = .ok linked) :
      Loads disk path source ⟨linked, .str (String.ofList cs), bindings⟩

/-- Why a file is refused. -/
inductive Refuses (disk : Disk) (path : String) (source : Option String) : Refusal → Prop where
  | missing (absent : ∀ entry, ¬ Stands disk path entry) : Refuses disk path source (.missing path)
  | directory (stands : Stands disk path .directory) : Refuses disk path source (.notFile path)
  | device {content : Except SystemError ByteArray} (stands : Stands disk path (.device content)) :
      Refuses disk path source (.notFile path)
  | notDocument {cs : List Char} {left : Nat} (text : HoldsText disk path cs)
      (fails : Json.read cs = .error (.here left)) :
      Refuses disk path source
        (.notDocument (baseName path) (lineAndColumn cs left).1 (lineAndColumn cs left).2)
  | notProgram {cs : List Char} {document : Value} (text : HoldsText disk path cs)
      (read_eq : Json.read cs = .ok document) (other : isKind (unpack document).1 "Program" = false) :
      Refuses disk path source (.notProgram (baseName path))
  | unreadable {program text bindings : Value} {name : String} {error : SystemError}
      (held : HoldsProgram disk path program text bindings)
      (from_eq : sourcePath? disk path source text = some name) (named : hasNul name = false)
      (fails : disk.read name = .error error) : Refuses disk path source (.unreadable name error)

/-- What breaks loading off. -/
inductive Breaks (disk : Disk) (path : String) (source : Option String) : Fault → Prop where
  | locked {error : SystemError} (stands : Stands disk path (.locked error)) :
      Breaks disk path source (.unopened error.code)
  | treeNotText {bytes : ByteArray} (stands : Stands disk path (.file bytes)) (other : ¬ IsUtf8 bytes) :
      Breaks disk path source .notText
  | tooManyDigits {cs : List Char} (text : HoldsText disk path cs)
      (fails : Json.read cs = .error .tooManyDigits) : Breaks disk path source .tooManyDigits
  | nulInName {program text bindings : Value} {name : String}
      (held : HoldsProgram disk path program text bindings)
      (from_eq : sourcePath? disk path source text = some name) (nul : hasNul name = true) :
      Breaks disk path source .nulInPath
  | sourceNotText {program text bindings : Value} {name : String} {bytes : ByteArray}
      (held : HoldsProgram disk path program text bindings)
      (from_eq : sourcePath? disk path source text = some name) (named : hasNul name = false)
      (read_eq : disk.read name = .ok bytes) (other : ¬ IsUtf8 bytes) :
      Breaks disk path source .notText

section Endings

variable {disk : Disk} {path : String} {source : Option String}

/-- A file with a program is loaded, refused or broken off by its source text alone. -/
theorem exists_ending_of_program {program text bindings : Value}
    (h : HoldsProgram disk path program text bindings) :
    (∃ loaded, Loads disk path source loaded) ∨ (∃ refusal, Refuses disk path source refusal) ∨
      ∃ fault, Breaks disk path source fault := by
  have hlinked : linkTree program = .ok (rebuild hang [] program) := by
    obtain ⟨_, _, _, _, _, hkind⟩ := h
    exact linkTree_eq (isNode_of_isKind hkind)
  cases hfrom : sourcePath? disk path source text with
  | none => exact .inl ⟨_, .own h hfrom hlinked⟩
  | some name =>
    cases hnul : hasNul name with
    | true => exact .inr (.inr ⟨_, .nulInName h hfrom hnul⟩)
    | false =>
      cases hread : disk.read name with
      | error error => exact .inr (.inl ⟨_, .unreadable h hfrom hnul hread⟩)
      | ok bytes =>
        by_cases htext : IsUtf8 bytes
        · obtain ⟨cs, hspelled⟩ := htext.exists_spells
          exact .inl ⟨_, .file h hfrom hnul hread hspelled hlinked⟩
        · exact .inr (.inr ⟨_, .sourceNotText h hfrom hnul hread htext⟩)

/-- Every state of the disk is one of the three. -/
theorem exists_ending (disk : Disk) (path : String) (source : Option String) :
    (∃ loaded, Loads disk path source loaded) ∨ (∃ refusal, Refuses disk path source refusal) ∨
      ∃ fault, Breaks disk path source fault := by
  -- the entry decides first, then its bytes, then the document in them
  by_cases hstands : ∃ entry, Stands disk path entry
  swap
  · exact .inr (.inl ⟨_, .missing fun entry h => hstands ⟨entry, h⟩⟩)
  obtain ⟨entry, hstands⟩ := hstands
  cases entry with
  | directory => exact .inr (.inl ⟨_, .directory hstands⟩)
  | device content => exact .inr (.inl ⟨_, .device hstands⟩)
  | locked error => exact .inr (.inr ⟨_, .locked hstands⟩)
  | file bytes =>
    by_cases htext : IsUtf8 bytes
    swap
    · exact .inr (.inr ⟨_, .treeNotText hstands htext⟩)
    obtain ⟨cs, hspelled⟩ := htext.exists_spells
    have hholds : HoldsText disk path cs := ⟨bytes, hstands, hspelled⟩
    cases hread : Json.read cs with
    | error error =>
      cases error with
      | here left => exact .inr (.inl ⟨_, .notDocument hholds hread⟩)
      | tooManyDigits => exact .inr (.inr ⟨_, .tooManyDigits hholds hread⟩)
    | ok document =>
      cases hkind : isKind (unpack document).1 "Program" with
      | false => exact .inr (.inl ⟨_, .notProgram hholds hread hkind⟩)
      | true => exact exists_ending_of_program ⟨cs, document, hholds, hread, rfl, hkind⟩

/-! ## From states to outcomes -/

theorem readDocument_of_ok {cs : List Char} {document : Value} (h : HoldsText disk path cs)
    (hread : Json.read cs = .ok document) : readDocument disk path = .ok document := by
  obtain ⟨bytes, ⟨hnul, hentry⟩, hspelled⟩ := h
  simp [readDocument, Disk.holds, Disk.holdsFile, Disk.read, hnul, hentry, decode_of_spells hspelled,
    hread, bind, Except.bind, pure, Except.pure]

theorem readSource_of_spells {name : String} {bytes : ByteArray} {cs : List Char}
    (hnul : hasNul name = false) (hread : disk.read name = .ok bytes) (h : Spells bytes cs) :
    readSource disk name = .ok (.str (String.ofList cs)) := by
  simp [readSource, hnul, hread, decode_of_spells h, bind, Except.bind, pure, Except.pure]

theorem load_of_failure {failure : Failure} (h : readDocument disk path = .error failure) :
    load disk path source = .error failure := by
  rw [load, h]
  rfl

theorem load_of_source_failure {program text bindings : Value} {name : String} {failure : Failure}
    (h : HoldsProgram disk path program text bindings)
    (hfrom : sourcePath? disk path source text = some name)
    (hread : readSource disk name = .error failure) : load disk path source = .error failure := by
  obtain ⟨cs, document, htext, hdocument, hparts, hkind⟩ := h
  simp [load, readDocument_of_ok htext hdocument, hparts, hkind, hfrom, hread, bind, Except.bind]

theorem Loads.load_eq {loaded : Loaded} (h : Loads disk path source loaded) :
    load disk path source = .ok loaded := by
  cases h with
  | own held hfrom hlinked =>
    rw [← held.linkParents_eq] at hlinked
    obtain ⟨cs, document, htext, hdocument, hparts, hkind⟩ := held
    simp [load, readDocument_of_ok htext hdocument, hparts, hkind, hfrom, hlinked, bind, Except.bind,
      pure, Except.pure]
  | file held hfrom hnul hread hspelled hlinked =>
    rw [← held.linkParents_eq] at hlinked
    obtain ⟨cs, document, htext, hdocument, hparts, hkind⟩ := held
    simp [load, readDocument_of_ok htext hdocument, hparts, hkind, hfrom,
      readSource_of_spells hnul hread hspelled, hlinked, bind, Except.bind, pure, Except.pure]

theorem Refuses.load_eq {refusal : Refusal} (h : Refuses disk path source refusal) :
    load disk path source = .error (.refused refusal) := by
  cases h with
  | missing habsent =>
    refine load_of_failure ?_
    have hmissing : (!disk.holds path || hasNul path) = true := by
      cases hnul : hasNul path with
      | true => exact Bool.or_true _
      | false =>
        cases hentry : disk path with
        | ok entry => exact absurd ⟨hnul, hentry⟩ (habsent entry)
        | error error => simp [Disk.holds, hentry]
    rw [readDocument, if_pos hmissing]
  | directory hstands | device hstands =>
    refine load_of_failure ?_
    simp [readDocument, Disk.holds, Disk.holdsFile, hstands.named, hstands.entry]
  | notDocument htext hfails =>
    refine load_of_failure ?_
    obtain ⟨bytes, ⟨hnul, hentry⟩, hspelled⟩ := htext
    simp [readDocument, Disk.holds, Disk.holdsFile, Disk.read, hnul, hentry,
      decode_of_spells hspelled, hfails, bind, Except.bind]
  | notProgram htext hread hother =>
    simp [load, readDocument_of_ok htext hread, hother, bind, Except.bind]
  | unreadable held hfrom hnul hfails =>
    refine load_of_source_failure held hfrom ?_
    simp [readSource, hnul, hfails]

theorem Breaks.load_eq {fault : Fault} (h : Breaks disk path source fault) :
    load disk path source = .error (.broken fault) := by
  cases h with
  | locked hstands =>
    refine load_of_failure ?_
    simp [readDocument, Disk.holds, Disk.holdsFile, Disk.read, hstands.named, hstands.entry]
  | treeNotText hstands hother =>
    refine load_of_failure ?_
    simp [readDocument, Disk.holds, Disk.holdsFile, Disk.read, hstands.named, hstands.entry,
      decode_of_not_isUtf8 hother, bind, Except.bind]
  | tooManyDigits htext hfails =>
    refine load_of_failure ?_
    obtain ⟨bytes, ⟨hnul, hentry⟩, hspelled⟩ := htext
    simp [readDocument, Disk.holds, Disk.holdsFile, Disk.read, hnul, hentry,
      decode_of_spells hspelled, hfails, bind, Except.bind]
  | nulInName held hfrom hnul =>
    refine load_of_source_failure held hfrom ?_
    simp [readSource, hnul]
  | sourceNotText held hfrom hnul hread hother =>
    refine load_of_source_failure held hfrom ?_
    simp [readSource, hnul, hread, decode_of_not_isUtf8 hother, bind, Except.bind]

theorem load_eq_ok_iff {loaded : Loaded} :
    load disk path source = .ok loaded ↔ Loads disk path source loaded := by
  refine ⟨fun h => ?_, Loads.load_eq⟩
  rcases exists_ending disk path source with ⟨other, hloads⟩ | ⟨refusal, hrefuses⟩ | ⟨fault, hbreaks⟩
  · cases h.symm.trans hloads.load_eq
    exact hloads
  · cases h.symm.trans hrefuses.load_eq
  · cases h.symm.trans hbreaks.load_eq

theorem load_eq_refused_iff {refusal : Refusal} :
    load disk path source = .error (.refused refusal) ↔ Refuses disk path source refusal := by
  refine ⟨fun h => ?_, Refuses.load_eq⟩
  rcases exists_ending disk path source with ⟨loaded, hloads⟩ | ⟨other, hrefuses⟩ | ⟨fault, hbreaks⟩
  · cases h.symm.trans hloads.load_eq
  · cases h.symm.trans hrefuses.load_eq
    exact hrefuses
  · cases h.symm.trans hbreaks.load_eq

theorem load_eq_broken_iff {fault : Fault} :
    load disk path source = .error (.broken fault) ↔ Breaks disk path source fault := by
  refine ⟨fun h => ?_, Breaks.load_eq⟩
  rcases exists_ending disk path source with ⟨loaded, hloads⟩ | ⟨refusal, hrefuses⟩ | ⟨other, hbreaks⟩
  · cases h.symm.trans hloads.load_eq
  · cases h.symm.trans hrefuses.load_eq
  · cases h.symm.trans hbreaks.load_eq
    exact hbreaks

/-- What is loaded is a program, and each node below it leads back to the one that holds it. -/
theorem Loads.program_linked {loaded : Loaded} (h : Loads disk path source loaded) :
    isKind loaded.program "Program" = true ∧ IsLinked [] loaded.program := by
  obtain ⟨program, hkind, hlinked⟩ :
      ∃ program, isKind program "Program" = true ∧ linkTree program = .ok loaded.program := by
    cases h with
    | own held _ hlinked | file held _ _ _ _ hlinked =>
      obtain ⟨_, _, _, _, _, hkind⟩ := held
      exact ⟨_, hkind, hlinked⟩
  refine ⟨?_, isLinked_of_linkTree hlinked⟩
  have heq := hlinked.symm.trans (linkTree_eq (isNode_of_isKind hkind))
  rw [Except.ok.inj heq, isKind_congr (kind?_rebuild touchesParent_hang [] _)]
  exact hkind

/-! ## Disks in order -/

/-- The file may be read for the source text of the tree at the path. -/
def MayHoldSource (path : String) (source : Option String) (name : String) : Prop :=
  source = some name ∨ siblingPath? path = some name

/-- The files that loading looks at can be read as far as they are files: the tree opens and is text
without overlong numbers, the source has a name that can be asked for, and is text. -/
structure InOrder (disk : Disk) (path : String) (source : Option String) : Prop where
  opens : ∀ error, disk path ≠ .ok (.locked error)
  text : ∀ bytes, disk path = .ok (.file bytes) → ∃ cs, Spells bytes cs ∧ ¬ HasLongNumeral cs
  named : ∀ name, source = some name → hasNul name = false
  sourceText : ∀ name bytes, MayHoldSource path source name → disk.read name = .ok bytes → IsUtf8 bytes

theorem mayHoldSource_of_sourcePath? {text : Value} {name : String}
    (h : sourcePath? disk path source text = some name) : MayHoldSource path source name := by
  unfold sourcePath? at h
  split at h
  · exact .inl h
  · split at h
    · exact .inr (Option.eq_some_of_filter_eq_some h)
    · cases h

/-- The name of the file next to a tree has no character that the tree's has not. -/
theorem hasNul_of_siblingPath? {name : String} (h : siblingPath? path = some name)
    (hnul : hasNul name = true) : hasNul path = true := by
  unfold siblingPath? at h
  split at h
  · cases h
    rw [hasNul, String.contains_char_eq, decide_eq_true_eq] at hnul ⊢
    rw [String.toList_ofList] at hnul
    exact List.mem_of_mem_take hnul
  · cases h

/-- A disk in order never breaks loading off. -/
theorem InOrder.not_breaks (h : InOrder disk path source) (fault : Fault) :
    ¬ Breaks disk path source fault := by
  intro hbreaks
  cases hbreaks with
  | locked hstands => exact h.opens _ hstands.entry
  | treeNotText hstands hother =>
    obtain ⟨cs, hspelled, _⟩ := h.text _ hstands.entry
    exact hother hspelled.isUtf8
  | tooManyDigits htext hfails =>
    obtain ⟨bytes, hstands, hspelled⟩ := htext
    obtain ⟨cs, hother, hshort⟩ := h.text _ hstands.entry
    cases (decode_of_spells hspelled).symm.trans (decode_of_spells hother)
    exact hshort (hasLongNumeral_of_read hfails)
  | nulInName held hfrom hnul =>
    -- the file next to the tree is named by a part of the tree's path, which has no NUL
    obtain ⟨_, _, ⟨_, hstands, _⟩, _⟩ := held
    rcases mayHoldSource_of_sourcePath? hfrom with hsource | hsibling
    · exact Bool.false_ne_true ((h.named _ hsource).symm.trans hnul)
    · exact Bool.false_ne_true (hstands.named.symm.trans (hasNul_of_siblingPath? hsibling hnul))
  | sourceNotText _ hfrom _ hread hother =>
    exact hother (h.sourceText _ _ (mayHoldSource_of_sourcePath? hfrom) hread)

end Endings

end TreeLint.File

namespace TreeLint.File

open TreeLint.Json TreeLint.Syntax

/-- How loading ends, for the tree at the path and the source that was asked for: exactly the states of the
disk lead to each outcome, what is loaded is a linked program, and nothing breaks while all is in order. -/
structure LoadEnds (disk : Disk) (path : String) (source : Option String) : Prop where
  loads : ∀ loaded, load disk path source = .ok loaded ↔ Loads disk path source loaded
  refuses : ∀ refusal,
    load disk path source = .error (.refused refusal) ↔ Refuses disk path source refusal
  breaks : ∀ fault, load disk path source = .error (.broken fault) ↔ Breaks disk path source fault
  linked : ∀ loaded, Loads disk path source loaded →
    isKind loaded.program "Program" = true ∧ IsLinked [] loaded.program
  inOrder : InOrder disk path source → ∀ fault, ¬ Breaks disk path source fault

theorem loadEnds (disk : Disk) (path : String) (source : Option String) : LoadEnds disk path source where
  loads _ := load_eq_ok_iff
  refuses _ := load_eq_refused_iff
  breaks _ := load_eq_broken_iff
  linked _ := Loads.program_linked
  inOrder := InOrder.not_breaks

/-- The program `;`. -/
def semicolonProgram : Value :=
  .obj [("type", .str "Program"), ("body", .arr [.obj [("type", .str "EmptyStatement")]])]

/-- The text of the program. -/
def programText : String :=
  "\x7b\"type\":\"Program\",\"body\":[\x7b\"type\":\"EmptyStatement\"\x7d]\x7d"

theorem read_programText : Json.read programText.toList = .ok semicolonProgram := by
  simp [Json.read, Json.readValue, Json.readItems, Json.readFields, Json.readText, Json.skipBlanks,
    Fields.put, bind, Except.bind, programText, semicolonProgram]

theorem spells_programText : Spells programText.toUTF8 programText.toList :=
  ⟨_, rfl, Text.unifyNewlines_of_not_mem _ (by decide +kernel)⟩

end TreeLint.File

namespace TreeLint.Command

open TreeLint.Json TreeLint.Rule TreeLint.File

/-! ## The command over its files -/

section Files

variable (disk : Disk) (settings : Settings) (asDocument : Bool) (current : List String)

/-- What the command takes from the file at the path. -/
def takingOf (path : String) : Taking :=
  ⟨path, analyse settings.engine path (load disk path settings.source), noTime⟩

/-- The report about one file. -/
inductive Reported (path : String) : FileReport → Prop where
  /-- The file was refused, and the report says why. -/
  | failed {refusal : Refusal} {shown : String} (refuses : Refuses disk path settings.source refusal)
      (shown_eq : shownPath asDocument current path = .ok shown) :
      Reported path ⟨baseName path, shown, .failed (failedMessage path refusal), noTime⟩
  /-- The file was loaded and analysed. -/
  | analysed {loaded : Loaded} {diagnostics : List Diagnostic} {shown : String}
      (loads : Loads disk path settings.source loaded)
      (run_eq : settings.engine.run loaded.program loaded.text loaded.bindings = .ok diagnostics)
      (shown_eq : shownPath asDocument current path = .ok shown) :
      Reported path ⟨baseName path, shown, .analysed diagnostics, noTime⟩

/-- One file ends the command. -/
inductive Stops (path : String) : Fault → Prop where
  | loading {fault : Fault} (breaks : Breaks disk path settings.source fault) : Stops path fault
  | analysis {loaded : Loaded} {fault : Fault} (loads : Loads disk path settings.source loaded)
      (run_eq : settings.engine.run loaded.program loaded.text loaded.bindings = .error fault) :
      Stops path fault
  /-- A document shows the absolute path, and a path with a NUL has none. -/
  | naming (document : asDocument = true) (nul : hasNul path = true) : Stops path .nulInPath

/-- The files one after the other: each is reported, up to the first that ends the command. -/
inductive Progress : List String → List FileReport → Option Fault → Prop where
  | done : Progress [] [] none
  | stopped {path : String} {rest : List String} {fault : Fault}
      (stops : Stops disk settings asDocument path fault) : Progress (path :: rest) [] (some fault)
  | reported {path : String} {rest : List String} {report : FileReport} {reports : List FileReport}
      {ending : Option Fault} (here : Reported disk settings asDocument current path report)
      (later : Progress rest reports ending) : Progress (path :: rest) (report :: reports) ending

theorem shownPath_cases (path : String) :
    (∃ shown, shownPath asDocument current path = .ok shown) ∨
      asDocument = true ∧ hasNul path = true ∧
        shownPath asDocument current path = .error .nulInPath := by
  cases asDocument with
  | false => exact .inl ⟨path, rfl⟩
  | true =>
    cases hnul : hasNul path with
    | false => exact .inl ⟨_, by rw [shownPath, if_pos rfl, absolutePath, hnul]; rfl⟩
    | true => exact .inr ⟨rfl, rfl, by rw [shownPath, if_pos rfl, absolutePath, if_pos hnul]⟩

/-- A taken file is reported or ends the command. -/
theorem report_takingOf (path : String) :
    (∃ report, (takingOf disk settings path).report (shownPath asDocument current) = .ok report ∧
      Reported disk settings asDocument current path report) ∨
    ∃ fault, (takingOf disk settings path).report (shownPath asDocument current) = .error fault ∧
      Stops disk settings asDocument path fault := by
  rcases exists_ending disk path settings.source with
    ⟨loaded, hloads⟩ | ⟨refusal, hrefuses⟩ | ⟨fault, hbreaks⟩
  · cases hrun : settings.engine.run loaded.program loaded.text loaded.bindings with
    | error fault =>
      refine .inr ⟨fault, ?_, .analysis hloads hrun⟩
      simp [Taking.report, takingOf, analyse, hloads.load_eq, hrun, Except.map]
    | ok diagnostics =>
      rcases shownPath_cases asDocument current path with
        ⟨shown, hshown⟩ | ⟨hdocument, hnul, hshown⟩
      · refine .inl ⟨_, ?_, .analysed hloads hrun hshown⟩
        simp [Taking.report, takingOf, analyse, hloads.load_eq, hrun, hshown, Except.map]
      · refine .inr ⟨_, ?_, .naming hdocument hnul⟩
        simp [Taking.report, takingOf, analyse, hloads.load_eq, hrun, hshown, Except.map]
  · rcases shownPath_cases asDocument current path with
      ⟨shown, hshown⟩ | ⟨hdocument, hnul, hshown⟩
    · refine .inl ⟨_, ?_, .failed hrefuses hshown⟩
      simp [Taking.report, takingOf, analyse, hrefuses.load_eq, hshown]
    · refine .inr ⟨_, ?_, .naming hdocument hnul⟩
      simp [Taking.report, takingOf, analyse, hrefuses.load_eq, hshown]
  · refine .inr ⟨fault, ?_, .loading hbreaks⟩
    simp [Taking.report, takingOf, analyse, hbreaks.load_eq]

/-- The reports of the command are those of its files, up to the first that ends it. -/
theorem progress_reportsOf (files : List String) :
    Progress disk settings asDocument current files
      (reportsOf (shownPath asDocument current) (files.map (takingOf disk settings))).1
      (reportsOf (shownPath asDocument current) (files.map (takingOf disk settings))).2 := by
  induction files with
  | nil => exact .done
  | cons path rest ih =>
    rw [List.map_cons, reportsOf]
    rcases report_takingOf disk settings asDocument current path with ⟨report, hreport, hhere⟩ | ⟨fault, hreport, hstops⟩
    · rw [hreport]
      exact .reported hhere ih
    · rw [hreport]
      exact .stopped hstops

end Files

section Inversion

variable {disk : Disk} {settings : Settings} {asDocument : Bool} {current : List String} {path : String}
  {rest : List String} {reports : List FileReport} {ending : Option Fault}

/-- A file that breaks loading off ends the command, and neither it nor a later file is reported. -/
theorem Progress.of_breaks {fault : Fault} (h : Breaks disk path settings.source fault)
    (hprogress : Progress disk settings asDocument current (path :: rest) reports ending) :
    reports = [] ∧ ending = some fault := by
  cases hprogress with
  | stopped hstops =>
    cases hstops with
    | loading hbreaks =>
      cases h.load_eq.symm.trans hbreaks.load_eq
      exact ⟨rfl, rfl⟩
    | analysis hloads _ => cases h.load_eq.symm.trans hloads.load_eq
    | naming _ hnul =>
      -- what has no name on the disk is missing there, so it cannot break loading off
      have hmissing : Refuses disk path settings.source (.missing path) :=
        .missing fun _ hstands => Bool.false_ne_true (hstands.named.symm.trans hnul)
      cases h.load_eq.symm.trans hmissing.load_eq
  | reported hhere _ =>
    cases hhere with
    | failed hrefuses _ => cases h.load_eq.symm.trans hrefuses.load_eq
    | analysed hloads _ _ => cases h.load_eq.symm.trans hloads.load_eq

/-- A file that is refused is reported with the reason, and the command goes on with the files after
it. -/
theorem Progress.of_refuses {refusal : Refusal} {shown : String}
    (h : Refuses disk path settings.source refusal)
    (hshown : shownPath asDocument current path = .ok shown)
    (hprogress : Progress disk settings asDocument current (path :: rest) reports ending) :
    ∃ later, Progress disk settings asDocument current rest later ending ∧
      reports = ⟨baseName path, shown, .failed (failedMessage path refusal), noTime⟩ :: later := by
  cases hprogress with
  | stopped hstops =>
    cases hstops with
    | loading hbreaks => cases h.load_eq.symm.trans hbreaks.load_eq
    | analysis hloads _ => cases h.load_eq.symm.trans hloads.load_eq
    | naming hdocument hnul =>
      rw [hdocument, shownPath, if_pos rfl, absolutePath, if_pos hnul] at hshown
      cases hshown
  | reported hhere hlater =>
    cases hhere with
    | failed hrefuses hother =>
      cases h.load_eq.symm.trans hrefuses.load_eq
      cases hshown.symm.trans hother
      exact ⟨_, hlater, rfl⟩
    | analysed hloads _ _ => cases h.load_eq.symm.trans hloads.load_eq

end Inversion

/-- How the command ends with these reports, and with the fault that ended it if there was one: plain text
shows the reports there are, a document only all of them. -/
structure RunEnds (disk : Disk) (current args : List String) (settings : Settings)
    (reports : List FileReport) (ending : Option Fault) : Prop where
  progress : Progress disk settings (wantsDocument args) current settings.files reports ending
  stopped : ∀ fault, ending = some fault → (run disk current args).failure = some fault
  plain : wantsDocument args = false → (run disk current args).failure = ending ∧
    (run disk current args).stdout = plainText settings.files.length reports
  document : wantsDocument args = true → ending = none →
    ∀ text, documentText settings.ruleNames reports 0 = .ok text →
      (run disk current args).failure = none ∧ (run disk current args).stdout = text
  noDocument : wantsDocument args = true → ending ≠ none → (run disk current args).stdout = ""

theorem run_eq_output (disk : Disk) (current : List String) {args : List String} {settings : Settings}
    (h : Command.settings args = .ok settings) :
    run disk current args = output (wantsDocument args) settings current
      (settings.files.map (takingOf disk settings)) 0 := by
  rw [run, h]
  rfl

theorem exists_runEnds (disk : Disk) (current args : List String) {settings : Settings}
    (h : Command.settings args = .ok settings) :
    ∃ reports ending, RunEnds disk current args settings reports ending := by
  have hprogress := progress_reportsOf disk settings (wantsDocument args) current settings.files
  have hrun := run_eq_output disk current h
  obtain ⟨⟨reports, ending⟩, houtcome⟩ : ∃ outcome, reportsOf (shownPath (wantsDocument args) current)
      (settings.files.map (takingOf disk settings)) = outcome := ⟨_, rfl⟩
  simp only [output, houtcome] at hprogress hrun
  refine ⟨reports, ending, hprogress, fun fault hending => ?_, fun hplain => ?_,
    fun hdocument hending text htext => ?_, fun hdocument hending => ?_⟩
  · subst hending
    rw [hrun]
    split <;> rfl
  · rw [hrun, hplain]
    exact ⟨rfl, rfl⟩
  · subst hending
    rw [hrun, hdocument, if_pos rfl, htext]
    exact ⟨rfl, rfl⟩
  · obtain ⟨fault, rfl⟩ := Option.ne_none_iff_exists'.mp hending
    rw [hrun, hdocument, if_pos rfl]

/-- Loading ends in one of three ways, whatever stands on the disk: with a linked program, with a refusal, or
broken off in one of the five states that `Breaks` lists.  The command reports each file that is refused
and goes on, up to the first file that breaks loading off or whose analysis ends with a fault. -/
theorem loading_ends (disk : Disk) :
    (∀ path source, LoadEnds disk path source) ∧
      ∀ current args settings, Command.settings args = .ok settings →
        ∃ reports ending, RunEnds disk current args settings reports ending :=
  ⟨loadEnds disk, fun current args _ h => exists_runEnds disk current args h⟩

/-- A byte that begins no character. -/
theorem not_isUtf8_stray : ¬ IsUtf8 ⟨#[0xff]⟩ := by
  rintro ⟨s, hs⟩
  have hvalid : ByteArray.IsValidUTF8 ⟨#[0xff]⟩ := hs ▸ s.isValidUTF8
  revert hvalid
  rw [← ByteArray.validateUTF8_eq_true_iff]
  decide +kernel

/-- A disk with a tree, its source next to it, and a file that is not text. -/
def strayDisk : Disk := fun path =>
  if path = "b.json" then .ok (.file ⟨#[0xff]⟩)
  else if path = "c.js.json" then .ok (.file programText.toUTF8)
  else if path = "c.js" then .ok (.file ";".toUTF8)
  else .error .notFound

theorem breaks_stray (source : Option String) : Breaks strayDisk "b.json" source .notText :=
  .treeNotText ⟨hasNul_eq_false (by decide), rfl⟩ not_isUtf8_stray

/-- The tree is text, its numbers are short, and its source is text too. -/
theorem inOrder_stray : InOrder strayDisk "c.js.json" none where
  opens _ h := by cases h
  text bytes h := by
    cases h
    exact ⟨_, spells_programText, not_hasLongNumeral_of_length_le (by decide +kernel)⟩
  named _ h := by cases h
  sourceText name bytes hname h := by
    rcases hname with hname | hname
    · cases hname
    · have hsource : some name = some "c.js" := hname.symm.trans (by decide +kernel)
      cases hsource
      cases h
      exact ⟨";", rfl⟩

/-- A tree in order is loaded with the source next to it.  A file that is missing is reported as such, and
the stray one after it ends the command. -/
theorem loading_ends_stray :
    InOrder strayDisk "c.js.json" none ∧ (∀ fault, ¬ Breaks strayDisk "c.js.json" none fault) ∧
      (∃ linked, Syntax.linkTree semicolonProgram = .ok linked ∧
        load strayDisk "c.js.json" none = .ok ⟨linked, .str ";", .null⟩) ∧
      InOrder strayDisk "a.json" none ∧ (∀ fault, ¬ Breaks strayDisk "a.json" none fault) ∧
      (run strayDisk [] ["--text", "a.json", "b.json"]).failure = some .notText ∧
      (run strayDisk [] ["--text", "a.json", "b.json"]).stdout =
        plainText 2 [⟨"a.json", "a.json",
          .failed "Failed to load a.json: Input file does not exist: a.json", noTime⟩] := by
  obtain ⟨hload, hrun⟩ := loading_ends strayDisk
  have hheld : HoldsProgram strayDisk "c.js.json" semicolonProgram .null .null :=
    ⟨_, _, ⟨_, ⟨hasNul_eq_false (by decide), rfl⟩, spells_programText⟩, read_programText, rfl, by decide⟩
  have hlinked := Syntax.linkTree_eq (show Syntax.isNode semicolonProgram = true by decide)
  have hsource : sourcePath? strayDisk "c.js.json" none .null = some "c.js" := by decide +kernel
  have hloads : Loads strayDisk "c.js.json" none ⟨_, .str ";", .null⟩ :=
    .file hheld hsource (hasNul_eq_false (by decide)) rfl ⟨";", rfl, rfl⟩ hlinked
  have hmissingInOrder : InOrder strayDisk "a.json" none := by
    refine ⟨fun error h => ?_, fun bytes h => ?_, fun name h => ?_, fun name bytes hname h => ?_⟩
    · cases h
    · cases h
    · cases h
    · rcases hname with hname | hname
      · cases hname
      · have hother : some name = some "a" := hname.symm.trans (by decide +kernel)
        cases hother
        cases h
  have hmissing : Refuses strayDisk "a.json" none (.missing "a.json") :=
    .missing fun entry h => by cases h.entry
  refine ⟨inOrder_stray, (hload "c.js.json" none).inOrder inOrder_stray,
    ⟨_, hlinked, ((hload "c.js.json" none).loads _).mpr hloads⟩, hmissingInOrder,
    (hload "a.json" none).inOrder hmissingInOrder, ?_⟩
  obtain ⟨reports, ending, hends⟩ := hrun [] ["--text", "a.json", "b.json"] _ rfl
  obtain ⟨hfailure, hstdout⟩ := hends.plain (by decide +kernel)
  obtain ⟨later, hlater, rfl⟩ := hends.progress.of_refuses hmissing rfl
  obtain ⟨rfl, rfl⟩ := hlater.of_breaks (breaks_stray none)
  exact ⟨hfailure, hstdout⟩

/-- A file that is not text is not refused: it ends the command, and nothing is reported. -/
theorem load_not_text : load strayDisk "b.json" none = .error (.broken .notText) ∧
    (run strayDisk [] ["b.json"]).failure = some .notText ∧
    (run strayDisk [] ["b.json"]).stdout = "" := by
  obtain ⟨reports, ending, hends⟩ := exists_runEnds strayDisk [] ["b.json"] rfl
  obtain ⟨rfl, rfl⟩ := hends.progress.of_breaks (breaks_stray none)
  exact ⟨(breaks_stray none).load_eq, hends.stopped .notText rfl,
    hends.noDocument (by decide +kernel) (Option.some_ne_none _)⟩

end TreeLint.Command

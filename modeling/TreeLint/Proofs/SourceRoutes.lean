/-
  The ways of a source text.

  A tree comes alone or in an envelope with its source text and its bindings.  The source text is read from the
  file that is named for it; else it is the one in the envelope; else it is read from the file next to the
  tree, whose name lacks the ending; else it is not known.  A text without carriage returns can be handed over
  in each of the three ways, and the same is loaded.
-/
import TreeLint.Proofs.Loading

set_option autoImplicit false

namespace TreeLint.File

open TreeLint.Json TreeLint.Syntax

/-! ## Documents with a program -/

/-- The file at the path holds the document. -/
def HoldsDocument (disk : Disk) (path : String) (document : Value) : Prop :=
  ∃ cs, HoldsText disk path cs ∧ Json.read cs = .ok document

/-- The document is a program, or an envelope of one: an object without a kind, with the program, its source
text and its bindings, the last two null when they are not there. -/
inductive Encloses : Value → Value → Value → Value → Prop where
  /-- The program alone. -/
  | bare {program : Value} (kind : isKind program "Program" = true) : Encloses program program .null .null
  /-- The program in an envelope. -/
  | envelope {fields : Fields} {program : Value} (untyped : ∀ kind, Fields.get fields "type" ≠ .str kind)
      (held : fields.lookup "program" = some program) (kind : isKind program "Program" = true) :
      Encloses (.obj fields) program (Fields.get fields "sourceText") (Fields.get fields "bindings")

theorem Encloses.isKind {document program text bindings : Value}
    (h : Encloses document program text bindings) : isKind program "Program" = true := by
  cases h with
  | bare kind => exact kind
  | envelope _ _ kind => exact kind

theorem Encloses.unpack_eq {document program text bindings : Value}
    (h : Encloses document program text bindings) : unpack document = (program, text, bindings) := by
  cases h with
  | bare kind =>
    obtain ⟨fields, _, rfl, _⟩ := isNode_iff.mp (isNode_of_isKind kind)
    rw [unpack, isNode_of_isKind kind]
  | @envelope fields _ untyped held kind =>
    have hnode : isNode (.obj fields) = false := by
      refine Bool.eq_false_iff.mpr fun hnode => ?_
      obtain ⟨_, kind, heq, hkind⟩ := isNode_iff.mp hnode
      cases heq
      exact untyped kind hkind
    rw [unpack, hnode, held]

theorem HoldsDocument.holdsProgram {disk : Disk} {path : String} {document program text bindings : Value}
    (h : HoldsDocument disk path document) (hencloses : Encloses document program text bindings) :
    HoldsProgram disk path program text bindings := by
  obtain ⟨cs, htext, hread⟩ := h
  exact ⟨cs, document, htext, hread, hencloses.unpack_eq, hencloses.isKind⟩

/-! ## The file next to a tree -/

/-- The file next to a tree has the name of the tree without its ending. -/
theorem siblingPath?_eq_some_iff {path name : String} :
    siblingPath? path = some name ↔ path = name ++ treeEnding := by
  have hlength : path.length = path.toList.length := String.length_toList.symm
  have hending : treeEnding.length = treeEnding.toList.length := String.length_toList.symm
  unfold siblingPath?
  rw [hlength, hending]
  constructor
  · intro h
    split at h
    · next hsuffix =>
      obtain ⟨front, hfront⟩ := List.isSuffixOf_iff_suffix.mp hsuffix
      rw [← hfront, List.length_append, Nat.add_sub_cancel, List.take_left] at h
      rw [← Option.some.inj h, ← String.toList_inj, String.toList_append, String.toList_ofList, hfront]
    · cases h
  · rintro rfl
    rw [String.toList_append, if_pos (List.isSuffixOf_iff_suffix.mpr (List.suffix_append _ _)),
      List.length_append, Nat.add_sub_cancel, List.take_left, String.ofList_toList]

theorem sibling?_eq_some_iff {disk : Disk} {path name : String} :
    sibling? disk path = some name ↔ path = name ++ treeEnding ∧ disk.holdsFile name = true := by
  rw [sibling?, Option.filter_eq_some_iff, siblingPath?_eq_some_iff]

theorem sibling?_eq_none_iff {disk : Disk} {path : String} :
    sibling? disk path = none ↔ ∀ name, path = name ++ treeEnding → disk.holdsFile name = false := by
  rw [Option.eq_none_iff_forall_ne_some]
  refine forall_congr' fun name => ?_
  rw [Ne, sibling?_eq_some_iff, not_and, Bool.not_eq_true]

/-! ## Where the text comes from -/

/-- Where the source text of a tree comes from, for the source that was asked for and the text in the envelope. -/
inductive TextFrom (disk : Disk) (path : String) : Option String → Value → Value → Prop where
  /-- A file was named, and its text comes before any other. -/
  | named {name : String} {cs : List Char} (enclosed : Value) (holds : HoldsText disk name cs) :
      TextFrom disk path (some name) enclosed (.str (String.ofList cs))
  /-- The envelope has a text. -/
  | enclosed {text : Value} (known : text ≠ .null) : TextFrom disk path none text text
  /-- The file next to the tree has one. -/
  | beside {name : String} {cs : List Char} (ending : path = name ++ treeEnding)
      (holds : HoldsText disk name cs) : TextFrom disk path none .null (.str (String.ofList cs))
  /-- No file stands next to the tree. -/
  | unknown (absent : ∀ name, path = name ++ treeEnding → disk.holdsFile name = false) :
      TextFrom disk path none .null .null

/-- The file that is looked at for the source text is one that can be read as text. -/
structure SourceInOrder (disk : Disk) (path : String) (source : Option String) (text : Value) : Prop where
  named : ∀ name, source = some name → ∃ cs, HoldsText disk name cs
  beside : source = none → text = .null → ∀ name, path = name ++ treeEnding →
    disk.holdsFile name = true → ∃ cs, HoldsText disk name cs

theorem HoldsText.holdsFile {disk : Disk} {name : String} {cs : List Char} (h : HoldsText disk name cs) :
    disk.holdsFile name = true := by
  obtain ⟨bytes, ⟨_, hentry⟩, _⟩ := h
  simp [Disk.holdsFile, hentry]

section Routes

variable {disk : Disk} {path : String} {source : Option String} {program text bindings : Value}

/-- There is always one place where the text comes from. -/
theorem SourceInOrder.exists_textFrom (h : SourceInOrder disk path source text) :
    ∃ result, TextFrom disk path source text result := by
  cases source with
  | some name =>
    obtain ⟨cs, hholds⟩ := h.named name rfl
    exact ⟨_, .named text hholds⟩
  | none =>
    by_cases hnull : text = .null
    · subst hnull
      cases hsibling : sibling? disk path with
      | none => exact ⟨_, .unknown (sibling?_eq_none_iff.mp hsibling)⟩
      | some name =>
        obtain ⟨hending, hfile⟩ := sibling?_eq_some_iff.mp hsibling
        obtain ⟨cs, hholds⟩ := h.beside rfl rfl name hending hfile
        exact ⟨_, .beside hending hholds⟩
    · exact ⟨_, .enclosed hnull⟩

/-- A tree is loaded with the text of a file. -/
theorem loads_of_file {name : String} {cs : List Char} {linked : Value}
    (hprogram : HoldsProgram disk path program text bindings) (hlinked : linkTree program = .ok linked)
    (hfrom : sourcePath? disk path source text = some name) (hholds : HoldsText disk name cs) :
    Loads disk path source ⟨linked, .str (String.ofList cs), bindings⟩ := by
  obtain ⟨bytes, ⟨hnul, hentry⟩, hspelled⟩ := hholds
  have hread : disk.read name = .ok bytes := by simp [Disk.read, hentry]
  exact .file hprogram hfrom hnul hread hspelled hlinked

/-- A tree is loaded with the text from where it comes. -/
theorem TextFrom.loads {result linked : Value} (h : TextFrom disk path source text result)
    (hprogram : HoldsProgram disk path program text bindings) (hlinked : linkTree program = .ok linked) :
    Loads disk path source ⟨linked, result, bindings⟩ := by
  cases h with
  | named _ hholds => exact loads_of_file hprogram hlinked rfl hholds
  | enclosed hknown =>
    refine .own hprogram ?_ hlinked
    rw [sourcePath?, if_neg (mt isNull_iff.mp hknown)]
  | beside hending hholds =>
    refine loads_of_file hprogram hlinked ?_ hholds
    exact sibling?_eq_some_iff.mpr ⟨hending, hholds.holdsFile⟩
  | unknown habsent => exact .own hprogram (sibling?_eq_none_iff.mpr habsent) hlinked

end Routes

/-! ## Handing a text over -/

/-- The file at the path has the text for its bytes. -/
def HasBytesOf (disk : Disk) (path text : String) : Prop :=
  Stands disk path (.file text.toUTF8)

theorem HasBytesOf.holdsText {disk : Disk} {path text : String} (h : HasBytesOf disk path text)
    (hplain : '\r' ∉ text.toList) : HoldsText disk path text.toList :=
  ⟨_, h, text, rfl, Text.unifyNewlines_of_not_mem _ hplain⟩

/-- The ways to hand over a source text with a program and its bindings. -/
inductive HandsOver (disk : Disk) (path : String) (program bindings : Value) (text : String) :
    Option String → Prop where
  /-- In a file that is named, whatever text the envelope has. -/
  | named {document enclosed : Value} {name : String} (holds : HoldsDocument disk path document)
      (encloses : Encloses document program enclosed bindings) (bytes : HasBytesOf disk name text) :
      HandsOver disk path program bindings text (some name)
  /-- In the file next to the tree. -/
  | beside {document : Value} {name : String} (holds : HoldsDocument disk path document)
      (encloses : Encloses document program .null bindings) (ending : path = name ++ treeEnding)
      (bytes : HasBytesOf disk name text) : HandsOver disk path program bindings text none
  /-- In the envelope. -/
  | enclosed {document : Value} (holds : HoldsDocument disk path document)
      (encloses : Encloses document program (.str text) bindings) :
      HandsOver disk path program bindings text none

/-- Each way hands over the text as it is, if it has no carriage returns. -/
theorem HandsOver.exists_textFrom {disk : Disk} {path text : String} {source : Option String}
    {program bindings : Value} (h : HandsOver disk path program bindings text source)
    (hplain : '\r' ∉ text.toList) :
    ∃ enclosed, HoldsProgram disk path program enclosed bindings ∧
      TextFrom disk path source enclosed (.str text) := by
  cases h with
  | @named _ enclosed _ holds encloses bytes =>
    refine ⟨enclosed, holds.holdsProgram encloses, ?_⟩
    rw [← String.ofList_toList (s := text)]
    exact .named enclosed (bytes.holdsText hplain)
  | beside holds encloses ending bytes =>
    refine ⟨.null, holds.holdsProgram encloses, ?_⟩
    rw [← String.ofList_toList (s := text)]
    exact .beside ending (bytes.holdsText hplain)
  | enclosed holds encloses =>
    exact ⟨.str text, holds.holdsProgram encloses, .enclosed Value.noConfusion⟩

/-- A program is loaded linked, with the bindings of its envelope and the text from the one place where it
comes from; and the way on which a text without carriage returns is handed over makes no difference. -/
theorem load_routes_agree {program : Value} (hprogram : isKind program "Program" = true) :
    ∃ linked, linkTree program = .ok linked ∧
      (∀ (disk : Disk) (path : String) (source : Option String) (document text bindings : Value),
        HoldsDocument disk path document → Encloses document program text bindings →
        SourceInOrder disk path source text →
        ∃ result, load disk path source = .ok ⟨linked, result, bindings⟩ ∧
          ∀ other, TextFrom disk path source text other ↔ other = result) ∧
      ∀ (disk : Disk) (path text : String) (source : Option String) (bindings : Value),
        '\r' ∉ text.toList → HandsOver disk path program bindings text source →
        load disk path source = .ok ⟨linked, .str text, bindings⟩ := by
  have hlinked := linkTree_eq (isNode_of_isKind hprogram)
  refine ⟨_, hlinked, fun disk path source document text bindings holds encloses horder => ?_,
    fun disk path text source bindings hplain hands => ?_⟩
  swap
  · obtain ⟨enclosed, hheld, hfrom⟩ := hands.exists_textFrom hplain
    exact (hfrom.loads hheld hlinked).load_eq
  have hload : ∀ {result}, TextFrom disk path source text result →
      load disk path source = .ok ⟨_, result, bindings⟩ :=
    fun hfrom => (hfrom.loads (holds.holdsProgram encloses) hlinked).load_eq
  obtain ⟨result, hfrom⟩ := horder.exists_textFrom
  refine ⟨result, hload hfrom, fun other => ⟨fun hother => ?_, fun heq => heq ▸ hfrom⟩⟩
  -- loading gives one text, so the text comes from one place
  have hsame := (hload hother).symm.trans (hload hfrom)
  exact congrArg Loaded.text (Except.ok.inj hsame)

/-- Bindings that list no use of the name. -/
def unusedName : Value :=
  .obj [("x", .arr [])]

/-- The text of an envelope with the program, its source text and its bindings. -/
def envelopeText : String :=
  "\x7b\"program\":" ++ programText ++ ",\"sourceText\":\";\",\"bindings\":\x7b\"x\":[]\x7d\x7d"

/-- A disk with a program and its source text next to it, the program in an envelope with the same text, and
a source text with another end of line. -/
def routeDisk : Disk := fun path =>
  if path = "a.js.json" then .ok (.file programText.toUTF8)
  else if path = "a.js" then .ok (.file ";".toUTF8)
  else if path = "b.json" then .ok (.file envelopeText.toUTF8)
  else if path = "c.js" then .ok (.file ";\r\n".toUTF8)
  else .error .notFound

theorem holdsDocument_bare : HoldsDocument routeDisk "a.js.json" semicolonProgram := by
  have hbytes : HasBytesOf routeDisk "a.js.json" programText := ⟨hasNul_eq_false (by decide), rfl⟩
  exact ⟨_, hbytes.holdsText (by decide +kernel), read_programText⟩

theorem holdsDocument_envelope : HoldsDocument routeDisk "b.json"
    (.obj [("program", semicolonProgram), ("sourceText", .str ";"), ("bindings", unusedName)]) := by
  have hbytes : HasBytesOf routeDisk "b.json" envelopeText := ⟨hasNul_eq_false (by decide), rfl⟩
  refine ⟨_, hbytes.holdsText (by decide +kernel), ?_⟩
  simp [Json.read, Json.readValue, Json.readItems, Json.readFields, Json.readText, Json.skipBlanks,
    Fields.put, bind, Except.bind, envelopeText, programText, semicolonProgram, unusedName]

/-- The text is the same from the file next to the tree, from the envelope and from a file that is named; and
a named file comes before the envelope, with its ends of lines made one.  The bindings come with the envelope. -/
theorem load_routes_agree_thrice :
    ∃ linked, linkTree semicolonProgram = .ok linked ∧
      load routeDisk "a.js.json" none = .ok ⟨linked, .str ";", .null⟩ ∧
      load routeDisk "b.json" none = .ok ⟨linked, .str ";", unusedName⟩ ∧
      load routeDisk "a.js.json" (some "a.js") = .ok ⟨linked, .str ";", .null⟩ ∧
      load routeDisk "b.json" (some "c.js") = .ok ⟨linked, .str ";\n", unusedName⟩ := by
  have hprogram : isKind semicolonProgram "Program" = true := by decide
  have hbare : Encloses semicolonProgram semicolonProgram .null .null := .bare hprogram
  have henvelope : Encloses
      (.obj [("program", semicolonProgram), ("sourceText", .str ";"), ("bindings", unusedName)])
      semicolonProgram (.str ";") unusedName := .envelope (fun _ h => by cases h) rfl hprogram
  have hbytes : HasBytesOf routeDisk "a.js" ";" := ⟨hasNul_eq_false (by decide), rfl⟩
  have hother : HoldsText routeDisk "c.js" ";\n".toList :=
    ⟨_, ⟨hasNul_eq_false (by decide), rfl⟩, ";\r\n", rfl, by decide⟩
  obtain ⟨linked, hlinked, hload, hroutes⟩ := load_routes_agree hprogram
  refine ⟨linked, hlinked, ?_, ?_, ?_, ?_⟩
  · exact hroutes _ _ _ _ _ (by decide) (.beside holdsDocument_bare hbare rfl hbytes)
  · exact hroutes _ _ _ _ _ (by decide) (.enclosed holdsDocument_envelope henvelope)
  · exact hroutes _ _ _ _ _ (by decide) (.named holdsDocument_bare hbare hbytes)
  · have horder : SourceInOrder routeDisk "b.json" (some "c.js") (.str ";") :=
      ⟨fun _ hname => Option.some.inj hname ▸ ⟨_, hother⟩, fun hnone => by cases hnone⟩
    obtain ⟨result, hresult, hfrom⟩ := hload _ _ _ _ _ _ holdsDocument_envelope henvelope horder
    rw [hresult, ← (hfrom _).mp (.named _ hother), String.ofList_toList]

end TreeLint.File

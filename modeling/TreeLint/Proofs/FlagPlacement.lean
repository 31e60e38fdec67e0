/-
  Where flags may stand.

  The arguments are a row of flags, flags with a value and files.  As long as no value and no file is spelled
  like a flag, and neither flag with a value is there twice, what the arguments ask for does not depend on
  where the flags stand: taking one flag out of the arguments leaves the other parts as they are, and in
  the end the files are left, in their order.
-/
import Mathlib.Data.List.Perm.Basic
import TreeLint.Command.Run

set_option autoImplicit false

namespace TreeLint.Command

/-! ## Parts of the arguments -/

/-- The flags that stand alone. -/
inductive Switch where
  /-- Asks for plain text. -/
  | text
  /-- Asks for a report of visits. -/
  | debug
  /-- Lets exports of other files' exports stand anywhere. -/
  | reExport
deriving DecidableEq

/-- The flags that take a value. -/
inductive Parameter where
  /-- The file with the source text. -/
  | source
  /-- The names of the rules. -/
  | rules
deriving DecidableEq

def Switch.word : Switch → String
  | .text => textFlag
  | .debug => debugFlag
  | .reExport => reExportFlag

def Parameter.word : Parameter → String
  | .source => "--source"
  | .rules => "--rules"

/-- All flags. -/
def flagWords : List String :=
  [textFlag, debugFlag, reExportFlag, "--source", "--rules"]

/-- A part of the arguments. -/
inductive Argument where
  /-- A flag that stands alone. -/
  | switch (s : Switch)
  /-- A flag and its value. -/
  | parameter (p : Parameter) (value : String)
  /-- A file. -/
  | file (name : String)
deriving DecidableEq

namespace Argument

/-- The arguments that spell the part. -/
def words : Argument → List String
  | .switch s => [s.word]
  | .parameter p value => [p.word, value]
  | .file name => [name]

/-- The flag of the part. -/
def flag? : Argument → Option String
  | .switch s => some s.word
  | .parameter p _ => some p.word
  | .file _ => none

/-- The text that the part gives, a value or the name of a file. -/
def given? : Argument → Option String
  | .switch _ => none
  | .parameter _ value => some value
  | .file name => some name

/-- The value that the part gives to a flag. -/
def value? (p : Parameter) : Argument → Option String
  | .parameter q value => if q = p then some value else none
  | _ => none

/-- The file that the part is. -/
def file? : Argument → Option String
  | .file name => some name
  | _ => none

/-- What the part gives is not spelled like a flag. -/
def IsFree (part : Argument) : Prop :=
  ∀ given ∈ part.given?, given ∉ flagWords

instance (part : Argument) : Decidable part.IsFree :=
  inferInstanceAs (Decidable (∀ given ∈ part.given?, given ∉ flagWords))

end Argument

/-- The arguments that a row of parts is. -/
def spell (row : List Argument) : List String :=
  row.flatMap Argument.words

/-- The values of a flag. -/
def values (p : Parameter) (row : List Argument) : List String :=
  row.filterMap (Argument.value? p)

/-- The files. -/
def files (row : List Argument) : List String :=
  row.filterMap Argument.file?

/-- The parts without those of a flag. -/
def dropFlag (flag : String) (row : List Argument) : List Argument :=
  row.filter fun part => part.flag? ≠ some flag

/-- No value and no file is spelled like a flag, and no flag has two values. -/
structure Clear (row : List Argument) : Prop where
  free : ∀ part ∈ row, part.IsFree
  once : ∀ p, (values p row).length ≤ 1

theorem Clear.dropFlag {row : List Argument} (h : Clear row) (flag : String) :
    Clear (dropFlag flag row) where
  free part hpart := h.free part (List.mem_of_mem_filter hpart)
  once p := Nat.le_trans (List.filter_sublist.filterMap _).length_le (h.once p)

/-! ## One part -/

section Words

variable {part : Argument}

theorem flag?_eq_switch_iff {s : Switch} : part.flag? = some s.word ↔ part = .switch s := by
  cases part with
  | switch t => cases s <;> cases t <;> decide
  | parameter p value => cases s <;> cases p <;> simp [Argument.flag?] <;> decide
  | file name => simp [Argument.flag?]

theorem flag?_eq_parameter_iff {p : Parameter} :
    part.flag? = some p.word ↔ ∃ value, part.value? p = some value := by
  cases part with
  | switch s => cases p <;> cases s <;> simp [Argument.flag?, Argument.value?] <;> decide
  | parameter q value => cases p <;> cases q <;> simp [Argument.flag?, Argument.value?] <;> decide
  | file name => simp [Argument.flag?, Argument.value?]

theorem file?_eq_some_iff {name : String} : part.file? = some name ↔ part = .file name := by
  cases part <;> simp [Argument.file?]

theorem words_of_value? {p : Parameter} {value : String} (h : part.value? p = some value) :
    part.words = [p.word, value] := by
  cases part with
  | parameter q other =>
    simp only [Argument.value?, Option.ite_none_right_eq_some, Option.some.injEq] at h
    rw [Argument.words, h.1, h.2]
  | _ => cases h

/-- A part spells no flag but its own. -/
theorem flag_mem_words_iff (h : part.IsFree) {flag : String} (hflag : flag ∈ flagWords) :
    flag ∈ part.words ↔ part.flag? = some flag := by
  have hgiven : ∀ given ∈ part.given?, flag ≠ given := fun given hmem heq => h given hmem (heq ▸ hflag)
  cases part with
  | switch s => simp [Argument.words, Argument.flag?, eq_comm]
  | parameter p value =>
    have hne : flag ≠ value := hgiven value rfl
    simp [Argument.words, Argument.flag?, hne, eq_comm]
  | file name =>
    have hne : flag ≠ name := hgiven name rfl
    simp [Argument.words, Argument.flag?, hne]

end Words

/-! ## Taking flags out -/

section Rows

variable {row : List Argument}

theorem flag_mem_spell_iff (h : ∀ part ∈ row, part.IsFree) {flag : String} (hflag : flag ∈ flagWords) :
    flag ∈ spell row ↔ ∃ part ∈ row, part.flag? = some flag := by
  rw [spell, List.mem_flatMap]
  exact exists_congr fun part => and_congr_right fun hpart => flag_mem_words_iff (h part hpart) hflag

theorem switch_mem_spell_iff (h : ∀ part ∈ row, part.IsFree) (s : Switch) :
    s.word ∈ spell row ↔ .switch s ∈ row := by
  have hflag : s.word ∈ flagWords := by cases s <;> decide
  simp only [flag_mem_spell_iff h hflag, flag?_eq_switch_iff, exists_eq_right]

/-- Taking a flag that stands alone out of the arguments takes its parts out, and nothing else. -/
theorem without_spell (h : ∀ part ∈ row, part.IsFree) (s : Switch) :
    without s.word (spell row) = spell (dropFlag s.word row) := by
  have hflag : s.word ∈ flagWords := by cases s <;> decide
  induction row with
  | nil => rfl
  | cons part rest ih =>
    obtain ⟨hpart, hrest⟩ := List.forall_mem_cons.mp h
    have htail := ih hrest
    simp only [without, spell, dropFlag, List.flatMap_cons, List.filter_append] at htail ⊢
    rw [htail]
    by_cases hs : part.flag? = some s.word
    · rw [List.filter_cons_of_neg (by simp [hs]), flag?_eq_switch_iff.mp hs]
      simp [Argument.words]
    · have hkept : part.words.filter (· ≠ s.word) = part.words := by
        refine List.filter_eq_self.mpr fun word hword => decide_eq_true ?_
        rintro rfl
        exact hs ((flag_mem_words_iff hpart hflag).mp hword)
      rw [hkept, List.filter_cons_of_pos (by simp [hs]), List.flatMap_cons]

/-- A flag without values has no parts. -/
theorem flag?_ne_of_values_nil {p : Parameter} (h : values p row = []) :
    ∀ part ∈ row, part.flag? ≠ some p.word := by
  intro part hpart hflag
  obtain ⟨value, hvalue⟩ := flag?_eq_parameter_iff.mp hflag
  cases hvalue.symm.trans (List.filterMap_eq_nil_iff.mp h part hpart)

theorem dropFlag_of_values_nil {p : Parameter} (h : values p row = []) : dropFlag p.word row = row :=
  List.filter_eq_self.mpr fun part hpart => decide_eq_true (flag?_ne_of_values_nil h part hpart)

theorem parameter_not_mem_spell (hfree : ∀ part ∈ row, part.IsFree) {p : Parameter}
    (h : values p row = []) : p.word ∉ spell row := by
  have hflag : p.word ∈ flagWords := by cases p <;> decide
  rw [flag_mem_spell_iff hfree hflag]
  rintro ⟨part, hpart, heq⟩
  exact flag?_ne_of_values_nil h part hpart heq

end Rows

/-- A flag that is not there has no value. -/
theorem takeValue_of_not_mem {flag : String} {args : List String} (h : flag ∉ args) :
    takeValue flag args = .absent := by
  induction args with
  | nil => rfl
  | cons arg rest ih =>
    obtain ⟨hne, hrest⟩ := List.ne_and_not_mem_of_not_mem_cons h
    unfold takeValue
    rw [if_neg (by simpa using Ne.symm hne), ih hrest]

/-- The first occurrence of a flag is taken out with the argument after it. -/
theorem takeValue_append {flag : String} {front : List String} (h : flag ∉ front) (value : String)
    (back : List String) :
    takeValue flag (front ++ flag :: value :: back) = .value value (front ++ back) := by
  induction front with
  | nil => simp [takeValue]
  | cons arg rest ih =>
    obtain ⟨hne, hrest⟩ := List.ne_and_not_mem_of_not_mem_cons h
    rw [List.cons_append]
    unfold takeValue
    rw [if_neg (by simpa using Ne.symm hne), ih hrest]
    rfl

/-- Taking a flag with a value out of the arguments gives its value, and leaves the other parts. -/
theorem valueOf_spell {row : List Argument} (h : Clear row) (p : Parameter) (hint : String) :
    valueOf p.word hint (spell row) = .ok ((values p row).head?, spell (dropFlag p.word row)) := by
  cases hvalues : values p row with
  | nil =>
    rw [valueOf, takeValue_of_not_mem (parameter_not_mem_spell h.free hvalues),
      dropFlag_of_values_nil hvalues]
    rfl
  | cons value more =>
    -- the flag is there once, so that no other part gives it a value
    obtain rfl : more = [] := by
      have hlength := h.once p
      rw [hvalues, List.length_cons] at hlength
      exact List.eq_nil_of_length_eq_zero (by omega)
    obtain ⟨front, part, back, rfl, hnone, hpart, hback⟩ := List.filterMap_eq_cons_iff.mp hvalues
    have hfront : values p front = [] := List.filterMap_eq_nil_iff.mpr hnone
    have habsent : p.word ∉ spell front :=
      parameter_not_mem_spell (fun other hother => h.free other (List.mem_append_left _ hother)) hfront
    have hspelled : spell (front ++ part :: back) = spell front ++ p.word :: value :: spell back := by
      simp [spell, words_of_value? hpart]
    have hkept : dropFlag p.word (front ++ part :: back) = front ++ back := by
      have hflag : part.flag? = some p.word := flag?_eq_parameter_iff.mpr ⟨value, hpart⟩
      have hparts : dropFlag p.word (front ++ part :: back) =
          dropFlag p.word front ++ dropFlag p.word back := by
        simp [dropFlag, hflag]
      rw [hparts, dropFlag_of_values_nil hfront, dropFlag_of_values_nil hback]
    rw [valueOf, hspelled, takeValue_append habsent, hkept, spell, spell, spell, List.flatMap_append]
    rfl

/-! ## Reading all parts -/

section Reading

variable {row : List Argument}

/-- Taking out one flag leaves the values of the others. -/
theorem values_dropFlag {flag : String} {p : Parameter} (hne : p.word ≠ flag) :
    values p (dropFlag flag row) = values p row := by
  rw [values, dropFlag, List.filterMap_filter]
  refine List.filterMap_congr fun part _ => ?_
  split
  · rfl
  · next hdropped =>
    have hflag : part.flag? = some flag := by simpa using hdropped
    cases hvalue : part.value? p with
    | none => rfl
    | some value =>
      have hown := flag?_eq_parameter_iff.mpr ⟨value, hvalue⟩
      exact absurd (Option.some.inj (hown.symm.trans hflag)) hne

/-- The parts without those of some flags. -/
def dropFlags (flags : List String) (row : List Argument) : List Argument :=
  flags.foldl (fun left flag => dropFlag flag left) row

theorem mem_dropFlags_iff {flags : List String} {part : Argument} :
    part ∈ dropFlags flags row ↔ part ∈ row ∧ ∀ flag ∈ flags, part.flag? ≠ some flag := by
  induction flags generalizing row with
  | nil => simp [dropFlags]
  | cons flag rest ih =>
    rw [dropFlags, List.foldl_cons, ← dropFlags, ih]
    simp [dropFlag, and_assoc]

theorem switch_mem_dropFlags_iff {flags : List String} {s : Switch} (h : s.word ∉ flags) :
    .switch s ∈ dropFlags flags row ↔ .switch s ∈ row := by
  rw [mem_dropFlags_iff, and_iff_left]
  rintro flag hflag heq
  exact h (Option.some.inj heq ▸ hflag)

theorem Clear.dropFlags (h : Clear row) (flags : List String) : Clear (dropFlags flags row) := by
  induction flags generalizing row with
  | nil => exact h
  | cons flag rest ih => exact ih (h.dropFlag flag)

theorem values_dropFlags {flags : List String} {p : Parameter} (h : p.word ∉ flags) :
    values p (dropFlags flags row) = values p row := by
  induction flags generalizing row with
  | nil => rfl
  | cons flag rest ih =>
    obtain ⟨hne, hrest⟩ := List.ne_and_not_mem_of_not_mem_cons h
    rw [dropFlags, List.foldl_cons, ← dropFlags, ih hrest, values_dropFlag hne]

theorem files_dropFlags (flags : List String) : files (dropFlags flags row) = files row := by
  induction flags generalizing row with
  | nil => rfl
  | cons flag rest ih =>
    rw [dropFlags, List.foldl_cons, ← dropFlags, ih, files, dropFlag, List.filterMap_filter]
    refine List.filterMap_congr fun part _ => ?_
    cases part <;> simp [Argument.flag?, Argument.file?]

/-- A row of files alone is spelled by their names. -/
theorem spell_eq_files (h : ∀ part ∈ row, ∃ name, part = .file name) : spell row = files row := by
  induction row with
  | nil => rfl
  | cons part rest ih =>
    obtain ⟨⟨name, rfl⟩, hrest⟩ := List.forall_mem_cons.mp h
    rw [spell, List.flatMap_cons, ← spell, ih hrest]
    rfl

/-- When all flags are taken out, the files are left, in their order. -/
theorem spell_dropFlags : spell (dropFlags flagWords row) = files row := by
  rw [← files_dropFlags flagWords]
  refine spell_eq_files fun part hpart => ?_
  obtain ⟨_, hnone⟩ := mem_dropFlags_iff.mp hpart
  cases part with
  | switch s => exact absurd rfl (hnone s.word (by cases s <;> decide))
  | parameter p value => exact absurd rfl (hnone p.word (by cases p <;> decide))
  | file name => exact ⟨name, rfl⟩

/-- What the parts ask for: the rules that are named, if there are files, and only one for a given source. -/
def asked (row : List Argument) : Except UsageError Settings := do
  let rules ← rulesNamed (((values .rules row).head?.map namesIn).getD [])
  if files row = [] then .error .noFiles
  else if values .source row ≠ [] ∧ 1 < (files row).length then .error .sourceForMany
  else return ⟨files row, rules, (values .source row).head?, decide (.switch .reExport ∈ row),
    decide (.switch .debug ∈ row)⟩

theorem wantsDocument_spell {row : List Argument} (h : Clear row) :
    wantsDocument (spell row) = decide (.switch .text ∉ row) := by
  rw [wantsDocument, List.contains_eq_mem, ← decide_not, decide_eq_decide]
  exact not_congr (switch_mem_spell_iff h.free .text)

/-- The arguments ask for what their parts ask for. -/
theorem settings_spell (h : Clear row) : settings (spell row) = asked row := by
  -- each flag is taken out of what the flags before it have left
  let first := dropFlags [textFlag] row
  let second := dropFlags [textFlag, debugFlag] row
  let third := dropFlags [textFlag, debugFlag, reExportFlag] row
  let fourth := dropFlags [textFlag, debugFlag, reExportFlag, "--source"] row
  have hfirst : Clear first := h.dropFlags _
  have hsecond : Clear second := h.dropFlags _
  have hthird : Clear third := h.dropFlags _
  have hfourth : Clear fourth := h.dropFlags _
  have htext : without textFlag (spell row) = spell first := without_spell h.free .text
  have hdebug : without debugFlag (spell first) = spell second := without_spell hfirst.free .debug
  have hreExport : without reExportFlag (spell second) = spell third := without_spell hsecond.free .reExport
  have hvisits : (spell first).contains debugFlag = decide (.switch .debug ∈ row) := by
    rw [List.contains_eq_mem, decide_eq_decide]
    exact (switch_mem_spell_iff hfirst.free .debug).trans (switch_mem_dropFlags_iff (by decide))
  have hexports : (spell second).contains reExportFlag = decide (.switch .reExport ∈ row) := by
    rw [List.contains_eq_mem, decide_eq_decide]
    exact (switch_mem_spell_iff hsecond.free .reExport).trans (switch_mem_dropFlags_iff (by decide))
  have hsource : valueOf "--source" "" (spell third) = .ok ((values .source row).head?, spell fourth) := by
    have hvalues : values .source third = values .source row := values_dropFlags (by decide)
    rw [← hvalues]
    exact valueOf_spell hthird .source ""
  have hrules : valueOf "--rules" " (expected comma-separated rule names)" (spell fourth) =
      .ok ((values .rules row).head?, files row) := by
    have hvalues : values .rules fourth = values .rules row := values_dropFlags (by decide)
    rw [← hvalues, ← spell_dropFlags]
    exact valueOf_spell hfourth .rules _
  simp only [settings, htext, hdebug, hreExport, hvisits, hexports, hsource, hrules, asked, bind, Except.bind]
  simp [List.isSome_head?]

end Reading

/-! ## Moving flags -/

/-- Rows with the same switches, values and files ask for the same. -/
theorem asked_congr {row other : List Argument} (hvalues : ∀ p, values p row = values p other)
    (hfiles : files row = files other) (hswitches : ∀ s, .switch s ∈ row ↔ .switch s ∈ other) :
    asked row = asked other := by
  simp only [asked, hvalues, hfiles, hswitches]

/-- The flags of a row come first, in any order, and its files after them. -/
def FlagsFirst (row first : List Argument) : Prop :=
  ∃ flags, flags.Perm (row.filter fun part => part.flag?.isSome) ∧ first = flags ++ (files row).map .file

namespace FlagsFirst

variable {row first : List Argument} (h : FlagsFirst row first)

include h

theorem mem_iff {part : Argument} : part ∈ first ↔ part ∈ row := by
  obtain ⟨flags, hflags, rfl⟩ := h
  simp only [List.mem_append, hflags.mem_iff, List.mem_filter, List.mem_map, files, List.mem_filterMap]
  cases part with
  | file name => simp [Argument.flag?, file?_eq_some_iff]
  | _ => simp [Argument.flag?]

theorem files_eq : files first = files row := by
  obtain ⟨flags, hflags, rfl⟩ := h
  have hnone : files flags = [] := by
    refine List.filterMap_eq_nil_iff.mpr fun part hpart => ?_
    have hflag := List.of_mem_filter (hflags.mem_iff.mp hpart)
    cases part with
    | file name => cases hflag
    | _ => rfl
  have hlast : files ((files row).map .file) = files row := by
    rw [files, List.filterMap_map]
    exact List.filterMap_some
  rw [files, List.filterMap_append, ← files, ← files, hnone, hlast, List.nil_append]

theorem values_eq (hclear : Clear row) (p : Parameter) : values p first = values p row := by
  obtain ⟨flags, hflags, rfl⟩ := h
  have hnone : values p ((files row).map .file) = [] := by
    rw [values, List.filterMap_map]
    exact List.filterMap_eq_nil_iff.mpr fun _ _ => rfl
  have hsame : values p (row.filter fun part => part.flag?.isSome) = values p row := by
    rw [values, List.filterMap_filter]
    refine List.filterMap_congr fun part _ => ?_
    cases part <;> rfl
  have hperm : (values p flags).Perm (values p row) := hsame ▸ hflags.filterMap _
  rw [values, List.filterMap_append, ← values, ← values, hnone, List.append_nil]
  -- a row of at most one value has no other order
  have honce := hclear.once p
  cases hvalues : values p row with
  | nil => exact (hvalues ▸ hperm).eq_nil
  | cons value more =>
    rw [hvalues, List.length_cons] at honce
    obtain rfl : more = [] := List.eq_nil_of_length_eq_zero (by omega)
    exact List.perm_singleton.mp (hvalues ▸ hperm)

theorem clear (hclear : Clear row) : Clear first where
  free part hpart := hclear.free part (h.mem_iff.mp hpart)
  once p := by
    rw [h.values_eq hclear p]
    exact hclear.once p

end FlagsFirst

/-- What the command does depends only on the kind of output and on the settings. -/
theorem run_congr {args other : List String} (hmode : wantsDocument args = wantsDocument other)
    (hsettings : settings args = settings other) (disk : File.Disk) (current : List String) :
    run disk current args = run disk current other := by
  simp only [run, hmode, hsettings]

/-- Flags may stand anywhere among the files.  Arguments that are a clear row of parts are read as what the parts
say: the kind of output, the visits, the exports of others' exports, the values of both flags and the
files in their order.  The same is read, and the command does the same, with all flags first, in any order,
and the files after them. -/
theorem run_of_flags_anywhere (row first : List Argument) (h : Clear row) (hfirst : FlagsFirst row first) :
    wantsDocument (spell row) = decide (.switch .text ∉ row) ∧ settings (spell row) = asked row ∧
      wantsDocument (spell row) = wantsDocument (spell first) ∧
      settings (spell row) = settings (spell first) ∧
      ∀ disk current, run disk current (spell row) = run disk current (spell first) := by
  have hclear := hfirst.clear h
  have hmode : wantsDocument (spell row) = wantsDocument (spell first) := by
    rw [wantsDocument_spell h, wantsDocument_spell hclear, decide_eq_decide, hfirst.mem_iff]
  have hsettings : settings (spell row) = settings (spell first) := by
    rw [settings_spell h, settings_spell hclear]
    exact asked_congr (fun p => (hfirst.values_eq h p).symm) hfirst.files_eq.symm
      fun s => hfirst.mem_iff.symm
  exact ⟨wantsDocument_spell h, settings_spell h, hmode, hsettings, run_congr hmode hsettings⟩

/-- The file comes first and a flag is there twice. -/
theorem run_of_flags_anywhere_mixed :
    let row : List Argument := [.file "a.json", .switch .text, .parameter .source "a.js", .switch .debug,
      .parameter .rules "no-else", .switch .text]
    let first : List Argument := [.parameter .rules "no-else", .parameter .source "a.js", .switch .text,
      .switch .text, .switch .debug, .file "a.json"]
    Clear row ∧ FlagsFirst row first ∧
      settings ["a.json", "--text", "--source", "a.js", "--debug", "--rules", "no-else", "--text"] =
        settings ["--rules", "no-else", "--source", "a.js", "--text", "--text", "--debug", "a.json"] ∧
      settings ["a.json", "--text", "--source", "a.js", "--debug", "--rules", "no-else", "--text"] =
        (rulesNamed (namesIn "no-else")).map fun rules => ⟨["a.json"], rules, some "a.js", false, true⟩ := by
  intro row first
  have hclear : Clear row := ⟨by decide, fun p => by cases p <;> decide⟩
  have hfirst : FlagsFirst row first := ⟨first.take 5, by decide, rfl⟩
  obtain ⟨_, hasked, _, hsame, _⟩ := run_of_flags_anywhere row first hclear hfirst
  exact ⟨hclear, hfirst, hsame, hasked.trans rfl⟩

end TreeLint.Command

/-
  The declarations that are found at the top level of a program.

  On readable programs every declaration has a text for its name, and nothing is lost when the
  declarations are gathered: under each name stand the declarations of that name, in order.
-/
import TreeLint.Proofs.ExportShape
import TreeLint.Usage.Declaration

set_option autoImplicit false

namespace TreeLint.Usage

open TreeLint.Json TreeLint.Syntax

/-! ## Names of patterns and declarations -/

/-- The declaration was found, and its name is a text. -/
def Declares (x : Except Fault Declaration) : Prop :=
  ∃ d : Declaration, x = .ok d ∧ ∃ n, d.name = .str n

section Reading

variable {S : Value → Prop} (R : ExportReading S)

include R

/-- Every name that a readable pattern binds is a text. -/
theorem patternNames_text {v : Value} (h : OrAbsent S v) :
    ∀ x ∈ patternNames v, ∃ n, x = .ok (.str n) := by
  -- One case for each kind of pattern; the parts of a pattern are absent or readable again.
  fun_induction patternNames v with
  | case1 => simp
  | case2 fields hkind =>
    obtain ⟨n, hn⟩ := R.name (h.resolve_left (by simp)) (isKind_iff.mpr hkind)
    rw [fieldOf_obj] at hn
    simp [hn]
  | case3 fields hkind items hitems ihArgument ihValue =>
    have hall := (R.members (h.resolve_left (by simp)) (isKind_iff.mpr hkind)).forall_mem hitems
    intro x hx
    obtain ⟨item, _, hx⟩ := List.mem_flatMap.mp hx
    obtain ⟨hnode, hpart⟩ := hall item.1 item.2
    split at hx
    · next member hmember =>
      rw [hmember, memberField, fieldOf_obj] at hpart
      simp only [isText_type] at hx
      split at hx
      · next hrest =>
        rw [if_pos hrest] at hpart
        exact ihArgument item member hmember hpart x hx
      · next hrest =>
        rw [if_neg hrest] at hpart
        exact ihValue item member hmember hpart x hx
    · next hno =>
      obtain ⟨member, _, hmember, _⟩ := isNode_iff.mp hnode
      exact (hno member hmember).elim
  | case4 fields hkind hno =>
    have hnull := (R.members (h.resolve_left (by simp)) (isKind_iff.mpr hkind)).eq_null hno
    rw [fieldOf_obj] at hnull
    simp [hnull, strayElements, Value.truthy]
  | case5 fields hkind items hitems ih =>
    have hall := (R.elements (h.resolve_left (by simp)) (isKind_iff.mpr hkind)).forall_mem hitems
    intro x hx
    obtain ⟨item, _, hx⟩ := List.mem_flatMap.mp hx
    exact ih item (hall item.1 item.2) x hx
  | case6 fields hkind hno =>
    have hnull := (R.elements (h.resolve_left (by simp)) (isKind_iff.mpr hkind)).eq_null hno
    rw [fieldOf_obj] at hnull
    simp [hnull, strayElements, Value.truthy]
  | case7 fields hkind ih =>
    exact ih (R.one (h.resolve_left (by simp)) (isKind_iff.mpr hkind) "argument" (by decide))
  | case8 fields hkind ih =>
    exact ih (R.one (h.resolve_left (by simp)) (isKind_iff.mpr hkind) "left" (by decide))
  | case9 => simp
  | case10 v hnull hobj =>
    obtain ⟨fields, _, rfl, _⟩ := isNode_iff.mp (R.isNode (h.resolve_left hnull))
    exact (hobj fields rfl).elim

theorem declaratorDeclarations_text {declarator : Value} (hnode : isNode declarator = true)
    (hid : OrAbsent S (fieldOf declarator "id")) :
    ∀ x ∈ declaratorDeclarations declarator, Declares x := by
  obtain ⟨fields, _, rfl, _⟩ := isNode_iff.mp hnode
  intro x hx
  obtain ⟨name, hname, rfl⟩ := List.mem_map.mp hx
  obtain ⟨n, rfl⟩ := patternNames_text R hid name hname
  exact ⟨⟨.str n, .variable, .obj fields⟩, rfl, n, rfl⟩

theorem namedDeclaration_text {fields : Fields} (binding : BindingKind) (h : S (.obj fields))
    (hkind : isKind (.obj fields) "FunctionDeclaration" = true ∨
      isKind (.obj fields) "ClassDeclaration" = true) :
    ∀ x ∈ namedDeclaration binding fields, Declares x := by
  rcases R.bound h hkind with hnull | ⟨id, n, hid, hn⟩
  · rw [fieldOf_obj] at hnull
    simp [namedDeclaration, hnull]
  · rw [fieldOf_obj] at hid
    intro x hx
    simp only [namedDeclaration, hid, List.mem_singleton] at hx
    exact ⟨_, hx, n, hn⟩

/-- Every declaration of a readable statement is found, with a text for its name. -/
theorem statementDeclarations_text {s : Value} (h : OrAbsent S s) :
    ∀ x ∈ statementDeclarations s, Declares x := by
  fun_induction statementDeclarations s with
  | case1 => simp
  | case2 fields hkind =>
    exact namedDeclaration_text R .function (h.resolve_left (by simp)) (.inl (isKind_iff.mpr hkind))
  | case3 fields hkind =>
    exact namedDeclaration_text R .type (h.resolve_left (by simp)) (.inr (isKind_iff.mpr hkind))
  | case4 fields hkind declarators hitems =>
    have hall := (R.declarators (h.resolve_left (by simp)) (isKind_iff.mpr hkind)).forall_mem hitems
    intro x hx
    obtain ⟨d, hd, hx⟩ := List.mem_flatMap.mp hx
    exact declaratorDeclarations_text R (hall d hd).1 (hall d hd).2.1 x hx
  | case5 fields hkind hno =>
    have hnull := (R.declarators (h.resolve_left (by simp)) (isKind_iff.mpr hkind)).eq_null hno
    rw [fieldOf_obj] at hnull
    simp [hnull, strayElements, Value.truthy]
  | case6 fields hkind ih =>
    exact ih (R.one (h.resolve_left (by simp)) (isKind_iff.mpr hkind) "declaration" (by decide))
  | case7 fields hkind ih =>
    exact ih (R.one (h.resolve_left (by simp)) (isKind_iff.mpr hkind) "declaration" (by decide))
  | case8 => simp
  | case9 v hnull hobj =>
    obtain ⟨fields, _, rfl, _⟩ := isNode_iff.mp (R.isNode (h.resolve_left hnull))
    exact (hobj fields rfl).elim

end Reading

/-! ## Gathering -/

namespace Gathered

/-- All names are texts. -/
def TextKeys (gathered : Gathered) : Prop :=
  ∀ entry ∈ gathered, ∃ n, entry.1 = .str n

theorem of_cons (k n : String) (ds : List Declaration) (rest : Gathered) :
    of ((.str k, ds) :: rest) (.str n) = if k = n then ds else of rest (.str n) := by
  by_cases hk : k = n
  · simp [of, hk]
  · simp [of, hk, beq_false_of_ne hk]

/-- Adding a declaration keeps the names texts. -/
theorem TextKeys.add {gathered : Gathered} {d : Declaration} {m : String}
    (h : gathered.TextKeys) (hd : d.name = .str m) : (gathered.add d).TextKeys := by
  induction gathered with
  | nil =>
    intro entry hentry
    obtain rfl := List.mem_singleton.mp hentry
    exact ⟨m, hd⟩
  | cons entry rest ih =>
    obtain ⟨name, ds⟩ := entry
    have hrest : TextKeys rest := fun other hother => h other (List.mem_cons_of_mem _ hother)
    obtain ⟨k, hk⟩ := h (name, ds) List.mem_cons_self
    unfold Gathered.add
    split
    · intro other hother
      rcases List.mem_cons.mp hother with rfl | hother
      · exact ⟨k, hk⟩
      · exact hrest other hother
    · intro other hother
      rcases List.mem_cons.mp hother with rfl | hother
      · exact ⟨k, hk⟩
      · exact ih hrest other hother

/-- A declaration is added at the end of those of its name, and nowhere else. -/
theorem of_add {gathered : Gathered} {d : Declaration} {m : String} (h : gathered.TextKeys)
    (hd : d.name = .str m) (n : String) :
    (gathered.add d).of (.str n) = gathered.of (.str n) ++ if m = n then [d] else [] := by
  induction gathered with
  | nil =>
    rw [Gathered.add, hd, of_cons]
    rfl
  | cons entry rest ih =>
    obtain ⟨name, ds⟩ := entry
    have hrest : TextKeys rest := fun other hother => h other (List.mem_cons_of_mem _ hother)
    obtain ⟨k, hk⟩ := h (name, ds) List.mem_cons_self
    obtain rfl : name = .str k := hk
    rw [Gathered.add, hd, Value.alike_str, of_cons]
    by_cases hkm : k = m
    · subst hkm
      rw [beq_self_eq_true, if_pos rfl, of_cons]
      by_cases hkn : k = n
      · simp [hkn]
      · simp [hkn]
    · rw [beq_false_of_ne hkm, if_neg Bool.false_ne_true, of_cons, ih hrest]
      by_cases hkn : k = n
      · have hmn : m ≠ n := fun hmn => hkm (hkn.trans hmn.symm)
        simp [hkn, hmn]
      · simp [hkn]

end Gathered

/-- Gathering declarations one after another appends each to those of its name. -/
theorem foldlM_add {ds : List Declaration} (hds : ∀ d ∈ ds, ∃ n, d.name = .str n)
    {gathered : Gathered} (h : gathered.TextKeys) :
    ∃ result : Gathered,
      (ds.map Except.ok).foldlM (fun (gathered : Gathered) declaration => do
        let d : Declaration ← declaration
        let _ ← d.name.key
        return gathered.add d) gathered = (.ok result : Except Fault Gathered) ∧
      ∀ n, result.of (.str n) = gathered.of (.str n) ++ ds.filter fun d => d.name.isText n := by
  induction ds generalizing gathered with
  | nil => exact ⟨gathered, rfl, by simp⟩
  | cons d rest ih =>
    obtain ⟨m, hm⟩ := hds d List.mem_cons_self
    obtain ⟨result, hresult, hof⟩ :=
      ih (fun other hother => hds other (List.mem_cons_of_mem _ hother)) (h.add hm)
    refine ⟨result, ?_, fun n => ?_⟩
    · rw [List.map_cons, List.foldlM_cons, ← hresult]
      simp [hm, Value.key, Value.isKey]
    · rw [hof n, Gathered.of_add h hm, List.filter_cons, hm]
      by_cases hmn : m = n
      · simp [hmn, Value.isText]
      · simp [hmn, Value.isText, beq_false_of_ne hmn]

/-! ## Programs -/

/-- The name is declared at the top level of the program, as a binding of the given kind. -/
def DeclaredAs (program : Value) (name : String) (kind : BindingKind) : Prop :=
  ∃ d : Declaration, .ok d ∈ programDeclarations program ∧ d.name = .str name ∧ d.kind = kind

/-- The declarations of a program with readable statements are found, and looking up a name among
them gives what is declared under it. -/
theorem declarations_eq {S : Value → Prop} (R : ExportReading S) {fields : Fields}
    {statements : List Value} (hbody : Fields.get fields "body" = .arr statements)
    (h : ∀ s ∈ statements, S s) :
    ∃ gathered : Gathered, declarations (.obj fields) = .ok gathered ∧
      ∀ name kind, (gathered.of (.str name)).any (fun d => d.kind == kind) = true ↔
        DeclaredAs (.obj fields) name kind := by
  have hall : ∀ x ∈ programDeclarations (.obj fields), Declares x := by
    rw [programDeclarations, hbody]
    intro x hx
    obtain ⟨s, hs, hx⟩ := List.mem_flatMap.mp hx
    exact statementDeclarations_text R (.inr (h s hs)) x hx
  obtain ⟨ds, hds, hnames⟩ := exists_eq_map_ok hall
  obtain ⟨gathered, hgathered, hof⟩ := foldlM_add hnames
    (show Gathered.TextKeys [] from fun entry hentry => by cases hentry)
  refine ⟨gathered, ?_, fun name kind => ?_⟩
  · rw [declarations, hds]
    exact hgathered
  · rw [hof name, DeclaredAs, hds]
    simp only [List.any_eq_true, beq_iff_eq]
    constructor
    · rintro ⟨d, hd, hkind⟩
      have hd := List.mem_filter.mp ((List.mem_append.mp hd).resolve_left (by simp [Gathered.of]))
      exact ⟨d, List.mem_map_of_mem hd.1, isText_iff.mp hd.2, hkind⟩
    · rintro ⟨d, hd, hname, hkind⟩
      obtain ⟨d', hd', heq⟩ := List.mem_map.mp hd
      cases heq
      refine ⟨d, List.mem_append_right _ (List.mem_filter.mpr ⟨hd', ?_⟩), hkind⟩
      rw [hname]
      exact isText_iff.mpr rfl

end TreeLint.Usage

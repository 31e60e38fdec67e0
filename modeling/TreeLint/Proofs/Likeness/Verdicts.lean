/-
  Verdicts on programs that look the same.

  Whether a name is used outside a statement has the same answer in programs that a likeness relates,
  worked out or kept.  The rule about exports therefore reports the same on both.
-/
import TreeLint.Proofs.ExportShape
import TreeLint.Proofs.Likeness.Declarations
import TreeLint.Proofs.Likeness.Occurrences
import TreeLint.Proofs.Likeness.Tests
import TreeLint.Proofs.Uses
import TreeLint.Rule.Export

set_option autoImplicit false

namespace TreeLint

open TreeLint.Json TreeLint.Syntax TreeLint.Usage

/-! ## Tables -/

namespace Renaming

variable (ρ : Renaming)

/-- The table of bindings with its names renamed. -/
def table : Value → Value
  | .obj fields => .obj (fields.map fun field => (ρ.apply field.1, field.2))
  | v => v

theorem identity_table (v : Value) : identity.table v = v := by
  cases v with
  | obj fields => exact congrArg Value.obj (List.map_id fields)
  | _ => rfl

/-- What a table holds for a name, the renamed table holds for the new name. -/
theorem find?_table (fields : Fields) (n : Value) :
    (Table.ofFields (fields.map fun field => (ρ.apply field.1, field.2))).find? (ρ.name n) =
      (Table.ofFields fields).find? n := by
  unfold Table.find? Table.ofFields
  rw [List.map_map]
  induction fields with
  | nil => rfl
  | cons field rest ih =>
    have hhere := ρ.alike_name (.str field.1) n
    simp only [List.map_cons, List.find?_cons, Function.comp_apply]
    change (Value.str (ρ.apply field.1)).alike (ρ.name n) = _ at hhere
    rw [hhere]
    cases (Value.str field.1).alike n with
    | true => rfl
    | false => exact ih

end Renaming

namespace Usage

/-! ## Uses -/

/-- Like spans lie inside the same spans: an end that is an object cannot be compared. -/
theorem inside_eq_of_like {s t : Span} (h : LikeSpans s t) (outer : Span) :
    s.inside outer = t.inside outer := by
  obtain ⟨hstart, hstop⟩ := h
  have hobject : ∀ {v : Value}, v.isObject = true → ∀ a,
      Value.precedes true a v = .error .unsuited ∧ Value.precedes true v a = .error .unsuited := by
    intro v hv a
    cases v with
    | obj fields => cases a <;> simp [Value.precedes, Value.number?]
    | _ => cases hv
  unfold Span.inside
  have hleft : Value.precedes true outer.start s.start = Value.precedes true outer.start t.start := by
    rcases hstart with heq | ⟨hs, ht⟩
    · rw [heq]
    · rw [(hobject hs _).1, (hobject ht _).1]
  have hright : Value.precedes true s.stop outer.stop = Value.precedes true t.stop outer.stop := by
    rcases hstop with heq | ⟨hs, ht⟩
    · rw [heq]
    · rw [(hobject hs _).2, (hobject ht _).2]
  rw [hleft, hright]

/-- Like uses lie outside the same spans. -/
theorem anyOutside_eq (excluded : List Span) {xs ys : List (Except Fault (Option Span))}
    (h : List.Forall₂ (Both (Option.Rel LikeSpans)) xs ys) :
    anyOutside excluded xs = anyOutside excluded ys := by
  induction h with
  | nil => rfl
  | cons hhere _ ih =>
    cases hhere with
    | error fault => rfl
    | ok related =>
      cases related with
      | none => rfl
      | some hspans => simp only [anyOutside, inside_eq_of_like hspans, ih]

/-- The strategies list like uses for corresponding names. -/
def LikeStrategies (ρ : Renaming) (s t : Strategy) : Prop :=
  ∀ n : Value, n.isKey = true →
    List.Forall₂ (Both (Option.Rel LikeSpans)) (s.useSpans n) (t.useSpans (ρ.name n))

/-- The question about the new name. -/
def Question.renamed (ρ : Renaming) (q : Question) : Question :=
  ⟨ρ.name q.name, q.excluded⟩

theorem Question.alike_renamed (ρ : Renaming) (q r : Question) :
    (q.renamed ρ).alike (r.renamed ρ) = q.alike r := by
  unfold Question.alike Question.renamed
  rw [ρ.alike_name]

/-- A question about a new name is the renamed question. -/
theorem Question.of_renamed (ρ : Renaming) (n : Value) {v w : Value} (h : span v = span w) :
    Question.of (ρ.name n) [w] = (Question.of n [v]).map (Question.renamed ρ) := by
  have hspans : excludedSpans [w] = excludedSpans [v] := by
    simp only [excludedSpans, List.mapM_cons, h]
  unfold Question.of
  rw [hspans, ρ.isKey_name]
  cases excludedSpans [v] with
  | error fault => rfl
  | ok spans =>
    rw [ok_bind, ok_bind]
    split <;> rfl

/-- A question that can be put is about a key. -/
theorem Question.isKey_of {n : Value} {nodes : List Value} {q : Question}
    (h : Question.of n nodes = .ok q) : q.name.isKey = true := by
  obtain ⟨spans, _, hq⟩ := bind_eq_ok_iff.mp h
  split at hq
  · next hkey =>
    cases hq
    exact (Bool.and_eq_true_iff.mp hkey).1
  · cases hq

/-- The resolvers list like uses, and have kept the same answers. -/
def LikeResolvers (ρ : Renaming) (r s : Resolver) : Prop :=
  LikeStrategies ρ r.strategy s.strategy ∧
    s.memo = r.memo.map fun kept => (kept.1.renamed ρ, kept.2)

namespace LikeResolvers

variable {ρ : Renaming} {r s : Resolver}

theorem kept?_eq (h : LikeResolvers ρ r s) (q : Question) :
    s.kept? (q.renamed ρ) = r.kept? q := by
  unfold Resolver.kept?
  rw [h.2, List.find?_map, Option.map_map]
  simp only [Function.comp_def, Question.alike_renamed]

/-- Corresponding questions get the same answer. -/
theorem ask_eq (h : LikeResolvers ρ r s) (n : Value) {v w : Value} (hspan : span v = span w) :
    (r.ask n [v]).1 = (s.ask (ρ.name n) [w]).1 ∧
      LikeResolvers ρ (r.ask n [v]).2 (s.ask (ρ.name n) [w]).2 := by
  unfold Resolver.ask
  rw [Question.of_renamed ρ n hspan]
  cases hq : Question.of n [v] with
  | error fault => exact ⟨rfl, h⟩
  | ok q =>
    simp only [Except.map, h.kept?_eq]
    cases r.kept? q with
    | some answer => exact ⟨rfl, h⟩
    | none =>
      have hanswer : (q.renamed ρ).answer s.strategy = q.answer r.strategy :=
        (anyOutside_eq q.excluded (h.1 q.name (Question.isKey_of hq))).symm
      simp only [hanswer]
      cases q.answer r.strategy with
      | error fault => exact ⟨rfl, h⟩
      | ok answer => exact ⟨rfl, h.1, by simp [h.2]⟩

end LikeResolvers

end Usage

namespace Rule

/-- Nodes in the same place are reported alike, whatever the bindings are. -/
theorem report_eq_of_place {v w : Value} (hlocation : Source.ownLocation? v = Source.ownLocation? w)
    (hspan : span v = span w) (context : Context) (bindings : Value) (id : String) :
    Context.report { context with bindings := bindings } w id = context.report v id := by
  unfold Context.report Source.locationOf
  rw [hlocation, hspan]

/-- Related rows, with the same flags put beside them. -/
theorem forall₂_zip_flags {R : Value → Value → Prop} {vs ws : List Value}
    (h : List.Forall₂ R vs ws) (flags : List Bool) :
    List.Forall₂ (fun x y => R x.1 y.1 ∧ x.2 = y.2) (vs.zip flags) (ws.zip flags) := by
  induction h generalizing flags with
  | nil => exact .nil
  | cons hhere _ ih =>
    cases flags with
    | nil => exact .nil
    | cons flag flags => exact .cons ⟨hhere, rfl⟩ (ih flags)

/-! ## Reported statements are exports -/

theorem exportStatement_of_isExport {v : Value} (h : isExport v = .ok true) :
    ExportStatement v := by
  cases v with
  | obj fields =>
    have hkinds : (Fields.get fields "type").isOneOf exportKinds = .ok true := h
    cases htype : Fields.get fields "type" with
    | str kind =>
      rw [htype, Value.isOneOf, Except.ok.injEq] at hkinds
      simp only [ExportStatement, isKind_obj_iff, htype, Value.str.injEq]
      simpa [exportKinds] using hkinds
    | _ =>
      rw [htype] at hkinds
      cases hkinds
  | _ => cases h

theorem exportStatement_of_listsLocalValues {v : Value} (h : listsLocalValues v = .ok true) :
    ExportStatement v := by
  obtain ⟨lists, hlists, h⟩ := bind_eq_ok_iff.mp h
  cases lists with
  | false => cases h
  | true =>
    cases v with
    | obj fields =>
      have hall := Except.ok.inj hlists
      simp only [Bool.and_eq_true] at hall
      exact .inr (.inr hall.1.1.1)
    | _ => cases hlists

theorem exportStatement_of_exportsAlias {v : Value} (h : exportsAlias v = .ok true) :
    ExportStatement v := by
  obtain ⟨held, hheld, h⟩ := bind_eq_ok_iff.mp h
  cases held with
  | none => cases h
  | some declaration =>
    cases v with
    | obj fields =>
      by_cases hkind : isKind (.obj fields) "ExportNamedDeclaration" = true
      · exact .inr (.inr hkind)
      · simp [exportedVariables, fieldsOf?, isText_type, hkind] at hheld
    | _ => cases hheld

theorem exportStatement_of_isMisplaced {v : Value} {allowReExport reported : Bool}
    (h : isMisplaced allowReExport v reported = .ok true) : ExportStatement v := by
  obtain ⟨exported, hexported, h⟩ := bind_eq_ok_iff.mp h
  cases exported with
  | false => cases h
  | true => exact exportStatement_of_isExport hexported

theorem exportStatement_of_exportsBareName {v : Value} {declared : Gathered} {r s : Resolver}
    (h : exportsBareName declared v r = .ok (true, s)) : ExportStatement v := by
  obtain ⟨name, hname, h⟩ := bind_eq_ok_iff.mp h
  rcases defaultName_eq_ok hname with rfl | ⟨hkind, _⟩
  · cases h
  · exact .inr (.inl hkind)

/-! ## Used variables -/

/-- Corresponding names are both used variables or neither. -/
theorem isUsedVariable_like {ρ : Renaming} {R : Value → Value → Prop} {v w : Value} {a b : Gathered}
    (hdeclared : LikeGathered ρ a b) {m n : Value} (hname : LikeName ρ R m n)
    (hspan : span v = span w) {r s : Resolver} (hresolver : LikeResolvers ρ r s) :
    Both (fun x y => x.1 = y.1 ∧ LikeResolvers ρ x.2 y.2) (isUsedVariable a m v r)
      (isUsedVariable b n w s) := by
  unfold isUsedVariable
  rcases hname.key_cases with ⟨hkey, rfl⟩ | ⟨hm, hn⟩
  · simp only [Value.key, ρ.isKey_name, hkey, if_true, ok_bind,
      hdeclared.any_eq m fun kind => kind == .function || kind == .type,
      hdeclared.any_eq m fun kind => kind == .variable]
    split
    · exact .ok ⟨rfl, hresolver⟩
    · split
      · obtain ⟨hanswer, hkept⟩ := hresolver.ask_eq m hspan
        rw [hanswer]
        refine Both.bind (Both.of_eq rfl) fun x y hxy => ?_
        exact .ok ⟨hxy, hkept⟩
      · exact .ok ⟨rfl, hresolver⟩
  · simp only [Value.key, hm, hn]
    exact .error _

end Rule

namespace Syntax.Likeness

open TreeLint.Rule

variable {ρ : Renaming} {R : Value → Value → Prop} (L : Likeness ρ R) {v w : Value}

include L

/-- The uses in related programs, or in a table and the renamed table, are alike. -/
theorem choose_like (h : R v w) (bindings : Value) :
    LikeStrategies ρ (Strategy.choose v bindings) (Strategy.choose w (ρ.table bindings)) := by
  intro n hn
  have hsame : ∀ row : List (Except Fault (Option Span)),
      List.Forall₂ (Both (Option.Rel LikeSpans)) row row := by
    intro row
    rw [List.forall₂_same]
    intro x _
    cases x with
    | error fault => exact .error fault
    | ok use =>
      cases use with
      | none => exact .ok .none
      | some s => exact .ok (.some ⟨.inl rfl, .inl rfl⟩)
  cases bindings with
  | null =>
    refine List.rel_filterMap ?_ (L.occurrences_like h hn)
    intro x y hxy
    cases hxy with
    | error fault => exact .some (.error fault)
    | @ok o p related =>
      obtain ⟨hrole, _, hspan⟩ := related
      simp only [Strategy.useSpan?, hrole]
      split
      · exact .some hspan
      · exact .none
  | obj fields =>
    have heq : (Strategy.choose w (ρ.table (.obj fields))).useSpans (ρ.name n) =
        (Strategy.choose v (.obj fields)).useSpans n := by
      simp only [Renaming.table, Strategy.choose, Strategy.useSpans, ρ.isKey_name, ρ.find?_table]
    rw [heq]
    exact hsame _
  | _ => exact hsame _

/-- Related statements both export a bare name by default, or neither does. -/
theorem exportsBareName_like (h : R v w) {a b : Gathered} (hdeclared : LikeGathered ρ a b)
    {r s : Resolver} (hresolver : LikeResolvers ρ r s) :
    Both (fun x y => x.1 = y.1 ∧ LikeResolvers ρ x.2 y.2) (exportsBareName a v r)
      (exportsBareName b w s) := by
  have hnames := L.defaultName_like h
  unfold exportsBareName
  generalize hv : defaultName v = x at hnames ⊢
  generalize defaultName w = y at hnames ⊢
  cases hnames with
  | error fault => exact .error fault
  | @ok m n hname =>
    rw [ok_bind, ok_bind, hname.isNull_eq]
    split
    · exact .ok ⟨rfl, hresolver⟩
    · next hnull =>
      have hkind : isKind v "ExportDefaultDeclaration" = true := by
        rcases defaultName_eq_ok hv with rfl | ⟨hkind, _⟩
        · exact absurd hname.isNull_eq.symm hnull
        · exact hkind
      have hspan := (L.place h (.inr (.inl hkind))).2
      refine (isUsedVariable_like hdeclared hname hspan hresolver).bind fun x y hxy => ?_
      exact .ok ⟨by rw [hxy.1], hxy.2⟩

/-- Related exports are reported alike, whatever the bindings are. -/
theorem report_eq (h : R v w) (hkind : ExportStatement v) (context : Context)
    (bindings : Value) (id : String) :
    Context.report { context with bindings := bindings } w id = context.report v id := by
  obtain ⟨hlocation, hspan⟩ := L.place h hkind
  exact report_eq_of_place hlocation hspan context bindings id

/-- What passes a test on exports is reported alike in both rows. -/
theorem reportWhere_eq {test : Value → Except Fault Bool} (htest : ∀ v w, R v w → test v = test w)
    (hexport : ∀ v, test v = .ok true → ExportStatement v) (context : Context)
    (bindings : Value) (id : String) {vs ws : List Value} (h : List.Forall₂ R vs ws) :
    Context.reportWhere { context with bindings := bindings } id test ws =
      context.reportWhere id test vs := by
  symm
  refine mapM_eq_of_forall₂ h fun v w hvw => ?_
  rw [← htest v w hvw]
  cases hpass : test v with
  | error fault => rfl
  | ok pass =>
    cases pass with
    | false => rfl
    | true => simp only [ok_bind, if_true, L.report_eq hvw (hexport v hpass) context bindings id]

/-- Default exports of bare names are reported alike in both rows. -/
theorem reportBareNames_eq (context : Context) (bindings : Value) {a b : Gathered}
    (hdeclared : LikeGathered ρ a b) {r s : Resolver} (hresolver : LikeResolvers ρ r s)
    {vs ws : List Value} (h : List.Forall₂ R vs ws) :
    reportBareNames { context with bindings := bindings } b s ws =
      reportBareNames context a r vs := by
  induction h generalizing r s with
  | nil => rfl
  | @cons v w vs ws hhere _ ih =>
    unfold reportBareNames
    have hbare := L.exportsBareName_like hhere hdeclared hresolver
    generalize hv : exportsBareName a v r = x at hbare ⊢
    generalize exportsBareName b w s = y at hbare ⊢
    cases hbare with
    | error fault => rfl
    | @ok x y related =>
      obtain ⟨bare, r'⟩ := x
      obtain ⟨bare', s'⟩ := y
      obtain ⟨rfl, hresolver⟩ := related
      have hrest := ih hresolver
      cases bare with
      | false =>
        simp only [ok_bind, hrest]
        rfl
      | true =>
        have hkind := exportStatement_of_exportsBareName hv
        simp only [ok_bind, if_true, L.report_eq hhere hkind context bindings, hrest]

/-- Exports that stand too early are reported alike in both rows. -/
theorem reportMisplaced_eq (context : Context) (bindings : Value) (allowReExport : Bool)
    {xs ys : List (Value × Bool)} (h : List.Forall₂ (fun x y => R x.1 y.1 ∧ x.2 = y.2) xs ys) :
    reportMisplaced { context with bindings := bindings } allowReExport ys =
      reportMisplaced context allowReExport xs := by
  induction h with
  | nil => rfl
  | @cons x y xs ys hhere _ ih =>
    obtain ⟨v, reported⟩ := x
    obtain ⟨w, _⟩ := y
    obtain ⟨hvw, heq⟩ := hhere
    obtain rfl : reported = _ := heq
    have hmisplaced : isMisplaced allowReExport w reported = isMisplaced allowReExport v reported := by
      unfold isMisplaced
      rw [L.isExport_eq hvw, L.isExempt_eq hvw]
    unfold reportMisplaced
    rw [hmisplaced, ih]
    cases hv : isMisplaced allowReExport v reported with
    | error fault => rfl
    | ok misplaced =>
      cases misplaced with
      | false => rfl
      | true =>
        have hkind := exportStatement_of_isMisplaced hv
        simp only [ok_bind, if_true, L.report_eq hvw hkind context bindings]

theorem beforeLastOther_eq {vs ws : List Value} (h : List.Forall₂ R vs ws) :
    beforeLastOther vs = beforeLastOther ws := by
  induction h with
  | nil => rfl
  | cons hhere hrest ih =>
    unfold beforeLastOther
    rw [L.isExport_eq hhere, ih, hrest.length_eq]

theorem listsLocalValues_eq (h : R v w) : listsLocalValues v = listsLocalValues w := by
  unfold listsLocalValues
  rw [L.listsLocalNames_eq h, L.exportsOnlyTypes_eq h]

/-- The rule about exports reports the same on related programs, with a table of bindings or without
one. -/
theorem checkExports_eq (h : R v w) (context : Context) :
    checkExports { context with bindings := ρ.table context.bindings } w =
      checkExports context v := by
  symm
  unfold checkExports
  refine (L.get_like h "body" (by decide)).bind_eq fun a b hbody => ?_
  have hform := (L.form hbody).orEmpty
  dsimp only
  rw [hform.truthy_eq]
  split
  · rfl
  · refine hform.elements.bind_eq fun vs ws hrows => ?_
    cases hrows with
    | texts => rfl
    | items hitems =>
      have hlists := L.reportWhere_eq (fun _ _ => L.listsLocalValues_eq)
        (fun _ => exportStatement_of_listsLocalValues) context (ρ.table context.bindings)
        "noExportSpecifiers" hitems
      have haliases := L.reportWhere_eq (fun _ _ => L.exportsAlias_eq)
        (fun _ => exportStatement_of_exportsAlias) context (ρ.table context.bindings)
        "noExportAlias" hitems
      have hresolver : LikeResolvers ρ (Resolver.ofStrategy (.choose v context.bindings))
          (Resolver.ofStrategy (.choose w (ρ.table context.bindings))) :=
        ⟨L.choose_like h context.bindings, rfl⟩
      rw [hlists, haliases]
      congr 1
      funext lists
      congr 1
      funext aliases
      refine (L.declarations_like h).bind_eq fun declared declared' hdeclared => ?_
      rw [L.reportBareNames_eq context _ hdeclared hresolver hitems]
      congr 1
      funext names
      rw [L.beforeLastOther_eq (List.forall₂_reverse_iff.mpr hitems)]
      congr 1
      funext count
      cases count with
      | none => rfl
      | some count =>
        dsimp only
        rw [L.reportMisplaced_eq context _ _ (List.forall₂_take count (forall₂_zip_flags hitems _))]

end Syntax.Likeness

end TreeLint

/-
  Tests on programs that look the same.

  Every test of an expression or of an export has the same outcome on values that a likeness relates,
  faults included.
-/
import TreeLint.Proofs.Likeness.Basic

set_option autoImplicit false

namespace TreeLint.Syntax

open TreeLint.Json TreeLint.Usage

/-! ## Layers -/

/-- An object is opened when its kind is one of the layers. -/
theorem unwrap_obj (layers : Layers) (fields : Fields) :
    unwrap layers (.obj fields) = (Fields.get fields "type").key >>= fun kind =>
      (kind.text?.bind fun kind => layers.lookup kind).elim (.ok (.obj fields)) fun field =>
        unwrap layers (Fields.get fields field) := by
  rw [unwrap]
  cases Fields.get fields "type" with
  | str kind =>
    simp only [Value.key, Value.isKey, if_true, ok_bind, Value.text?, Option.bind_some]
    cases layers.lookup kind <;> rfl
  | _ => rfl

namespace Resemblance

variable {free : String → Prop} {R : Value → Value → Prop} (S : Resemblance free R) {v w : Value}

include S

theorem isIdentifier_eq (h : R v w) : isIdentifier v = isIdentifier w := by
  cases S.form h with
  | plain => rfl
  | arr => rfl
  | obj => exact congrArg Except.ok ((S.formOf h "type" S.kind).isText_eq "Identifier")

/-- Taking off layers leaves related values. -/
theorem unwrap_like {layers : Layers} (hlayers : ∀ row ∈ layers, free row.2) (h : R v w) :
    Both R (unwrap layers v) (unwrap layers w) := by
  induction hsize : sizeOf v using Nat.strongRecOn generalizing v w with
  | ind size ih =>
    cases S.form h with
    | @plain v hplain =>
      cases v with
      | null => simpa [unwrap] using Both.ok h
      | obj => cases hplain
      | _ => simpa [unwrap] using Both.error _
    | arr => simpa [unwrap] using Both.error _
    | @obj fs gs =>
      rw [unwrap_obj, unwrap_obj]
      refine (S.formOf h "type" S.kind).key.bind fun a b hab => ?_
      rw [hab.text?_eq]
      cases hfield : b.text?.bind fun kind => layers.lookup kind with
      | none => exact .ok h
      | some field =>
        obtain ⟨kind, _, hrow⟩ := Option.bind_eq_some_iff.mp hfield
        obtain ⟨front, back, rfl, _⟩ := List.lookup_eq_some_iff.mp hrow
        have hfree := hlayers (kind, field) (by simp)
        exact ih _ (hsize ▸ sizeOf_get_lt fs field) (S.field h field hfree) rfl

end Resemblance

namespace Likeness

variable {ρ : Renaming} {R : Value → Value → Prop} (L : Likeness ρ R) {v w : Value} {fs gs : Fields}

include L

/-! ## Tests of expressions -/

theorem isIdentifier_eq (h : R v w) : isIdentifier v = isIdentifier w :=
  L.resembles.isIdentifier_eq h

theorem isNumericLiteral_eq (h : R v w) : isNumericLiteral v = isNumericLiteral w := by
  cases L.form h with
  | plain => rfl
  | arr => rfl
  | obj =>
    have hnumber : ∀ {a b : Value}, SameForm R a b → isNumber a = isNumber b := by
      intro a b hform
      cases hform <;> rfl
    simp only [isNumericLiteral, (L.formOf h "type" (by decide)).isText_eq,
      hnumber (L.formOf h "value" (by decide)),
      (L.formOf h "bigint" (by decide)).isNull_eq]

theorem isBooleanLiteral_eq (h : R v w) : isBooleanLiteral v = isBooleanLiteral w := by
  cases L.form h with
  | plain => rfl
  | arr => rfl
  | obj =>
    have htruth : ∀ {a b : Value}, SameForm R a b → isTruthValue a = isTruthValue b := by
      intro a b hform
      cases hform <;> rfl
    simp only [isBooleanLiteral, (L.formOf h "type" (by decide)).isText_eq,
      htruth (L.formOf h "value" (by decide))]

theorem isPlainLiteral_eq (h : R (.obj fs) (.obj gs)) : isPlainLiteral fs = isPlainLiteral gs := by
  unfold isPlainLiteral
  rw [(L.formOf h "regex" (by decide)).isNull_eq]
  have hvalue := L.formOf h "value" (by decide)
  generalize Fields.get fs "value" = a at hvalue ⊢
  generalize Fields.get gs "value" = b at hvalue ⊢
  cases hvalue <;> rfl

theorem unwrap_like {layers : Layers} (hlayers : ∀ row ∈ layers, row.2 ∉ typeFields ∧ row.2 ≠ "name")
    (h : R v w) : Both R (unwrap layers v) (unwrap layers w) :=
  L.resembles.unwrap_like hlayers h

theorem isAlias_eq (h : R v w) : isAlias v = isAlias w := by
  refine (L.unwrap_like (by decide) h).bind_eq fun a b hab => ?_
  cases L.form hab with
  | plain => rfl
  | arr => rfl
  | obj => simp only [(L.formOf hab "type" (by decide)).isText_eq]

theorem isConstant_eq (h : R v w) : isConstant v = isConstant w := by
  refine (L.unwrap_like (by decide) h).bind_eq fun a b hab => ?_
  cases L.form hab with
  | plain => rfl
  | arr => rfl
  | obj =>
    have hargument := L.field hab "argument" (by decide) (by decide)
    simp only [(L.formOf hab "type" (by decide)).isText_eq,
      (L.formOf hab "expressions" (by decide)).truthy_eq,
      L.isPlainLiteral_eq hab, (L.formOf hab "operator" (by decide)).isOneOf_eq,
      (L.formOf hab "operator" (by decide)).isText_eq, L.isNumericLiteral_eq hargument,
      L.isBooleanLiteral_eq hargument]

/-! ## Tests of exports -/

theorem isExport_eq (h : R v w) : isExport v = isExport w := by
  refine (L.fieldsOf?_like h).bind_eq fun a b hab => ?_
  cases hab with
  | none => rfl
  | some hab => exact (L.formOf hab "type" (by decide)).isOneOf_eq exportKinds

theorem exportsOnlyTypes_eq (h : R v w) : exportsOnlyTypes v = exportsOnlyTypes w := by
  refine (L.fieldsOf?_like h).bind_eq fun a b hab => ?_
  cases hab with
  | none => rfl
  | @some fs gs hab =>
    have hspecifiers : ((Fields.get fs "specifiers").elements >>= fun row =>
        row.allM fun specifier => do return (← specifier.get "exportKind").isText "type") =
        ((Fields.get gs "specifiers").elements >>= fun row =>
          row.allM fun specifier => do return (← specifier.get "exportKind").isText "type") := by
      refine (L.formOf hab "specifiers" (by decide)).elements.bind_eq fun xs ys hrows => ?_
      refine hrows.allM_eq (fun a b hab => ?_) fun s => rfl
      refine (L.get_like hab "exportKind" (by decide)).bind_eq fun a b hab => ?_
      rw [(L.form hab).isText_eq]
    simp only [(L.formOf hab "type" (by decide)).isText_eq,
      (L.formOf hab "exportKind" (by decide)).isText_eq,
      (L.formOf hab "specifiers" (by decide)).truthy_eq, hspecifiers]

theorem listsLocalNames_eq (h : R v w) : listsLocalNames v = listsLocalNames w := by
  refine (L.fieldsOf?_like h).bind_eq fun a b hab => ?_
  cases hab with
  | none => rfl
  | some hab =>
    simp only [(L.formOf hab "type" (by decide)).isText_eq,
      (L.formOf hab "declaration" (by decide)).isNull_eq,
      (L.formOf hab "source" (by decide)).isNull_eq, (L.formOf hab "specifiers" (by decide)).truthy_eq]

/-- Related exports hold related variable declarations. -/
theorem exportedVariables_like (h : R v w) :
    Both (Option.Rel fun fs gs => R (.obj fs) (.obj gs)) (exportedVariables v)
      (exportedVariables w) := by
  refine (L.fieldsOf?_like h).bind fun a b hab => ?_
  cases hab with
  | none => exact .ok .none
  | some hab =>
    dsimp only
    rw [(L.formOf hab "type" (by decide)).isText_eq]
    split
    · exact .ok .none
    · refine (L.fieldsOf?_like (L.field hab "declaration" (by decide) (by decide))).bind fun a b hab => ?_
      cases hab with
      | none => exact .ok .none
      | some hab =>
        dsimp only
        rw [(L.formOf hab "type" (by decide)).isText_eq]
        split
        · exact .ok (.some hab)
        · exact .ok .none

theorem exportsAlias_eq (h : R v w) : exportsAlias v = exportsAlias w := by
  refine (L.exportedVariables_like h).bind_eq fun a b hab => ?_
  cases hab with
  | none => rfl
  | some hab =>
    refine (L.formOf hab "declarations" (by decide)).orEmpty.elements.bind_eq fun xs ys hrows => ?_
    refine hrows.anyM_eq (fun a b hab => ?_) fun s => rfl
    exact (L.get_like hab "init" (by decide)).bind_eq fun a b hab => L.isAlias_eq hab

theorem exportsConstants_eq (h : R v w) : exportsConstants v = exportsConstants w := by
  refine (L.fieldsOf?_like h).bind_eq fun a b hab => ?_
  cases hab with
  | none => rfl
  | some hab =>
    dsimp only
    rw [(L.formOf hab "source" (by decide)).isNull_eq]
    congr 1
    refine (L.exportedVariables_like h).bind_eq fun a b hab => ?_
    cases hab with
    | none => rfl
    | some hab =>
      dsimp only
      rw [(L.formOf hab "kind" (by decide)).isText_eq,
        (L.formOf hab "declarations" (by decide)).truthy_eq]
      congr 2
      refine (L.formOf hab "declarations" (by decide)).elements.bind_eq fun xs ys hrows => ?_
      refine hrows.allM_eq (fun a b hab => ?_) fun s => rfl
      refine (L.get_like hab "id" (by decide)).bind_eq fun c d hid => ?_
      rw [L.isIdentifier_eq hid]
      congr 1
      funext yes
      split
      · exact (L.get_like hab "init" (by decide)).bind_eq fun c d hinit => L.isConstant_eq hinit
      · rfl

theorem isReExport_eq (h : R v w) : isReExport v = isReExport w := by
  refine (L.fieldsOf?_like h).bind_eq fun a b hab => ?_
  cases hab with
  | none => rfl
  | some hab =>
    simp only [(L.formOf hab "type" (by decide)).isText_eq,
      (L.formOf hab "source" (by decide)).isNull_eq]

theorem isExempt_eq (h : R v w) (allowReExport : Bool) :
    isExempt allowReExport v = isExempt allowReExport w := by
  unfold isExempt
  rw [L.exportsOnlyTypes_eq h, L.exportsConstants_eq h, L.isReExport_eq h]

/-- The names of related identifiers correspond. -/
theorem named_identifier (h : R (.obj fs) (.obj gs)) (hv : isIdentifier (.obj fs) = .ok true) :
    Option.Rel (LikeName ρ R) (fs.lookup "name") (gs.lookup "name") := by
  refine L.named h ?_
  rw [isName, isKind, Except.ok.inj hv, Bool.true_or]

/-- Related statements export corresponding names by default. -/
theorem defaultName_like (h : R v w) : Both (LikeName ρ R) (defaultName v) (defaultName w) := by
  refine (L.fieldsOf?_like h).bind fun a b hab => ?_
  cases hab with
  | none => exact .ok .null
  | some hab =>
    dsimp only
    rw [(L.formOf hab "type" (by decide)).isText_eq]
    split
    · exact .ok .null
    · have hdeclaration := L.field hab "declaration" (by decide) (by decide)
      rw [← L.isIdentifier_eq hdeclaration]
      cases hidentifier : isIdentifier (Fields.get _ "declaration") with
      | error fault => exact .error fault
      | ok yes =>
        cases yes with
        | false => exact .ok .null
        | true => exact L.resembles.require_name_like L.named_identifier hdeclaration hidentifier

end Likeness

end TreeLint.Syntax

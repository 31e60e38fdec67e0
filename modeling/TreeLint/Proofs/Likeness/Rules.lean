/-
  The rules on values that look the same.

  The rules about functions and single statements read kinds, forms and the names of identifiers, and
  they report the place of a node as they find it.  On values that are related in what these rules
  read, they therefore report alike: the same messages in the same order, at related places, or the
  same fault.
-/
import TreeLint.Proofs.Independence
import TreeLint.Proofs.Likeness.Tests
import TreeLint.Proofs.Tree

set_option autoImplicit false

namespace TreeLint

open TreeLint.Json TreeLint.Syntax TreeLint.Source TreeLint.Rule

/-! ## Outcomes of rows -/

/-- Steps that end alike on related elements end alike over related rows. -/
theorem Both.mapM {α β γ δ : Type} {P : α → β → Prop} {Q : γ → δ → Prop}
    {f : α → Except Fault γ} {g : β → Except Fault δ} {xs : List α} {ys : List β}
    (h : List.Forall₂ P xs ys) (hstep : ∀ a b, P a b → Both Q (f a) (g b)) :
    Both (List.Forall₂ Q) (xs.mapM f) (ys.mapM g) := by
  induction h with
  | nil => exact .ok .nil
  | cons hhere _ ih =>
    rw [List.mapM_cons, List.mapM_cons]
    refine (hstep _ _ hhere).bind fun a b hab => ?_
    exact ih.bind fun as bs hrest => .ok (.cons hab hrest)

theorem forall₂_getElem? {α β : Type} {R : α → β → Prop} {xs : List α} {ys : List β}
    (h : List.Forall₂ R xs ys) (i : Nat) : Option.Rel R xs[i]? ys[i]? := by
  induction h generalizing i with
  | nil => exact .none
  | cons hhere _ ih =>
    cases i with
    | zero => exact .some hhere
    | succ i => exact ih i

/-- What is related to an element of a row is an element of the other row. -/
theorem forall₂_mem_right {α β : Type} {R : α → β → Prop} {xs : List α} {ys : List β}
    (h : List.Forall₂ R xs ys) : List.Forall₂ (fun a b => b ∈ ys ∧ R a b) xs ys := by
  obtain ⟨hlength, hzip⟩ := List.forall₂_iff_zip.mp h
  exact List.forall₂_iff_zip.mpr ⟨hlength, fun hmem => ⟨(List.of_mem_zip hmem).2, hzip hmem⟩⟩

/-- A block leaves the function when its only statement does. -/
theorem Syntax.exitsEarly_obj (fields : Fields) :
    exitsEarly (.obj fields) =
      (Fields.get fields "type").isOneOf ["ReturnStatement", "ThrowStatement"] >>= fun leaves =>
        if leaves then .ok true
        else if (Fields.get fields "type").isText "BlockStatement" then
          (Fields.get fields "body").orEmpty.only >>= fun inner =>
            match inner with
            | some statement => exitsEarly statement
            | none => .ok false
        else .ok false := by
  rw [exitsEarly]
  cases (Fields.get fields "type").isOneOf ["ReturnStatement", "ThrowStatement"] with
  | error fault => rfl
  | ok leaves =>
    cases leaves with
    | true => rfl
    | false =>
      simp only [ok_bind, Bool.false_eq_true, if_false]
      split
      · split <;> simp_all
      · rfl

theorem Json.SameForm.number?_eq {R : Value → Value → Prop} {v w : Value} (h : SameForm R v w) :
    v.number? = w.number? := by
  cases h <;> rfl

/-! ## What is reported -/

/-- The places are related. -/
def LikeLocations (E : Value → Value → Prop) (a b : Location) : Prop :=
  E a.line b.line ∧ E a.column b.column

/-- The ends of the spans are related. -/
def RelatedSpans (E : Value → Value → Prop) (s t : Span) : Prop :=
  E s.start t.start ∧ E s.stop t.stop

/-- The diagnostics say the same about related places. -/
structure LikeDiagnostics (E : Value → Value → Prop) (d e : Diagnostic) : Prop where
  /-- The rule is the same. -/
  rule : d.rule = e.rule
  /-- The id of the message is the same. -/
  messageId : d.messageId = e.messageId
  /-- The message is the same. -/
  message : d.message = e.message
  /-- The locations are related. -/
  location : LikeLocations E d.location e.location
  /-- The spans are related. -/
  span : Option.Rel (RelatedSpans E) d.span e.span

theorem LikeDiagnostics.eq {d e : Diagnostic} (h : LikeDiagnostics (· = ·) d e) : d = e := by
  obtain ⟨rule, id, message, ⟨line, column⟩, span⟩ := d
  obtain ⟨_, _, _, ⟨_, _⟩, _⟩ := e
  obtain ⟨rfl, rfl, rfl, ⟨rfl, rfl⟩, hspan⟩ := h
  cases hspan with
  | none => rfl
  | @some s t hends =>
    obtain ⟨start, stop⟩ := s
    obtain ⟨rfl, rfl⟩ := hends
    rfl

theorem LikeDiagnostics.refl {E : Value → Value → Prop} (hE : ∀ v, E v v) (d : Diagnostic) :
    LikeDiagnostics E d d := by
  refine ⟨rfl, rfl, rfl, ⟨hE _, hE _⟩, ?_⟩
  cases d.span with
  | none => exact .none
  | some s => exact .some ⟨hE _, hE _⟩

/-- Related names of identifiers are absent alike and equal alike. -/
structure NameLikeness (N : Value → Value → Prop) : Prop where
  /-- Absent names are related. -/
  null : N .null .null
  /-- Both names are absent, or none. -/
  isNull_eq {a b : Value} (h : N a b) : a.isNull = b.isNull
  /-- Names are equal when the related names are. -/
  same_eq {a b c d : Value} (h : N a b) (h' : N c d) : a.same c = b.same d

/-- Related values of positions are numbers alike. -/
structure PlaceLikeness (E : Value → Value → Prop) : Prop where
  /-- They are of the same form. -/
  form {a b : Value} (h : E a b) : SameForm E a b
  /-- What is neither a list nor an object is related to itself. -/
  plain {a : Value} (h : a.isContainer = false) : E a a

/-- A relation between values that the rules about functions and single statements cannot tell apart: the
names of identifiers are related by `N`, and the values of positions by `E`. -/
structure RuleLikeness (N E R : Value → Value → Prop) : Prop extends
    Resemblance (fun key => key ≠ "name" ∧ key ≠ parentField) R where
  /-- Related objects have as many fields. -/
  length {fs gs : Fields} (h : R (.obj fs) (.obj gs)) : fs.length = gs.length
  /-- Empty lists are related. -/
  empty : R (.arr []) (.arr [])
  /-- A text is related to itself. -/
  text (s : String) : R (.str s) (.str s)
  /-- Names of identifiers are related. -/
  named {fs gs : Fields} (h : R (.obj fs) (.obj gs)) (kind : isIdentifier (.obj fs) = .ok true) :
    Option.Rel N (fs.lookup "name") (gs.lookup "name")
  /-- Relations of names. -/
  names : NameLikeness N
  /-- Relations of positions. -/
  places : PlaceLikeness E
  /-- The places that related values carry are related. -/
  location {v w : Value} (h : R v w) :
    Both (Option.Rel (LikeLocations E)) (ownLocation? v) (ownLocation? w)
  /-- The spans of related values are related. -/
  span {v w : Value} (h : R v w) :
    Both (Option.Rel (RelatedSpans E)) (Syntax.span v) (Syntax.span w)

namespace RuleLikeness

variable {N E R : Value → Value → Prop} (L : RuleLikeness N E R) {v w : Value} {fs gs : Fields}

include L

/-! ## Forms -/

theorem orEmpty (h : R v w) : R v.orEmpty w.orEmpty := by
  unfold Value.orEmpty
  rw [(L.form h).truthy_eq]
  split
  · exact h
  · exact L.empty

theorem size_eq (h : R v w) : v.size = w.size := by
  cases L.form h with
  | plain => rfl
  | arr items => exact congrArg Except.ok items.length_eq
  | obj => exact congrArg Except.ok (L.length h)

theorem only_like (h : R v w) : Both (Option.Rel R) v.only w.only := by
  cases L.form h with
  | @plain v hplain =>
    cases v with
    | str s =>
      refine .ok ?_
      split
      · exact .some h
      · exact .none
    | arr => cases hplain
    | obj => cases hplain
    | _ => exact .error _
  | arr items =>
    match items with
    | .nil => exact .ok .none
    | .cons hhere .nil => exact .ok (.some hhere)
    | .cons _ (.cons _ _) => exact .ok .none
  | @obj fs gs _ =>
    have hlength := L.length h
    match fs, gs with
    | [], [] => exact .ok .none
    | [_], [_] => exact .error _
    | _ :: _ :: _, _ :: _ :: _ => exact .ok .none

theorem last_like (h : R v w) : Both R v.last w.last := by
  have hlast : ∀ {xs ys}, List.Forall₂ R xs ys →
      Option.Rel R ((Value.place? xs.length (-1)).bind (xs[·]?))
        ((Value.place? ys.length (-1)).bind (ys[·]?)) := by
    intro xs ys hrows
    rw [hrows.length_eq]
    cases Value.place? ys.length (-1) with
    | none => exact .none
    | some place => exact forall₂_getElem? hrows place
  have hrows : ∀ {xs ys}, List.Forall₂ R xs ys →
      Both R (match (Value.place? xs.length (-1)).bind (xs[·]?) with
          | some item => pure item
          | none => .error .outOfRange)
        (match (Value.place? ys.length (-1)).bind (ys[·]?) with
          | some item => pure item
          | none => .error .outOfRange) := by
    intro xs ys hrows
    have hrel := hlast hrows
    generalize (Value.place? xs.length (-1)).bind (xs[·]?) = a at hrel ⊢
    generalize (Value.place? ys.length (-1)).bind (ys[·]?) = b at hrel ⊢
    cases hrel with
    | none => exact .error _
    | some related => exact .ok related
  unfold Value.last Value.item
  cases L.form h with
  | @plain v hplain =>
    cases v with
    | str s =>
      refine hrows ?_
      rw [List.forall₂_map_left_iff, List.forall₂_map_right_iff, List.forall₂_same]
      exact fun c _ => L.text (String.singleton c)
    | arr => cases hplain
    | obj => cases hplain
    | _ => exact .error _
  | arr items => exact hrows items
  | obj => exact .error _

/-! ## Functions -/

theorem exitsEarly_eq (h : R v w) : exitsEarly v = exitsEarly w := by
  induction hsize : sizeOf v using Nat.strongRecOn generalizing v w with
  | ind size ih =>
    cases L.form h with
    | plain => rfl
    | arr => simp [exitsEarly]
    | @obj fs gs =>
      have hkind := L.formOf h "type" (by decide)
      rw [exitsEarly_obj, exitsEarly_obj, hkind.isOneOf_eq, hkind.isText_eq]
      congr 1
      funext leaves
      split
      · rfl
      · split
        · have honly := L.only_like (L.orEmpty (L.field h "body" (by decide)))
          generalize (Fields.get gs "body").orEmpty.only = other at honly ⊢
          cases hbody : (Fields.get fs "body").orEmpty.only with
          | error fault =>
            rw [hbody] at honly
            cases honly
            rfl
          | ok inner =>
            rw [hbody] at honly
            cases honly with
            | ok related =>
              cases related with
              | none => rfl
              | some hstatement =>
                have hsmaller :=
                  Nat.lt_of_le_of_lt (Value.sizeOf_only_le hbody) (sizeOf_get_lt fs "body")
                exact ih _ (hsize ▸ hsmaller) hstatement rfl
        · rfl

theorem bodyStatements_like (h : R v w) :
    Both (Option.Rel R) (bodyStatements v) (bodyStatements w) := by
  refine (L.get_like h "body" (by decide)).bind fun a b hab => ?_
  cases L.form hab with
  | @plain a hplain =>
    cases a with
    | null => exact .ok .none
    | obj => cases hplain
    | _ => exact .error _
  | arr => exact .error _
  | obj =>
    dsimp only
    rw [(L.formOf hab "type" (by decide)).isText_eq]
    split
    · exact .ok (.some (L.orEmpty (L.field hab "body" (by decide))))
    · exact .ok .none

theorem soleStatement_like (h : R v w) :
    Both (Option.Rel R) (soleStatement v) (soleStatement w) := by
  refine (L.bodyStatements_like h).bind fun a b hab => ?_
  cases hab with
  | none => exact .ok .none
  | some hstatements => exact L.only_like hstatements

theorem isNegation_eq (h : R v w) : isNegation v = isNegation w := by
  cases L.form h with
  | plain => rfl
  | arr => rfl
  | obj =>
    simp only [isNegation, (L.formOf h "type" (by decide)).isText_eq,
      (L.formOf h "operator" (by decide)).isText_eq]

/-- Related functions have related conditionals for their whole bodies. -/
theorem wholeBodyConditional_like (h : R v w) :
    Both (Option.Rel R) (wholeBodyConditional v) (wholeBodyConditional w) := by
  refine (L.soleStatement_like h).bind fun a b hab => ?_
  cases hab with
  | none => exact .ok .none
  | some hstatement =>
    refine (L.get_like hstatement "type" (by decide)).bind fun kind kind' hkind => ?_
    rw [(L.form hkind).isText_eq]
    split
    · exact .ok .none
    · refine (L.get_like hstatement "alternate" (by decide)).bind fun branch branch' hbranch => ?_
      rw [(L.form hbranch).isNull_eq]
      split
      · exact .ok .none
      · refine (L.get_like hstatement "test" (by decide)).bind fun test test' htest => ?_
        refine (Both.of_eq (L.isNegation_eq htest)).bind fun negated _ heq => ?_
        subst heq
        split
        · refine (L.get_like hstatement "consequent" (by decide)).bind fun branch branch' hbranch => ?_
          refine (Both.of_eq (L.exitsEarly_eq hbranch)).bind fun leaves _ heq => ?_
          subst heq
          split
          · exact .ok .none
          · exact .ok (.some hstatement)
        · exact .ok (.some hstatement)

/-- Related statements consist of related calls. -/
theorem statementCall_like (h : R v w) :
    Both (Option.Rel R) (statementCall v) (statementCall w) := by
  cases L.form h with
  | @plain v hplain =>
    cases v with
    | null => exact .ok .none
    | obj => cases hplain
    | _ => exact .error _
  | arr => exact .error _
  | @obj fs gs =>
    simp only [statementCall, (L.formOf h "type" (by decide)).isText_eq]
    split
    · exact .ok .none
    · next field hfield =>
      have hfree : field ≠ "name" ∧ field ≠ parentField := by
        split at hfield
        · cases hfield
          decide
        · split at hfield
          · cases hfield
            decide
          · cases hfield
      refine (L.unwrap_like (by decide) (L.field h field hfree)).bind fun a b hab => ?_
      rw [L.isKind_eq hab]
      split
      · exact .ok (.some hab)
      · exact .ok .none

/-! ## Forwarding -/

theorem get_name_like (h : R v w) (hv : isIdentifier v = .ok true) :
    Both N (v.get "name") (w.get "name") := by
  cases v with
  | obj fs =>
    obtain ⟨gs, rfl⟩ := L.exists_obj h
    exact .ok (rel_getD (L.named h hv) L.names.null)
  | _ => cases hv

theorem isIdentifierNamed_eq (h : R v w) {a b : Value} (hname : N a b) :
    isIdentifierNamed v a = isIdentifierNamed w b := by
  unfold isIdentifierNamed
  rw [← L.isIdentifier_eq h, L.names.isNull_eq hname]
  cases hv : isIdentifier v with
  | error fault => rfl
  | ok yes =>
    cases yes with
    | false => rfl
    | true =>
      simp only [ok_bind, if_true]
      split
      · rfl
      · refine (L.get_name_like h hv).bind_eq fun c d hcd => ?_
        rw [L.names.same_eq hcd hname]

end RuleLikeness

/-- The parameters have related names. -/
structure LikeParameters (N : Value → Value → Prop) (p q : Parameters) : Prop where
  /-- The plain ones correspond one by one. -/
  names : List.Forall₂ N p.names q.names
  /-- The ones that take the rest correspond. -/
  rest : N p.rest q.rest

namespace RuleLikeness

variable {N E R : Value → Value → Prop} (L : RuleLikeness N E R) {v w : Value}

include L

/-- Related parameters are read alike. -/
theorem readParameters_like {vs ws : List Value} (h : LikeRows R vs ws) {p q : Parameters}
    (hknown : LikeParameters N p q) :
    Both (Option.Rel (LikeParameters N)) (readParameters p vs) (readParameters q ws) := by
  cases h with
  | texts =>
    unfold readParameters
    rw [L.names.isNull_eq hknown.rest]
    split
    · exact .ok .none
    · exact .error _
  | items h =>
    induction h generalizing p q with
    | nil => exact .ok (.some hknown)
    | @cons v w vs ws hhere _ ih =>
      unfold readParameters
      rw [L.names.isNull_eq hknown.rest, ← L.isIdentifier_eq hhere]
      split
      · exact .ok .none
      · cases hv : isIdentifier v with
        | error fault => exact .error fault
        | ok yes =>
          cases yes with
          | true =>
            refine (L.require_name_like L.named hhere hv).bind fun name name' hname => ?_
            exact ih ⟨List.rel_append hknown.names (.cons hname .nil), hknown.rest⟩
          | false =>
            refine (L.get_like hhere "type" (by decide)).bind fun kind kind' hkind => ?_
            rw [(L.form hkind).isText_eq]
            split
            · refine (L.get_like hhere "argument" (by decide)).bind
                fun argument argument' hargument => ?_
              rw [← L.isIdentifier_eq hargument]
              cases hrest : isIdentifier argument with
              | error fault => exact .error fault
              | ok yes =>
                cases yes with
                | true =>
                  refine (L.require_name_like L.named hargument hrest).bind fun name name' hname => ?_
                  exact ih ⟨hknown.names, hname⟩
                | false => exact .ok .none
            · exact .ok .none

theorem passesNames_eq {names names' vs ws : List Value} (hnames : List.Forall₂ N names names')
    (h : LikeRows R vs ws) : passesNames names vs = passesNames names' ws := by
  cases h with
  | texts =>
    cases hnames with
    | nil => simp [passesNames]
    | cons => rfl
  | items h =>
    induction hnames generalizing vs ws with
    | nil => simp [passesNames]
    | cons hname _ ih =>
      cases h with
      | nil => simp [passesNames]
      | cons hhere hrest =>
        rw [passesNames, passesNames, L.isIdentifierNamed_eq hhere hname, ih hrest]

theorem passesParameters_eq {p q : Parameters} (hparameters : LikeParameters N p q) (h : R v w) :
    passesParameters p v = passesParameters q w := by
  unfold passesParameters
  rw [L.size_eq h, hparameters.names.length_eq, L.names.isNull_eq hparameters.rest]
  congr 1
  funext count
  refine if_congr Iff.rfl rfl ?_
  refine (L.form h).elements.bind_eq fun vs ws hrows => ?_
  rw [L.passesNames_eq hparameters.names hrows]
  congr 1
  funext passes
  refine if_congr Iff.rfl (if_congr Iff.rfl rfl ?_) rfl
  refine (L.last_like h).bind_eq fun a b hab => ?_
  refine (L.get_like hab "type" (by decide)).bind_eq fun kind kind' hkind => ?_
  rw [(L.form hkind).isText_eq]
  refine if_congr Iff.rfl ?_ rfl
  refine (L.get_like hab "argument" (by decide)).bind_eq fun c d hcd => ?_
  exact L.isIdentifierNamed_eq hcd hparameters.rest

/-- Related functions pass their parameters on, or none does. -/
theorem forwardsParameters_eq (h : R v w) : forwardsParameters v = forwardsParameters w := by
  refine (L.soleStatement_like h).bind_eq fun a b hab => ?_
  cases hab with
  | none => rfl
  | some hstatement =>
    refine (L.statementCall_like hstatement).bind_eq fun a b hab => ?_
    cases hab with
    | none => rfl
    | some hcall =>
      refine (L.get_like hcall "arguments" (by decide)).bind_eq fun c d hcd => ?_
      refine (L.get_like h "params" (by decide)).bind_eq fun params params' hparams => ?_
      refine (L.form (L.orEmpty hparams)).elements.bind_eq fun written written' hwritten => ?_
      have hread := L.readParameters_like hwritten (p := ⟨[], .null⟩) (q := ⟨[], .null⟩)
        ⟨.nil, L.names.null⟩
      refine hread.bind_eq fun read read' hparameters => ?_
      cases hparameters with
      | none => rfl
      | some hparameters => exact L.passesParameters_eq hparameters (L.orEmpty hcd)

/-! ## Reports -/

theorem likeLocations_unknown : LikeLocations E .unknown .unknown :=
  ⟨L.places.plain rfl, L.places.plain rfl⟩

theorem locationOfSpan_like (source : Source) {s t : Span} (h : RelatedSpans E s t) :
    Both (LikeLocations E) (source.locationOfSpan s) (source.locationOfSpan t) := by
  unfold Source.locationOfSpan
  refine (Both.of_eq (rfl : startsOf source.text = _)).bind fun starts _ heq => ?_
  subst heq
  rw [(L.places.form h.1).number?_eq]
  cases t.start.number? with
  | none => exact .error _
  | some offset =>
    refine .ok ⟨L.places.plain rfl, L.places.plain ?_⟩
    cases offset <;> rfl

theorem locationOf_like (source : Source) (h : R v w) :
    Both (LikeLocations E) (source.locationOf v) (source.locationOf w) := by
  refine (L.location h).bind fun a b hab => ?_
  cases hab with
  | some hlocation => exact .ok hlocation
  | none =>
    refine (L.span h).bind fun a b hab => ?_
    cases hab with
    | none => exact .ok L.likeLocations_unknown
    | some hspan =>
      dsimp only
      split
      · exact .ok L.likeLocations_unknown
      · exact L.locationOfSpan_like source hspan

theorem textOf_eq (source : Source) (h : R v w) : source.textOf v = source.textOf w := by
  have hbound : ∀ {a b : Value}, E a b → sliceBound a = sliceBound b := by
    intro a b hab
    rw [sliceBound, sliceBound, (L.places.form hab).isNull_eq, (L.places.form hab).whole?_eq]
  refine (L.span h).bind_eq fun a b hab => ?_
  cases hab with
  | none => rfl
  | some hspan =>
    simp only [between, hbound hspan.1, hbound hspan.2]

variable (context : Context) (bindings : Value)

/-- Related nodes are reported alike. -/
theorem report_like (h : R v w) (id : String) :
    Both (LikeDiagnostics E) (context.report v id)
      ({ context with bindings := bindings }.report w id) := by
  unfold Context.report
  dsimp only
  split
  · exact .error _
  · refine (L.locationOf_like context.source h).bind fun a b hlocation => ?_
    exact (L.span h).bind fun s t hspan => .ok ⟨rfl, rfl, rfl, hlocation, hspan⟩

/-- A single report, as the only one of a check. -/
theorem report_row_like (h : R v w) (id : String) :
    Both (List.Forall₂ (LikeDiagnostics E)) (do return [← context.report v id])
      (do return [← { context with bindings := bindings }.report w id]) :=
  (L.report_like context bindings h id).bind fun _ _ hd => .ok (.cons hd .nil)

theorem checkGuardClauses_like (h : R v w) :
    Both (List.Forall₂ (LikeDiagnostics E)) (checkGuardClauses context v)
      (checkGuardClauses { context with bindings := bindings } w) := by
  refine (L.wholeBodyConditional_like h).bind fun a b hab => ?_
  cases hab with
  | none => exact .ok .nil
  | some hconditional => exact L.report_row_like context bindings hconditional _

theorem checkElse_like (h : R v w) :
    Both (List.Forall₂ (LikeDiagnostics E)) (checkElse context v)
      (checkElse { context with bindings := bindings } w) := by
  refine (L.get_like h "alternate" (by decide)).bind fun a b hab => ?_
  rw [(L.form hab).isNull_eq]
  split
  · exact .ok .nil
  · exact L.report_row_like context bindings hab _

/-- Related blocks swallow the error, or none does. -/
theorem swallows_eq (source : Source) (h : R v w) : swallows source v = swallows source w := by
  have hbody : (v.get "body" >>= fun body => .ok !body.truthy) =
      (w.get "body" >>= fun body => .ok !body.truthy) :=
    (L.get_like h "body" (by decide)).bind_eq fun a b hab => by rw [(L.form hab).truthy_eq]
  refine (L.get_like h "body" (by decide)).bind_eq fun a b hab => ?_
  rw [(L.form hab).truthy_eq]
  refine if_congr Iff.rfl ?_ rfl
  unfold blockHasOnlyComments
  dsimp only
  rw [L.textOf_eq source h]
  congr 1
  funext text
  cases text with
  | null => exact hbody
  | _ => rfl

theorem checkCatch_like (h : R v w) :
    Both (List.Forall₂ (LikeDiagnostics E)) (checkCatch context v)
      (checkCatch { context with bindings := bindings } w) := by
  refine (L.get_like h "body" (by decide)).bind fun a b hab => ?_
  have hblock : Both (List.Forall₂ (LikeDiagnostics E))
      (a.get "type" >>= fun kind =>
        if kind.isText "BlockStatement" then do
          if ← swallows context.source a then
            return [← context.report a "noSwallowedCatch"]
          else return []
        else return [])
      (b.get "type" >>= fun kind =>
        if kind.isText "BlockStatement" then do
          if ← swallows context.source b then
            return [← { context with bindings := bindings }.report b "noSwallowedCatch"]
          else return []
        else return []) := by
    refine (L.get_like hab "type" (by decide)).bind fun kind kind' hkind => ?_
    rw [(L.form hkind).isText_eq]
    split
    · refine (Both.of_eq (L.swallows_eq context.source hab)).bind fun swallowed _ heq => ?_
      subst heq
      split
      · exact L.report_row_like context bindings hab _
      · exact .ok .nil
    · exact .ok .nil
  cases L.form hab with
  | @plain a hplain =>
    cases a with
    | null => exact .ok .nil
    | _ => exact hblock
  | arr => exact hblock
  | obj => exact hblock

end RuleLikeness

/-! ## Nodes and trees -/

/-- The nodes are related, and what an export declares is told alike. -/
structure LikeVisits (R : Value → Value → Prop) (root root' : Value) (a b : Visit) : Prop where
  /-- The nodes are related. -/
  node : R a.node b.node
  /-- Both nodes are declared by exports, or none is. -/
  exported : isExportedDirectly root a.path a.node = isExportedDirectly root' b.path b.node

/-- What a rule sees of two files differs in the tables of bindings at most; and the rule about exports
reports related programs alike. -/
def LikeContexts (E R : Value → Value → Prop) (c d : Context) : Prop :=
  ∃ bindings, d = { c with bindings := bindings } ∧
    (c.rule = .exportCodeLast → ∀ v w, R v w →
      Both (List.Forall₂ (LikeDiagnostics E)) (checkExports c v) (checkExports d w))

theorem likeContexts_of_eq {E R : Value → Value → Prop} (hE : ∀ v, E v v) {c : Context}
    {bindings : Value}
    (h : ∀ v w, R v w → checkExports { c with bindings := bindings } w = checkExports c v) :
    LikeContexts E R c { c with bindings := bindings } := by
  refine ⟨bindings, rfl, fun _ v w hvw => ?_⟩
  rw [h v w hvw]
  cases checkExports c v with
  | error fault => exact .error fault
  | ok ds => exact .ok (List.forall₂_same.mpr fun d _ => .refl hE d)

namespace RuleLikeness

variable {N E R : Value → Value → Prop} (L : RuleLikeness N E R) {root root' : Value} {a b : Visit}

include L

theorem checkEmptyWrapper_like (context : Context) (bindings : Value)
    (h : LikeVisits R root root' a b) :
    Both (List.Forall₂ (LikeDiagnostics E)) (checkEmptyWrapper context root a)
      (checkEmptyWrapper { context with bindings := bindings } root' b) := by
  refine (Both.of_eq h.exported).bind fun exported _ heq => ?_
  subst heq
  split
  · refine (Both.of_eq (L.forwardsParameters_eq h.node)).bind fun forwards _ heq => ?_
    subst heq
    split
    · exact L.report_row_like context bindings h.node _
    · exact .ok .nil
  · exact .ok .nil

/-- What a rule reports at related nodes is alike. -/
theorem reportsAt_like {c d : Context} (hcontext : LikeContexts E R c d)
    (h : LikeVisits R root root' a b) :
    Both (List.Forall₂ (LikeDiagnostics E)) (reportsAt root a c) (reportsAt root' b d) := by
  obtain ⟨bindings, rfl, hexport⟩ := hcontext
  have hlooks : c.rule.looksAt a.node = c.rule.looksAt b.node := by
    unfold looksAt
    simp only [L.isKind_eq h.node]
  unfold reportsAt
  dsimp only
  rw [hlooks]
  split
  · obtain ⟨rule, options, source, given⟩ := c
    cases rule with
    | requireGuardClauses => exact L.checkGuardClauses_like _ _ h.node
    | noSwallowedCatch => exact L.checkCatch_like _ _ h.node
    | exportCodeLast => exact hexport rfl _ _ h.node
    | noEmptyWrappers => exact L.checkEmptyWrapper_like _ _ h
    | noSwitch => exact L.report_row_like _ _ h.node _
    | noElse => exact L.checkElse_like _ _ h.node
  · exact .ok .nil

variable {contexts contexts' : List Context}
  (hcontexts : List.Forall₂ (LikeContexts E R) contexts contexts')

include hcontexts

theorem checkNode_like (h : LikeVisits R root root' a b) :
    Both (List.Forall₂ (LikeDiagnostics E)) (checkNode contexts root a)
      (checkNode contexts' root' b) := by
  rw [checkNode_eq, checkNode_eq]
  have hfound := Both.mapM hcontexts fun c d hcontext => L.reportsAt_like hcontext h
  exact hfound.bind fun _ _ hrows => .ok (List.rel_flatten hrows)

/-- What the rules report at related rows of nodes is alike. -/
theorem checkVisits_like {visits visits' : List Visit}
    (h : List.Forall₂ (LikeVisits R root root') visits visits') :
    Both (List.Forall₂ (LikeDiagnostics E)) (checkVisits contexts root visits)
      (checkVisits contexts' root' visits') := by
  have hfound := Both.mapM h fun a b hab => L.checkNode_like hcontexts hab
  exact hfound.bind fun _ _ hrows => .ok (List.rel_flatten hrows)

omit hcontexts

theorem position_eq {d e : Diagnostic} (h : LikeDiagnostics E d e) : d.position = e.position := by
  have hstart : d.start.whole? = e.start.whole? := by
    unfold Diagnostic.start
    have hspan := h.span
    generalize d.span = s at hspan ⊢
    generalize e.span = t at hspan ⊢
    cases hspan with
    | none => rfl
    | some hends => exact (L.places.form hends.1).whole?_eq
  rw [Diagnostic.position, Diagnostic.position, hstart]

/-- Rows that are alike are put in the same order. -/
theorem inOrder_like {ds es : List Diagnostic} (h : List.Forall₂ (LikeDiagnostics E) ds es) :
    List.Forall₂ (LikeDiagnostics E) (inOrder ds) (inOrder es) := by
  obtain ⟨hlength, hzip⟩ := List.forall₂_iff_zip.mp h
  have hpairs : ∀ pair ∈ ds.zip es, LikeDiagnostics E pair.1 pair.2 := fun _ hpair => hzip hpair
  -- Both rows are sorted by sorting the row of pairs.
  let sorted := (ds.zip es).mergeSort fun p q => decide (p.1.position ≤ q.1.position)
  have hleft : inOrder ds = sorted.map Prod.fst := by
    rw [List.map_mergeSort (s := fun a b : Diagnostic => decide (a.position ≤ b.position))
      fun _ _ _ _ => rfl, List.map_fst_zip (Nat.le_of_eq hlength)]
    rfl
  have hright : inOrder es = sorted.map Prod.snd := by
    rw [List.map_mergeSort (s := fun a b : Diagnostic => decide (a.position ≤ b.position))
      fun p hp q hq => by rw [L.position_eq (hpairs p hp), L.position_eq (hpairs q hq)],
      List.map_snd_zip (Nat.le_of_eq hlength.symm)]
    rfl
  rw [hleft, hright, List.forall₂_map_left_iff, List.forall₂_map_right_iff, List.forall₂_same]
  intro pair hpair
  exact hpairs pair (List.mem_mergeSort.mp hpair)

end RuleLikeness

end TreeLint

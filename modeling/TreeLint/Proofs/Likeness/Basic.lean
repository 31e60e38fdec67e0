/-
  Programs that look the same.

  Two programs are compared value by value.  A likeness relates the values of the one to those of the
  other, such that the tests of the language cannot tell related values apart: they are of the same
  form, their fields are related, and their names correspond under a renaming.  Fields that hold
  nothing but types may differ in any way.
-/
import TreeLint.Proofs.ExportShape
import TreeLint.Source.Text
import TreeLint.Usage.Role

set_option autoImplicit false

namespace TreeLint

/-! ## Outcomes -/

/-- Two computations end alike: with related results, or with the same fault. -/
inductive Both {α β : Type} (R : α → β → Prop) : Except Fault α → Except Fault β → Prop
  /-- Both give a result. -/
  | ok {a : α} {b : β} (related : R a b) : Both R (.ok a) (.ok b)
  /-- Both end with a fault. -/
  | error (fault : Fault) : Both R (.error fault) (.error fault)

namespace Both

variable {α β γ δ : Type} {R : α → β → Prop} {S : γ → δ → Prop}
  {x : Except Fault α} {y : Except Fault β}

/-- Steps that end alike, taken one after the other. -/
theorem bind (h : Both R x y) {f : α → Except Fault γ} {g : β → Except Fault δ}
    (hstep : ∀ a b, R a b → Both S (f a) (g b)) : Both S (x >>= f) (y >>= g) := by
  cases h with
  | ok related => exact hstep _ _ related
  | error fault => exact .error fault

/-- Steps that end alike, when what comes after them does not depend on what differs. -/
theorem bind_eq (h : Both R x y) {f : α → Except Fault γ} {g : β → Except Fault γ}
    (hstep : ∀ a b, R a b → f a = g b) : (x >>= f) = (y >>= g) := by
  cases h with
  | ok related => exact hstep _ _ related
  | error fault => rfl

theorem map (h : Both R x y) {f : α → γ} {g : β → δ} (hstep : ∀ a b, R a b → S (f a) (g b)) :
    Both S (x.map f) (y.map g) := by
  cases h with
  | ok related => exact .ok (hstep _ _ related)
  | error fault => exact .error fault

theorem of_eq {x y : Except Fault α} (h : x = y) : Both (· = ·) x y := by
  subst h
  cases x with
  | error fault => exact .error fault
  | ok a => exact .ok rfl

end Both

section Rows

open TreeLint.Json

variable {α β γ : Type} {R : α → β → Prop} {xs : List α} {ys : List β}

/-- Steps that agree on related elements give the same row. -/
theorem map_eq_of_forall₂ {f : α → γ} {g : β → γ} (h : List.Forall₂ R xs ys)
    (hstep : ∀ a b, R a b → f a = g b) : xs.map f = ys.map g := by
  induction h with
  | nil => rfl
  | cons hhere _ ih => rw [List.map_cons, List.map_cons, hstep _ _ hhere, ih]

/-- Steps that agree on related elements have the same outcome. -/
theorem mapM_eq_of_forall₂ {f : α → Except Fault γ} {g : β → Except Fault γ}
    (h : List.Forall₂ R xs ys) (hstep : ∀ a b, R a b → f a = g b) : xs.mapM f = ys.mapM g := by
  induction h with
  | nil => rfl
  | cons hhere _ ih => rw [List.mapM_cons, List.mapM_cons, hstep _ _ hhere, ih]

/-- Related results, with related values in place of absent ones. -/
theorem rel_getD {a : Option α} {b : Option β} {c : α} {d : β} (h : Option.Rel R a b)
    (hdefault : R c d) : R (a.getD c) (b.getD d) := by
  cases h with
  | none => exact hdefault
  | some related => exact related

/-- Fields that have to be there are found alike. -/
theorem require_like {R : Value → Value → Prop} {fs gs : Fields} {key : String}
    (h : Option.Rel R (fs.lookup key) (gs.lookup key)) :
    Both R ((Value.obj fs).require key) ((Value.obj gs).require key) := by
  simp only [Value.require]
  generalize fs.lookup key = a at h ⊢
  generalize gs.lookup key = b at h ⊢
  cases h with
  | none => exact .error _
  | some related => exact .ok related

end Rows

namespace Json

/-! ## Forms -/

/-- The value is a list or an object. -/
def Value.isContainer : Value → Bool
  | .arr _ | .obj _ => true
  | _ => false

/-- The values are equal, or lists of related items, or objects of which both or none are empty. -/
inductive SameForm (R : Value → Value → Prop) : Value → Value → Prop
  /-- A value that is neither a list nor an object. -/
  | plain {v : Value} (h : v.isContainer = false) : SameForm R v v
  /-- Two lists. -/
  | arr {xs ys : List Value} (items : List.Forall₂ R xs ys) : SameForm R (.arr xs) (.arr ys)
  /-- Two objects. -/
  | obj {fs gs : Fields} (empty : fs = [] ↔ gs = []) : SameForm R (.obj fs) (.obj gs)

/-- The rows have related elements, or both start with a text. -/
inductive LikeRows (R : Value → Value → Prop) : List Value → List Value → Prop
  /-- Element by element. -/
  | items {xs ys : List Value} (h : List.Forall₂ R xs ys) : LikeRows R xs ys
  /-- Texts come first. -/
  | texts {s t : String} {xs ys : List Value} : LikeRows R (.str s :: xs) (.str t :: ys)

namespace SameForm

variable {R : Value → Value → Prop} {v w : Value}

theorem isNull_eq (h : SameForm R v w) : v.isNull = w.isNull := by
  cases h <;> rfl

theorem text?_eq (h : SameForm R v w) : v.text? = w.text? := by
  cases h <;> rfl

theorem isText_eq (h : SameForm R v w) (text : String) : v.isText text = w.isText text := by
  cases h <;> rfl

theorem isKey_eq (h : SameForm R v w) : v.isKey = w.isKey := by
  cases h <;> rfl

theorem whole?_eq (h : SameForm R v w) : v.whole? = w.whole? := by
  cases h <;> rfl

theorem key (h : SameForm R v w) : Both (SameForm R) v.key w.key := by
  unfold Value.key
  rw [h.isKey_eq]
  split
  · exact .ok h
  · exact .error .unsuited

theorem isOneOf_eq (h : SameForm R v w) (texts : List String) :
    v.isOneOf texts = w.isOneOf texts := by
  cases h <;> rfl

theorem truthy_eq (h : SameForm R v w) : v.truthy = w.truthy := by
  cases h with
  | plain => rfl
  | @arr xs ys items =>
    cases items with
    | nil => rfl
    | cons => rfl
  | @obj fs gs empty =>
    cases fs with
    | nil => rw [empty.mp rfl]
    | cons f fs =>
      cases gs with
      | nil => cases empty.mpr rfl
      | cons => rfl

theorem orEmpty (h : SameForm R v w) : SameForm R v.orEmpty w.orEmpty := by
  unfold Value.orEmpty
  rw [h.truthy_eq]
  split
  · exact h
  · exact .arr .nil

/-- Values of the same form are gone through alike. -/
theorem elements (h : SameForm R v w) : Both (LikeRows R) v.elements w.elements := by
  cases h with
  | @plain v h =>
    cases v with
    | str s =>
      refine .ok ?_
      cases s.toList with
      | nil => exact .items .nil
      | cons c cs => exact .texts
    | arr => cases h
    | obj => cases h
    | _ => exact .error _
  | arr items => exact .ok (.items items)
  | @obj fs gs empty =>
    refine .ok ?_
    cases fs with
    | nil =>
      rw [empty.mp rfl]
      exact .items .nil
    | cons f fs =>
      cases gs with
      | nil => cases empty.mpr rfl
      | cons => exact .texts

end SameForm

namespace LikeRows

variable {R : Value → Value → Prop} {xs ys : List Value}
  {test : Value → Except Fault Bool}

/-- A test that faults at texts holds somewhere in both rows or in none. -/
theorem anyM_eq (h : LikeRows R xs ys) (htest : ∀ v w, R v w → test v = test w)
    (htext : ∀ s, test (.str s) = .error .notObject) : xs.anyM test = ys.anyM test := by
  cases h with
  | items h =>
    induction h with
    | nil => rfl
    | cons hhere _ ih => rw [List.anyM_cons, List.anyM_cons, htest _ _ hhere, ih]
  | texts => rw [List.anyM_cons, List.anyM_cons, htext, htext, error_bind, error_bind]

/-- A test that faults at texts holds all over both rows or over none. -/
theorem allM_eq (h : LikeRows R xs ys) (htest : ∀ v w, R v w → test v = test w)
    (htext : ∀ s, test (.str s) = .error .notObject) : xs.allM test = ys.allM test := by
  cases h with
  | items h =>
    induction h with
    | nil => rfl
    | cons hhere _ ih => rw [List.allM_cons, List.allM_cons, htest _ _ hhere, ih]
  | texts => rw [List.allM_cons, List.allM_cons, htext, htext, error_bind, error_bind]

end LikeRows

end Json

/-! ## Names -/

/-- A renaming gives different names to different names, and never changes whether a name starts with
an upper-case character. -/
structure Renaming where
  /-- The new name. -/
  apply : String → String
  /-- Different names stay different. -/
  injective : ∀ {s t : String}, apply s = apply t → s = t
  /-- The case of the first character stays. -/
  startsUppercase_apply : ∀ s, Text.startsUppercase (apply s) = Text.startsUppercase s

namespace Renaming

open TreeLint.Json

/-- The renaming that changes nothing. -/
def identity : Renaming :=
  ⟨id, id, fun _ => rfl⟩

variable (ρ : Renaming)

/-- The name that a value becomes; only texts are renamed. -/
def name : Value → Value
  | .str s => .str (ρ.apply s)
  | v => v

theorem beq_apply (s t : String) : (ρ.apply s == ρ.apply t) = (s == t) := by
  rw [Bool.eq_iff_iff, beq_iff_eq, beq_iff_eq]
  exact ⟨ρ.injective, congrArg ρ.apply⟩

/-- Names count as equal before and after a renaming. -/
theorem same_name (a b : Value) : (ρ.name a).same (ρ.name b) = a.same b := by
  cases a with
  | str s =>
    cases b with
    | str t => simp only [name, Value.same_str, beq_apply]
    | _ => simp [name, Value.same, Value.sameNumber, Value.number?]
  | _ =>
    cases b with
    | str t => simp [name, Value.same, Value.sameNumber, Value.number?]
    | _ => rfl

theorem alike_name (a b : Value) : (ρ.name a).alike (ρ.name b) = a.alike b := by
  have hnan : ∀ v, (ρ.name v).isNaN = v.isNaN := by
    intro v
    cases v <;> rfl
  rw [Value.alike, Value.alike, same_name, hnan, hnan]

@[simp] theorem isKey_name (a : Value) : (ρ.name a).isKey = a.isKey := by
  cases a <;> rfl

theorem identity_name (a : Value) : identity.name a = a := by
  cases a <;> rfl

end Renaming

namespace Syntax

open TreeLint.Json TreeLint.Usage TreeLint.Source

/-- The one name is the other under the renaming; what is no text is of the same form. -/
inductive LikeName (ρ : Renaming) (R : Value → Value → Prop) : Value → Value → Prop
  /-- A text. -/
  | text (s : String) : LikeName ρ R (.str s) (.str (ρ.apply s))
  /-- Anything else. -/
  | other {v w : Value} (form : SameForm R v w) (h : v.text? = none) : LikeName ρ R v w

namespace LikeName

variable {ρ : Renaming} {R : Value → Value → Prop} {v w : Value}

theorem null : LikeName ρ R .null .null :=
  .other (.plain rfl) rfl

/-- Names that can be keys correspond; the others stay unfit. -/
theorem key_cases (h : LikeName ρ R v w) :
    (v.isKey = true ∧ w = ρ.name v) ∨ (v.isKey = false ∧ w.isKey = false) := by
  cases h with
  | text s => exact .inl ⟨rfl, rfl⟩
  | other form h =>
    cases form with
    | arr => exact .inr ⟨rfl, rfl⟩
    | obj => exact .inr ⟨rfl, rfl⟩
    | plain hplain =>
      cases v with
      | str s => cases h
      | arr => cases hplain
      | obj => cases hplain
      | link => exact .inr ⟨rfl, rfl⟩
      | _ => exact .inl ⟨rfl, rfl⟩

theorem isNull_eq (h : LikeName ρ R v w) : v.isNull = w.isNull := by
  cases h with
  | text s => rfl
  | other form => exact form.isNull_eq

/-- Names that correspond are spelled alike. -/
theorem same_eq (h : LikeName ρ R v w) {n : Value} (hn : n.isKey = true) :
    v.same n = w.same (ρ.name n) := by
  cases h with
  | text s => exact (ρ.same_name (.str s) n).symm
  | other form h =>
    cases form with
    | plain hplain =>
      have hv : ρ.name v = v := by
        cases v with
        | str s => cases h
        | _ => rfl
      rw [← ρ.same_name v n, hv]
    | arr =>
      cases n with
      | arr => cases hn
      | obj => cases hn
      | _ => simp [Renaming.name, Value.same, Value.sameNumber, Value.number?]
    | obj =>
      cases n with
      | arr => cases hn
      | obj => cases hn
      | _ => simp [Renaming.name, Value.same, Value.sameNumber, Value.number?]

end LikeName

/-! ## Resemblances -/

/-- Related values are of the same form, and related objects have related fields, as far as a field is
free to be looked at. -/
structure Resemblance (free : String → Prop) (R : Value → Value → Prop) : Prop where
  /-- Related values are of the same form. -/
  form {v w : Value} (h : R v w) : SameForm R v w
  /-- Free fields of related objects are related. -/
  field {fs gs : Fields} (h : R (.obj fs) (.obj gs)) (key : String) (hkey : free key) :
    R (Fields.get fs key) (Fields.get gs key)
  /-- The kind is free. -/
  kind : free "type"

namespace Resemblance

variable {free : String → Prop} {R : Value → Value → Prop} (S : Resemblance free R) {v w : Value}
  {fs gs : Fields}

include S

/-- A value related to an object is an object. -/
theorem exists_obj (h : R (.obj fs) w) : ∃ gs, w = .obj gs := by
  generalize hv : Value.obj fs = v at h
  cases S.form h with
  | plain hplain =>
    subst hv
    cases hplain
  | arr => cases hv
  | @obj _ gs => exact ⟨gs, rfl⟩

theorem formOf (h : R (.obj fs) (.obj gs)) (key : String) (hkey : free key) :
    SameForm R (Fields.get fs key) (Fields.get gs key) :=
  S.form (S.field h key hkey)

/-- Related values are of the same kind. -/
theorem kind?_eq (h : R v w) : kind? v = kind? w := by
  cases S.form h with
  | plain => rfl
  | arr => rfl
  | obj => exact (S.formOf h "type" S.kind).text?_eq

theorem isKind_eq (h : R v w) (kind : String) : isKind v kind = isKind w kind :=
  isKind_congr (S.kind?_eq h) kind

/-- A free field of related values. -/
theorem get_like (h : R v w) (key : String) (hkey : free key) :
    Both R (v.get key) (w.get key) := by
  cases S.form h with
  | @plain v hplain =>
    cases v with
    | obj => cases hplain
    | _ => exact .error _
  | arr => exact .error _
  | obj => exact .ok (S.field h key hkey)

/-- Related values have related fields, or none. -/
theorem fieldsOf?_like (h : R v w) :
    Both (Option.Rel fun fs gs => R (.obj fs) (.obj gs)) (fieldsOf? v) (fieldsOf? w) := by
  cases S.form h with
  | @plain v hplain =>
    cases v with
    | null => exact .ok .none
    | obj => cases hplain
    | _ => exact .error _
  | arr => exact .error _
  | obj => exact .ok (.some h)

/-- Where the names of related identifiers are related, they are asked for alike. -/
theorem require_name_like {N : Value → Value → Prop}
    (hnamed : ∀ {fs gs : Fields}, R (.obj fs) (.obj gs) → isIdentifier (.obj fs) = .ok true →
      Option.Rel N (fs.lookup "name") (gs.lookup "name"))
    (h : R v w) (hv : isIdentifier v = .ok true) : Both N (v.require "name") (w.require "name") := by
  cases v with
  | obj fs =>
    obtain ⟨gs, rfl⟩ := S.exists_obj h
    exact require_like (hnamed h hv)
  | _ => cases hv

/-- Related roots can be asked for their children both or neither. -/
theorem checkedEdges_like (h : R v w) :
    Both (fun _ _ => True) (checkedEdges v) (checkedEdges w) := by
  refine (S.get_like h "type" S.kind).bind fun a b hab => ?_
  exact (S.form hab).key.bind fun _ _ _ => .ok trivial

end Resemblance

/-! ## Likenesses -/

/-- The node is an identifier or the tag of an element. -/
def isName (v : Value) : Bool :=
  isKind v "Identifier" || isKind v "JSXIdentifier"

/-- The node declares a function or a class. -/
def declaresOne (v : Value) : Bool :=
  isKind v "FunctionDeclaration" || isKind v "ClassDeclaration"

/-- The ends of two spans: equal, or both objects, which lie nowhere. -/
def LikeEnds (a b : Value) : Prop :=
  a = b ∨ a.isObject = true ∧ b.isObject = true

/-- The spans have like ends. -/
def LikeSpans (s t : Span) : Prop :=
  LikeEnds s.start t.start ∧ LikeEnds s.stop t.stop

/-- The children that are not held by a field for types. -/
def untypedEdges (v : Value) : List Edge :=
  (edges v).filter fun e => !typeFields.contains e.step.field

/-- A relation between values that no test of the export rule can tell apart, up to the renaming of
names. -/
structure Likeness (ρ : Renaming) (R : Value → Value → Prop) : Prop where
  /-- Related values are of the same form. -/
  form {v w : Value} (h : R v w) : SameForm R v w
  /-- Related objects have related fields, fields for types and names apart. -/
  field {fs gs : Fields} (h : R (.obj fs) (.obj gs)) (key : String) (typed : key ∉ typeFields)
    (named : key ≠ "name") : R (Fields.get fs key) (Fields.get gs key)
  /-- The names of identifiers correspond. -/
  named {fs gs : Fields} (h : R (.obj fs) (.obj gs)) (kind : isName (.obj fs) = true) :
    Option.Rel (LikeName ρ R) (fs.lookup "name") (gs.lookup "name")
  /-- The names of functions and classes correspond. -/
  declared {fs gs id jd : Fields} (h : R (.obj fs) (.obj gs)) (kind : declaresOne (.obj fs) = true)
    (left : Fields.get fs "id" = .obj id) (right : Fields.get gs "id" = .obj jd) :
    Option.Rel (LikeName ρ R) (id.lookup "name") (jd.lookup "name")
  /-- Export statements are in the same place. -/
  place {v w : Value} (h : R v w) (kind : ExportStatement v) :
    ownLocation? v = ownLocation? w ∧ span v = span w
  /-- Identifiers are in like places. -/
  use {fs gs : Fields} (h : R (.obj fs) (.obj gs)) (kind : isName (.obj fs) = true) :
    Option.Rel LikeSpans (spanOf fs) (spanOf gs)
  /-- The children are related, those in fields for types apart. -/
  edges {v w : Value} (h : R v w) :
    List.Forall₂ (fun e d => e.step = d.step ∧ R e.child d.child) (untypedEdges v) (untypedEdges w)

namespace Likeness

variable {ρ : Renaming} {R : Value → Value → Prop} (L : Likeness ρ R) {v w : Value} {fs gs : Fields}

include L

/-- What a likeness relates looks the same in all fields but those for types and names. -/
theorem resembles : Resemblance (fun key => key ∉ typeFields ∧ key ≠ "name") R :=
  ⟨L.form, fun h key hkey => L.field h key hkey.1 hkey.2, by decide⟩

theorem exists_obj (h : R (.obj fs) w) : ∃ gs, w = .obj gs :=
  L.resembles.exists_obj h

theorem formOf (h : R (.obj fs) (.obj gs)) (key : String)
    (hkey : key ∉ typeFields ∧ key ≠ "name") :
    SameForm R (Fields.get fs key) (Fields.get gs key) :=
  L.resembles.formOf h key hkey

theorem kind?_eq (h : R v w) : kind? v = kind? w :=
  L.resembles.kind?_eq h

theorem isKind_eq (h : R v w) (kind : String) : isKind v kind = isKind w kind :=
  L.resembles.isKind_eq h kind

theorem get_like (h : R v w) (key : String) (hkey : key ∉ typeFields ∧ key ≠ "name") :
    Both R (v.get key) (w.get key) :=
  L.resembles.get_like h key hkey

theorem fieldsOf?_like (h : R v w) :
    Both (Option.Rel fun fs gs => R (.obj fs) (.obj gs)) (fieldsOf? v) (fieldsOf? w) :=
  L.resembles.fieldsOf?_like h

theorem checkedEdges_like (h : R v w) :
    Both (fun _ _ => True) (checkedEdges v) (checkedEdges w) :=
  L.resembles.checkedEdges_like h

end Likeness

end Syntax

end TreeLint

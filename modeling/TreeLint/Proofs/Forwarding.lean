/-
  Which functions only pass their parameters on.

  Such a function has a block with one statement for its body, and the statement is a call, awaited, chained
  or in parentheses any number of times.  Its parameters are plain names, the last of them perhaps the one
  that takes the rest; the arguments of the call are the same names in the same order, the last of them spread.
-/
import TreeLint.Proofs.Estree
import TreeLint.Proofs.OccurrencePath

set_option autoImplicit false

namespace TreeLint.Syntax

open TreeLint.Json
open TreeLint.Usage (same_text_iff)

/-! ## Rows of names -/

/-- The value is an identifier of the name. -/
def Named (v : Value) (name : String) : Prop :=
  isKind v "Identifier" = true ∧ fieldOf v "name" = .str name

/-- The values are identifiers of the names, in order.  If there is a last name, one more value follows, of
the given kind, and an identifier of that name stands in it. -/
inductive NameRow (kind : String) : List Value → List String → Option String → Prop
  /-- The row without values. -/
  | nil : NameRow kind [] [] none
  /-- The value that holds the last name. -/
  | last {v : Value} {name : String} (holds : isKind v kind = true)
      (named : Named (fieldOf v "argument") name) : NameRow kind [v] [] (some name)
  /-- One more identifier before a row. -/
  | cons {v : Value} {name : String} {vs : List Value} {names : List String} {last : Option String}
      (named : Named v name) (row : NameRow kind vs names last) :
      NameRow kind (v :: vs) (name :: names) last

/-- Without a last name, the values are the identifiers. -/
theorem nameRow_none_iff {kind : String} {vs : List Value} {names : List String} :
    NameRow kind vs names none ↔ List.Forall₂ Named vs names := by
  constructor
  · intro h
    generalize hlast : (none : Option String) = last at h
    induction h with
    | nil => exact .nil
    | last => cases hlast
    | cons named _ ih => exact .cons named (ih hlast)
  · intro h
    induction h with
    | nil => exact .nil
    | cons named _ ih => exact .cons named ih

/-- With a last name, the value that holds it follows the identifiers. -/
theorem nameRow_some_iff {kind last : String} {vs : List Value} {names : List String} :
    NameRow kind vs names (some last) ↔ ∃ front v, vs = front ++ [v] ∧ List.Forall₂ Named front names ∧
      isKind v kind = true ∧ Named (fieldOf v "argument") last := by
  constructor
  · intro h
    generalize hlast : some last = found at h
    induction h with
    | nil => cases hlast
    | last holds named =>
      cases hlast
      exact ⟨[], _, rfl, .nil, holds, named⟩
    | cons named _ ih =>
      obtain ⟨front, v, rfl, hfront, hv⟩ := ih hlast
      exact ⟨_ :: front, v, rfl, .cons named hfront, hv⟩
  · rintro ⟨front, v, rfl, hfront, holds, named⟩
    induction hfront with
    | nil => exact .last holds named
    | cons hname _ ih => exact .cons hname ih

theorem nameRow_append_iff {kind last : String} {front : List Value} {v : Value} {names : List String} :
    NameRow kind (front ++ [v]) names (some last) ↔ List.Forall₂ Named front names ∧
      isKind v kind = true ∧ Named (fieldOf v "argument") last := by
  rw [nameRow_some_iff]
  refine ⟨?_, fun h => ⟨front, v, rfl, h⟩⟩
  rintro ⟨front', v', happend, h⟩
  obtain ⟨rfl, hlast⟩ := List.append_inj' happend rfl
  cases hlast
  exact h

/-! ## Parameters -/

/-- If the value is an identifier, its name is a text. -/
def HasTextName (v : Value) : Prop :=
  isKind v "Identifier" = true → ∃ name, fieldOf v "name" = .str name

theorem isIdentifier_eq_true_iff {v : Value} :
    isIdentifier v = .ok true ↔ isKind v "Identifier" = true := by
  cases v with
  | obj fields => rw [isIdentifier, isText_type, Except.ok.injEq]
  | _ => simp [isIdentifier, isKind]

theorem isIdentifierNamed_eq_true_iff {v : Value} {name : String} :
    isIdentifierNamed v (.str name) = .ok true ↔ Named v name := by
  cases v with
  | obj fields =>
    have hnamed : isIdentifierNamed (.obj fields) (.str name) =
        .ok (isKind (.obj fields) "Identifier" && (Fields.get fields "name").same (.str name)) := by
      rw [isIdentifierNamed, isIdentifier, isText_type, ok_bind]
      cases isKind (.obj fields) "Identifier" with
      | false => rfl
      | true => rfl
    rw [hnamed, Except.ok.injEq, Bool.and_eq_true, same_text_iff]
    rfl
  | _ => simp [isIdentifierNamed, isIdentifier, Named, isKind]

section Reading

variable {p : Value} {name : String} (known : List Value) (others : List Value)

theorem require_name_of_named (h : Named p name) : p.require "name" = .ok (.str name) := by
  obtain ⟨fields, _, rfl, _⟩ := isNode_iff.mp (isNode_of_isKind h.1)
  rw [Value.require, lookup_of_get_eq h.2 (by simp)]

/-- A plain parameter is added to those that are known. -/
theorem readParameters_named (h : Named p name) :
    readParameters ⟨known, .null⟩ (p :: others) = readParameters ⟨known ++ [.str name], .null⟩ others := by
  rw [readParameters, isIdentifier_eq_true_iff.mpr h.1, require_name_of_named h]
  rfl

/-- The parameter that takes the rest is kept apart. -/
theorem readParameters_rest (hrest : isKind p "RestElement" = true)
    (h : Named (fieldOf p "argument") name) :
    readParameters ⟨known, .null⟩ (p :: others) = readParameters ⟨known, .str name⟩ others := by
  obtain ⟨fields, _, rfl, _⟩ := isNode_iff.mp (isNode_of_isKind hrest)
  have hother : isIdentifier (.obj fields) = .ok false := by
    rw [isIdentifier, isText_type, Except.ok.injEq, ← Bool.not_eq_true]
    exact fun hname => absurd (isKind_unique hrest hname) (by decide)
  rw [fieldOf_obj] at h
  simp only [readParameters, hother, Value.get, ok_bind, isText_type, hrest,
    isIdentifier_eq_true_iff.mpr h.1, require_name_of_named h]
  rfl

/-- Any other parameter does more than take a value. -/
theorem readParameters_other {found : Parameters} (hplain : ¬ isKind p "Identifier" = true)
    (hrest : ¬ (isKind p "RestElement" = true ∧ isKind (fieldOf p "argument") "Identifier" = true)) :
    readParameters ⟨known, .null⟩ (p :: others) ≠ .ok (some found) := by
  intro h
  simp only [readParameters, Value.isNull, Bool.not_true, Bool.false_eq_true, if_false] at h
  obtain ⟨plain, hp, h⟩ := bind_eq_ok_iff.mp h
  cases plain with
  | true => exact hplain (isIdentifier_eq_true_iff.mp hp)
  | false =>
    obtain ⟨kind, hkind, h⟩ := bind_eq_ok_iff.mp h
    split at h
    · next htext =>
      obtain ⟨argument, hargument, h⟩ := bind_eq_ok_iff.mp h
      obtain ⟨inner, hinner, h⟩ := bind_eq_ok_iff.mp h
      cases inner with
      | false => cases h
      | true =>
        cases p with
        | obj fields =>
          cases hkind
          cases hargument
          exact hrest ⟨htext, isIdentifier_eq_true_iff.mp hinner⟩
        | _ => cases hkind
    · cases h

/-- Nothing may stand after the parameter that takes the rest. -/
theorem readParameters_after_rest {found : Parameters} :
    readParameters ⟨known, .str name⟩ others = .ok (some found) ↔
      others = [] ∧ found = ⟨known, .str name⟩ := by
  cases others with
  | nil =>
    rw [readParameters]
    simp [eq_comm]
  | cons p others =>
    rw [readParameters]
    simp [Value.isNull]

end Reading

/-- Reading parameters gives the names of a row, and nothing where they do not form one. -/
theorem readParameters_eq_some_iff {written : List Value}
    (h : ∀ p ∈ written, HasTextName p ∧ HasTextName (fieldOf p "argument")) (known : List Value)
    {found : Parameters} :
    readParameters ⟨known, .null⟩ written = .ok (some found) ↔
      ∃ names last, NameRow "RestElement" written names last ∧
        found = ⟨known ++ names.map .str, last.elim .null .str⟩ := by
  -- Along the parameters; a name moves from the row to those that are known.
  induction written generalizing known with
  | nil =>
    rw [readParameters, Except.ok.injEq, Option.some.injEq]
    constructor
    · rintro rfl
      exact ⟨[], none, .nil, by simp⟩
    · rintro ⟨names, last, row, rfl⟩
      cases row
      simp
  | cons p others ih =>
    obtain ⟨hname, hargument⟩ := h p List.mem_cons_self
    have hothers := ih fun q hq => h q (List.mem_cons_of_mem _ hq)
    by_cases hplain : isKind p "Identifier" = true
    · obtain ⟨name, hname⟩ := hname hplain
      rw [readParameters_named known others ⟨hplain, hname⟩, hothers]
      constructor
      · rintro ⟨names, last, row, rfl⟩
        exact ⟨name :: names, last, .cons ⟨hplain, hname⟩ row, by simp⟩
      · rintro ⟨names, last, row, rfl⟩
        cases row with
        | last holds => exact absurd (isKind_unique hplain holds) (by decide)
        | cons named row =>
          cases hname.symm.trans named.2
          exact ⟨_, last, row, by simp⟩
    · by_cases hrest : isKind p "RestElement" = true ∧ isKind (fieldOf p "argument") "Identifier" = true
      · obtain ⟨name, hname⟩ := hargument hrest.2
        rw [readParameters_rest known others hrest.1 ⟨hrest.2, hname⟩, readParameters_after_rest]
        constructor
        · rintro ⟨rfl, rfl⟩
          exact ⟨[], some name, .last hrest.1 ⟨hrest.2, hname⟩, by simp⟩
        · rintro ⟨names, last, row, rfl⟩
          cases row with
          | last holds named =>
            cases hname.symm.trans named.2
            exact ⟨rfl, by simp⟩
          | cons named => exact absurd named.1 hplain
      · refine ⟨fun hfound => absurd hfound (readParameters_other known others hplain hrest), ?_⟩
        rintro ⟨names, last, row, rfl⟩
        cases row with
        | last holds named => exact absurd ⟨holds, named.1⟩ hrest
        | cons named => exact absurd named.1 hplain

/-! ## Arguments -/

/-- Names are compared with as many arguments as there are names. -/
theorem passesNames_eq_true_iff {names : List String} {front : List Value} (back : List Value)
    (h : names.length = front.length) :
    passesNames (names.map .str) (front ++ back) = .ok true ↔ List.Forall₂ Named front names := by
  induction names generalizing front with
  | nil =>
    rw [List.eq_nil_of_length_eq_zero h.symm]
    simp [passesNames]
  | cons name names ih =>
    cases front with
    | nil => cases h
    | cons argument front =>
      have hrest := ih (Nat.succ.inj h)
      rw [List.map_cons, List.cons_append, passesNames, List.forall₂_cons, ← hrest,
        ← isIdentifierNamed_eq_true_iff]
      cases isIdentifierNamed argument (.str name) with
      | error fault => simp
      | ok named => cases named <;> simp

theorem last_append (front : List Value) (v : Value) : (Value.arr (front ++ [v])).last = .ok v := by
  have hplace : Value.place? (front.length + 1) (-1) = some front.length := by
    rw [Value.place?, if_neg (by decide), if_pos (by omega)]
    congr 1
    omega
  simp [Value.last, Value.item, Value.elements, hplace]

/-- The value that holds the last name is read off its kind and its argument. -/
theorem holds_last_iff {v : Value} {name : String} :
    (do if (← v.get "type").isText "SpreadElement" then
          isIdentifierNamed (← v.get "argument") (.str name)
        else return false) = Except.ok true ↔
      isKind v "SpreadElement" = true ∧ Named (fieldOf v "argument") name := by
  cases v with
  | obj fields =>
    simp only [Value.get, ok_bind, isText_type, fieldOf_obj, ← isIdentifierNamed_eq_true_iff]
    cases isKind (.obj fields) "SpreadElement" with
    | false => simp
    | true => simp
  | _ => simp [Value.get, isKind]

/-- The arguments pass on parameters of the given names when they form a row of these names. -/
theorem passesParameters_eq_true_iff {names : List String} {last : Option String}
    {arguments : List Value} :
    passesParameters ⟨names.map .str, last.elim .null .str⟩ (.arr arguments) = .ok true ↔
      NameRow "SpreadElement" arguments names last := by
  cases last with
  | none =>
    rw [nameRow_none_iff]
    by_cases hcount : arguments.length = names.length
    · rw [← passesNames_eq_true_iff [] hcount.symm, List.append_nil]
      simp only [passesParameters, Value.size, Value.elements, ok_bind, Option.elim_none, Value.isNull,
        List.length_map, hcount]
      cases passesNames (names.map .str) arguments with
      | error fault => simp
      | ok passed => cases passed <;> simp
    · refine iff_of_false ?_ fun h => hcount h.length_eq
      simp [passesParameters, Value.size, Value.isNull, hcount]
  | some name =>
    by_cases hcount : arguments.length = names.length + 1
    · obtain ⟨front, v, rfl⟩ : ∃ front v, arguments = front ++ [v] :=
        ⟨arguments.dropLast, arguments.getLast (List.ne_nil_of_length_eq_add_one hcount),
          (List.dropLast_concat_getLast _).symm⟩
      have hfront : names.length = front.length := by simpa using hcount.symm
      rw [nameRow_append_iff, ← passesNames_eq_true_iff [v] hfront, ← holds_last_iff]
      simp only [passesParameters, Value.size, Value.elements, ok_bind, Option.elim_some, Value.isNull,
        List.length_map, hcount, last_append]
      cases passesNames (names.map .str) (front ++ [v]) with
      | error fault => simp
      | ok passed => cases passed <;> simp
    · refine iff_of_false ?_ fun h => ?_
      · simp [passesParameters, Value.size, Value.isNull, hcount]
      · obtain ⟨front, v, rfl, hfront, -⟩ := nameRow_some_iff.mp h
        exact hcount (by simp [hfront.length_eq])

/-! ## The call in a body -/

/-- The expression is another one, awaited, chained or in parentheses any number of times. -/
inductive Layered (inner : Value) : Value → Prop
  /-- No layer is left. -/
  | bare : Layered inner inner
  /-- A layer that waits. -/
  | await {v : Value} (kind : isKind v "AwaitExpression" = true)
      (rest : Layered inner (fieldOf v "argument")) : Layered inner v
  /-- A layer around a chain. -/
  | chain {v : Value} (kind : isKind v "ChainExpression" = true)
      (rest : Layered inner (fieldOf v "expression")) : Layered inner v
  /-- A layer of parentheses. -/
  | parentheses {v : Value} (kind : isKind v "ParenthesizedExpression" = true)
      (rest : Layered inner (fieldOf v "expression")) : Layered inner v

/-- The statement is a call in layers: as an expression of its own or as the value returned. -/
inductive CallStatement (call : Value) : Value → Prop
  /-- The call is made. -/
  | made {v : Value} (kind : isKind v "ExpressionStatement" = true)
      (layers : Layered call (fieldOf v "expression")) : CallStatement call v
  /-- The call is made, and its value returned. -/
  | returned {v : Value} (kind : isKind v "ReturnStatement" = true)
      (layers : Layered call (fieldOf v "argument")) : CallStatement call v

/-- The function's body is a block of one statement, and the statement is the call. -/
structure BodyCall (function call : Value) : Prop where
  isCall : isKind call "CallExpression" = true
  block : isKind (fieldOf function "body") "BlockStatement" = true
  only : ∃ statement, fieldOf (fieldOf function "body") "body" = .arr [statement] ∧
    CallStatement call statement

theorem exists_fields_of_isKind {v : Value} {kind : String} (h : isKind v kind = true) :
    ∃ fields, v = .obj fields ∧ Fields.get fields "type" = .str kind := by
  obtain ⟨fields, _, rfl, _⟩ := isNode_iff.mp (isNode_of_isKind h)
  exact ⟨fields, rfl, isKind_obj_iff.mp h⟩

/-- A layer is taken off. -/
theorem unwrap_of_layer {layers : Layers} {v : Value} {kind field : String} (hkind : isKind v kind = true)
    (hlayer : layers.lookup kind = some field) : unwrap layers v = unwrap layers (fieldOf v field) := by
  obtain ⟨fields, rfl, htype⟩ := exists_fields_of_isKind hkind
  rw [unwrap, htype]
  simp only [hlayer, fieldOf_obj]

theorem layered_of_layer {v inner : Value} {kind field : String} (hkind : isKind v kind = true)
    (hlayer : callLayers.lookup kind = some field) (h : Layered inner (fieldOf v field)) :
    Layered inner v := by
  have hall : ∀ layer ∈ callLayers, layer = ("AwaitExpression", "argument") ∨
      layer = ("ChainExpression", "expression") ∨ layer = ("ParenthesizedExpression", "expression") := by
    decide
  rcases hall _ (mem_of_layer hlayer) with heq | heq | heq
  · cases heq
    exact .await hkind h
  · cases heq
    exact .chain hkind h
  · cases heq
    exact .parentheses hkind h

theorem layered_of_unwrap {v inner : Value} (h : unwrap callLayers v = .ok inner) : Layered inner v := by
  fun_induction unwrap callLayers v with
  | case1 =>
    cases h
    exact .bare
  | case2 fields kind hkind field hlayer ih =>
    exact layered_of_layer (isKind_obj_iff.mpr hkind) hlayer (ih h)
  | case3 =>
    cases h
    exact .bare
  | case4 | case5 | case6 => cases h
  | case7 =>
    cases h
    exact .bare
  | case8 => cases h

/-- The layers around a call are exactly those that are taken off. -/
theorem unwrap_callLayers_eq_iff {v call : Value} (hcall : isKind call "CallExpression" = true) :
    unwrap callLayers v = .ok call ↔ Layered call v := by
  refine ⟨layered_of_unwrap, fun h => ?_⟩
  induction h with
  | bare =>
    obtain ⟨fields, rfl, htype⟩ := exists_fields_of_isKind hcall
    rw [unwrap, htype]
    rfl
  | await kind _ ih =>
    have hlayer : callLayers.lookup "AwaitExpression" = some "argument" := by decide
    rw [unwrap_of_layer kind hlayer, ih]
  | chain kind _ ih =>
    have hlayer : callLayers.lookup "ChainExpression" = some "expression" := by decide
    rw [unwrap_of_layer kind hlayer, ih]
  | parentheses kind _ ih =>
    have hlayer : callLayers.lookup "ParenthesizedExpression" = some "expression" := by decide
    rw [unwrap_of_layer kind hlayer, ih]

/-- The call inside all layers is the one that is found under them. -/
theorem call_of_layers_iff {v call : Value} :
    (do let inner ← unwrap callLayers v
        if isKind inner "CallExpression" then return some inner else return none) =
        Except.ok (some call) ↔
      isKind call "CallExpression" = true ∧ Layered call v := by
  constructor
  · intro h
    obtain ⟨inner, hinner, h⟩ := bind_eq_ok_iff.mp h
    split at h
    · next hcall =>
      cases h
      exact ⟨hcall, layered_of_unwrap hinner⟩
    · cases h
  · rintro ⟨hcall, h⟩
    rw [(unwrap_callLayers_eq_iff hcall).mpr h, ok_bind, if_pos hcall]
    rfl

/-- The call that a statement consists of is the one that is found in it. -/
theorem statementCall_eq_some_iff {statement call : Value} :
    statementCall statement = .ok (some call) ↔
      isKind call "CallExpression" = true ∧ CallStatement call statement := by
  cases statement with
  | obj fields =>
    simp only [statementCall, isText_type]
    by_cases hmade : isKind (.obj fields) "ExpressionStatement" = true
    · rw [if_pos hmade]
      refine call_of_layers_iff.trans (and_congr_right fun _ => ⟨.made hmade, fun h => ?_⟩)
      cases h with
      | made _ layers => exact layers
      | returned hkind => exact absurd (isKind_unique hmade hkind) (by decide)
    · by_cases hreturned : isKind (.obj fields) "ReturnStatement" = true
      · rw [if_neg hmade, if_pos hreturned]
        refine call_of_layers_iff.trans (and_congr_right fun _ => ⟨.returned hreturned, fun h => ?_⟩)
        cases h with
        | made hkind => exact absurd hkind hmade
        | returned _ layers => exact layers
      · rw [if_neg hmade, if_neg hreturned]
        refine iff_of_false (by simp) ?_
        rintro ⟨-, hkind | hkind⟩
        · exact hmade hkind
        · exact hreturned hkind
  | _ =>
    refine iff_of_false (by simp [statementCall]) ?_
    rintro ⟨-, hkind | hkind⟩
    · cases hkind
    · cases hkind

theorem CallStatement.exists_fields {call statement : Value} (h : CallStatement call statement) :
    ∃ fields, statement = .obj fields := by
  rcases h with hkind | hkind
  · exact (exists_fields_of_isKind hkind).imp fun _ h => h.1
  · exact (exists_fields_of_isKind hkind).imp fun _ h => h.1

/-- The search for the call that is a function's whole body finds exactly that call. -/
theorem bodyCall_iff {function call : Value} :
    BodyCall function call ↔ ∃ statement, soleStatement function = .ok (some statement) ∧
      statementCall statement = .ok (some call) := by
  constructor
  · rintro ⟨hcall, hblock, statement, honly, hstatement⟩
    obtain ⟨fields, rfl⟩ := hstatement.exists_fields
    exact ⟨_, soleStatement_eq_some_iff.mpr ⟨hblock, honly⟩,
      statementCall_eq_some_iff.mpr ⟨hcall, hstatement⟩⟩
  · rintro ⟨statement, hsole, hfound⟩
    obtain ⟨hcall, hstatement⟩ := statementCall_eq_some_iff.mp hfound
    obtain ⟨fields, rfl⟩ := hstatement.exists_fields
    obtain ⟨hblock, honly⟩ := soleStatement_eq_some_iff.mp hsole
    exact ⟨hcall, hblock, _, honly, hstatement⟩

theorem BodyCall.unique {function call other : Value} (h : BodyCall function call)
    (hother : BodyCall function other) : call = other := by
  obtain ⟨statement, hsole, hcall⟩ := bodyCall_iff.mp h
  obtain ⟨statement', hsole', hcall'⟩ := bodyCall_iff.mp hother
  cases hsole.symm.trans hsole'
  cases hcall.symm.trans hcall'
  rfl

/-! ## Passing parameters on -/

/-- The arguments are the parameters, in order: the same names, and the rest where the rest was taken. -/
def PassesOn (params arguments : List Value) : Prop :=
  ∃ names last, NameRow "RestElement" params names last ∧ NameRow "SpreadElement" arguments names last

/-- Reading the parameters and comparing the arguments with them tells whether they are passed on. -/
theorem reads_and_passes_iff {params arguments : List Value}
    (h : ∀ p ∈ params, HasTextName p ∧ HasTextName (fieldOf p "argument")) :
    (∃ found, readParameters ⟨[], .null⟩ params = .ok (some found) ∧
      passesParameters found (.arr arguments) = .ok true) ↔ PassesOn params arguments := by
  constructor
  · rintro ⟨found, hfound, hpasses⟩
    obtain ⟨names, last, row, rfl⟩ := (readParameters_eq_some_iff h []).mp hfound
    exact ⟨names, last, row, passesParameters_eq_true_iff.mp hpasses⟩
  · rintro ⟨names, last, row, passed⟩
    exact ⟨_, (readParameters_eq_some_iff h []).mpr ⟨names, last, row, rfl⟩,
      passesParameters_eq_true_iff.mpr passed⟩

theorem orEmpty_arr (items : List Value) : (Value.arr items).orEmpty = .arr items := by
  cases items <;> rfl

/-- Of a function whose body is a call, it is asked whether the call passes the parameters on. -/
theorem forwardsParameters_of_bodyCall {function call : Value} {params arguments : List Value}
    (hcall : BodyCall function call) (hparams : fieldOf function "params" = .arr params)
    (harguments : fieldOf call "arguments" = .arr arguments) :
    forwardsParameters function = (do
      let found ← readParameters ⟨[], .null⟩ params
      found.elim (.ok false) fun parameters => passesParameters parameters (.arr arguments)) := by
  obtain ⟨statement, hsole, hstatement⟩ := bodyCall_iff.mp hcall
  obtain ⟨fields, rfl, -⟩ := exists_fields_of_isKind hcall.isCall
  cases function with
  | obj outer =>
    rw [fieldOf_obj] at hparams harguments
    simp only [forwardsParameters, hsole, hstatement, Value.get, ok_bind, hparams, harguments, orEmpty_arr,
      Value.elements]
    refine bind_congr fun found => ?_
    cases found <;> rfl
  | _ => cases hparams

/-- If the body is no call, parameters are not passed on. -/
theorem exists_bodyCall_of_forwardsParameters {function : Value}
    (h : forwardsParameters function = .ok true) : ∃ call, BodyCall function call := by
  obtain ⟨found, hsole, h⟩ := bind_eq_ok_iff.mp h
  cases found with
  | none => cases h
  | some statement =>
    obtain ⟨found, hcall, h⟩ := bind_eq_ok_iff.mp h
    cases found with
    | none => cases h
    | some call => exact ⟨call, bodyCall_iff.mpr ⟨statement, hsole, hcall⟩⟩

/-- Exactly the functions whose body is one call with the parameters for its arguments, in order, are said
to pass their parameters on; of every other function it is said that it does not. -/
theorem forwardsParameters_iff_passesOn (function : Value) (params : List Value)
    (hparams : fieldOf function "params" = .arr params)
    (hnames : ∀ p ∈ params, HasTextName p ∧ HasTextName (fieldOf p "argument"))
    (hcalls : ∀ call, BodyCall function call → ∃ arguments, fieldOf call "arguments" = .arr arguments) :
    (forwardsParameters function = .ok true ↔ ∃ call arguments, BodyCall function call ∧
      fieldOf call "arguments" = .arr arguments ∧ PassesOn params arguments) ∧
    (Estree function → IsFunction function → forwardsParameters function ≠ .ok true →
      forwardsParameters function = .ok false) := by
  refine ⟨⟨fun h => ?_, ?_⟩, fun hestree hfunction hno => ?_⟩
  · obtain ⟨call, hcall⟩ := exists_bodyCall_of_forwardsParameters h
    obtain ⟨arguments, harguments⟩ := hcalls call hcall
    refine ⟨call, arguments, hcall, harguments, (reads_and_passes_iff hnames).mp ?_⟩
    rw [forwardsParameters_of_bodyCall hcall hparams harguments] at h
    obtain ⟨found, hfound, h⟩ := bind_eq_ok_iff.mp h
    cases found with
    | none => cases h
    | some parameters => exact ⟨parameters, hfound, h⟩
  · rintro ⟨call, arguments, hcall, harguments, hpasses⟩
    obtain ⟨parameters, hfound, hpassed⟩ := (reads_and_passes_iff hnames).mpr hpasses
    rw [forwardsParameters_of_bodyCall hcall hparams harguments, hfound]
    exact hpassed
  · obtain ⟨answer, hanswer⟩ := exists_forwardsParameters hestree hfunction
    cases answer with
    | true => exact absurd hanswer hno
    | false => exact hanswer

/-- `async function (a, b, ...r) { return await f?.(a, b, ...r); }` passes its parameters on, and with `b`
and `a` exchanged in the call it does not. -/
theorem forwardsParameters_iff_passesOn_rest :
    let node (kind : String) (fields : Fields) : Value := .obj (("type", .str kind) :: fields)
    let name (text : String) : Value := node "Identifier" [("name", .str text)]
    let held (kind : String) : Value := node kind [("argument", name "r")]
    let call (first second : String) : Value := node "CallExpression"
      [("arguments", .arr [name first, name second, held "SpreadElement"])]
    let statement (first second : String) : Value := node "ReturnStatement" [("argument",
      node "AwaitExpression" [("argument", node "ChainExpression" [("expression", call first second)])])]
    let function (first second : String) : Value := node "FunctionDeclaration"
      [("params", .arr [name "a", name "b", held "RestElement"]),
        ("body", node "BlockStatement" [("body", .arr [statement first second])])]
    forwardsParameters (function "a" "b") = .ok true ∧
      forwardsParameters (function "b" "a") = .ok false := by
  intro node name held call statement function
  have hcall : ∀ first second, BodyCall (function first second) (call first second) := fun _ _ =>
    ⟨rfl, rfl, _, rfl, .returned rfl (.await rfl (.chain rfl .bare))⟩
  have hcalls : ∀ first second other, BodyCall (function first second) other →
      ∃ arguments, fieldOf other "arguments" = .arr arguments := fun first second other hother =>
    (hcall first second).unique hother ▸ ⟨_, rfl⟩
  have hnames : ∀ p ∈ [name "a", name "b", held "RestElement"],
      HasTextName p ∧ HasTextName (fieldOf p "argument") := by
    have hname : ∀ text, HasTextName (name text) ∧ HasTextName (fieldOf (name text) "argument") :=
      fun text => ⟨fun _ => ⟨text, rfl⟩, nofun⟩
    have hheld : HasTextName (held "RestElement") ∧ HasTextName (fieldOf (held "RestElement") "argument") :=
      ⟨fun hkind => absurd hkind (by decide), (hname "r").1⟩
    simp only [List.forall_mem_cons, List.not_mem_nil, false_implies, implies_true, and_true]
    exact ⟨hname "a", hname "b", hheld⟩
  have hverdict := fun first second =>
    forwardsParameters_iff_passesOn (function first second) _ rfl hnames (hcalls first second)
  constructor
  · refine (hverdict "a" "b").1.mpr ⟨_, _, hcall "a" "b", rfl, ["a", "b"], some "r", ?_, ?_⟩
    · exact .cons ⟨rfl, rfl⟩ (.cons ⟨rfl, rfl⟩ (.last rfl ⟨rfl, rfl⟩))
    · exact .cons ⟨rfl, rfl⟩ (.cons ⟨rfl, rfl⟩ (.last rfl ⟨rfl, rfl⟩))
  · refine (hverdict "b" "a").2 (by decide +kernel) ⟨_, List.mem_cons_self, rfl⟩ fun hyes => ?_
    obtain ⟨other, arguments, hother, harguments, names, last, hparams, hpassed⟩ :=
      (hverdict "b" "a").1.mp hyes
    cases (hcall "b" "a").unique hother
    cases harguments
    cases hparams with
    | cons hfirst _ =>
      cases hpassed with
      | cons hpassed _ =>
        have hsame : Value.str "a" = .str "b" := hfirst.2.trans hpassed.2.symm
        exact absurd (Value.str.inj hsame) (by decide)

end TreeLint.Syntax

/-
  Runs on renamed programs.

  What the rules look at in a program are forms, kinds and positions, and which names are the same.  A
  renaming keeps all of it, so that the run on a renamed program ends as the run on the program does, as
  long as identifiers are what names things and positions hold none.  Without that it need not.
-/
import TreeLint.Proofs.Likeness.Rules
import TreeLint.Proofs.Renaming

set_option autoImplicit false

namespace TreeLint

open TreeLint.Json TreeLint.Syntax TreeLint.Source

/-! ## Names -/

/-- The second name is the first one after the renaming. -/
def RenamedName (ρ : Renaming) (a b : Value) : Prop :=
  PlainNames a ∧ b = ρ.name (ρ.rename a)

section Names

variable {ρ : Renaming} {a b : Value}

theorem RenamedName.isNull_eq (h : RenamedName ρ a b) : a.isNull = b.isNull := by
  obtain ⟨_, rfl⟩ := h
  cases a <;> rfl

/-- Names are the same before and after a renaming. -/
theorem RenamedName.same_eq (h : RenamedName ρ a b) {c d : Value} (h' : RenamedName ρ c d) :
    a.same c = b.same d := by
  obtain ⟨hplain, rfl⟩ := h
  obtain ⟨_, rfl⟩ := h'
  rw [ρ.same_name, ρ.same_rename hplain]

/-- The name of an identifier is renamed. -/
theorem Renamed.lookup_identifier {fs gs : Fields} (h : Renamed ρ (.obj fs) (.obj gs))
    (hkind : isIdentifier (.obj fs) = .ok true) :
    Option.Rel (RenamedName ρ) (fs.lookup "name") (gs.lookup "name") := by
  have hname : isName (.obj fs) = true := by
    rw [isName, isKind, Except.ok.inj hkind, Bool.true_or]
  obtain ⟨hplain, heq⟩ := h
  cases heq
  rw [ρ.lookup_renameFields, hname]
  cases hlookup : fs.lookup "name" with
  | none => exact .none
  | some value =>
    obtain ⟨_, _, _, _, hfields⟩ := plainNames_obj_iff.mp hplain
    exact .some ⟨hfields _ (mem_of_lookup_eq_some hlookup), rfl⟩

end Names

/-! ## What the rules see -/

/-- Equal values are of the same form. -/
theorem sameForm_refl (v : Value) : SameForm (· = ·) v v := by
  cases v with
  | arr items => exact .arr (List.forall₂_same.mpr fun _ _ => rfl)
  | obj fields => exact .obj Iff.rfl
  | _ => exact .plain rfl

theorem Renamed.length_eq {ρ : Renaming} {fs gs : Fields} (h : Renamed ρ (.obj fs) (.obj gs)) :
    fs.length = gs.length := by
  obtain ⟨_, heq⟩ := h
  cases heq
  rw [ρ.renameFields_eq, List.length_map]

/-- No rule about functions or single statements can tell a value from the renamed value, places
included. -/
theorem ruleLikeness_renamed (ρ : Renaming) : RuleLikeness (RenamedName ρ) (· = ·) (Renamed ρ) where
  form h := h.form
  field h key hkey := h.field key hkey.1
  kind := by decide
  length h := h.length_eq
  empty := ⟨rfl, rfl⟩
  text s := Renamed.of_plain rfl
  named h hkind := h.lookup_identifier hkind
  names := ⟨⟨rfl, rfl⟩, RenamedName.isNull_eq, fun h h' => h.same_eq h'⟩
  places := ⟨fun h => h ▸ sameForm_refl _, fun _ => rfl⟩
  location {v w} h := by
    rw [h.place.1]
    generalize ownLocation? w = outcome
    match outcome with
    | .error fault => exact .error fault
    | .ok none => exact .ok .none
    | .ok (some location) => exact .ok (.some ⟨rfl, rfl⟩)
  span {v w} h := by
    rw [h.place.2]
    generalize span w = outcome
    match outcome with
    | .error fault => exact .error fault
    | .ok none => exact .ok .none
    | .ok (some s) => exact .ok (.some ⟨rfl, rfl⟩)

/-! ## Ways back -/

/-- The value is renamed, as the name of an identifier or as anything else. -/
def RenamedPart (ρ : Renaming) (v w : Value) : Prop :=
  w = ρ.rename v ∨ w = ρ.name (ρ.rename v)

theorem renamedPart_inField (ρ : Renaming) (named : Bool) (key : String) (v : Value) :
    RenamedPart ρ v (ρ.inField named key (ρ.rename v)) := by
  unfold Renaming.inField
  split
  · exact .inr rfl
  · exact .inl rfl

/-- Nothing but a text is renamed in another way as a name. -/
theorem RenamedPart.eq_rename {ρ : Renaming} {v w : Value} (h : RenamedPart ρ v w)
    (hv : v.text? = none) : w = ρ.rename v := by
  rcases h with h | h
  · exact h
  · rw [h, ρ.rename_name hv]

theorem RenamedPart.kind?_eq {ρ : Renaming} {v w : Value} (h : RenamedPart ρ v w) :
    kind? w = kind? v := by
  rcases h with rfl | rfl
  · exact ρ.kind?_rename v
  · rw [ρ.kind?_name, ρ.kind?_rename]

/-- What stands at a place of a document is renamed with it. -/
theorem at?_rename (ρ : Renaming) (root : Value) (path : Path) :
    Option.Rel (RenamedPart ρ) (at? root path) (at? (ρ.rename root) path) := by
  induction path with
  | nil => exact .some (.inl rfl)
  | cons step above ih =>
    unfold at?
    generalize at? root above = a at ih ⊢
    generalize at? (ρ.rename root) above = b at ih ⊢
    cases ih with
    | none => exact .none
    | @some v w related =>
      cases v with
      | obj fields =>
        -- The way goes on from objects and lists only, and these are renamed as they are anywhere.
        rw [related.eq_rename rfl, Renaming.rename]
        dsimp only
        rw [ρ.lookup_renameFields]
        cases fields.lookup step.field with
        | none => cases step.index <;> exact .none
        | some value =>
          have hvalue := renamedPart_inField ρ (isName (.obj fields)) step.field value
          rw [Option.map_some]
          generalize ρ.inField (isName (.obj fields)) step.field (ρ.rename value) = renamed at hvalue ⊢
          cases step.index with
          | none => exact .some hvalue
          | some i =>
            cases value with
            | arr items =>
              rw [hvalue.eq_rename rfl, ρ.rename_arr]
              dsimp only
              rw [List.getElem?_map]
              cases items[i]? with
              | none => exact .none
              | some item => exact .some (.inl rfl)
            | _ => rcases hvalue with rfl | rfl <;> exact .none
      | _ => rcases related with rfl | rfl <;> exact .none

/-- A function is what an export declares when the renamed function is. -/
theorem isExportedDirectly_eq {ρ : Renaming} {v w : Value} (h : Renamed ρ v w) (root : Value)
    (path : Path) :
    isExportedDirectly (ρ.rename root) path w = isExportedDirectly root path v := by
  symm
  refine ((likeness_renamed ρ).get_like h parentField (by decide)).bind_eq fun a b hab => ?_
  cases hab.form with
  | @plain a hplain =>
    cases a with
    | link above =>
      have hpart := rel_getD (at?_rename ρ root above) (c := .null) (d := .null) (.inl rfl)
      dsimp only
      rw [isKind_congr hpart.kind?_eq, isKind_congr hpart.kind?_eq]
    | obj => cases hplain
    | _ => rfl
  | arr => rfl
  | obj => rfl

/-! ## Runs -/

namespace Rule

/-- What a rule sees of a file whose names are renamed. -/
def Context.renamed (context : Context) (ρ : Renaming) : Context :=
  { context with bindings := ρ.table context.bindings }

variable {ρ : Renaming}

/-- Rows of diagnostics that say the same at the same places are the same. -/
theorem eq_of_likeDiagnostics {x y : Except Fault (List Diagnostic)}
    (h : Both (List.Forall₂ (LikeDiagnostics (· = ·))) x y) : x = y := by
  cases h with
  | error fault => rfl
  | ok hrows => exact congrArg Except.ok (List.forall₂_eq_eq_eq ▸ hrows.imp fun _ _ h => h.eq)

theorem likeContexts_renamed (context : Context) :
    LikeContexts (· = ·) (Renamed ρ) context (context.renamed ρ) :=
  likeContexts_of_eq (fun _ => rfl) fun _ _ h => (likeness_renamed ρ).checkExports_eq h context

/-- The rules report the same over a tree and over the renamed tree. -/
theorem checkVisits_renamed (contexts : List Context) {root : Value} (h : PlainNames root) :
    checkVisits (contexts.map (·.renamed ρ)) (ρ.rename root) (preorder [] (ρ.rename root)) =
      checkVisits contexts root (preorder [] root) := by
  have hcontexts : List.Forall₂ (LikeContexts (· = ·) (Renamed ρ)) contexts
      (contexts.map (·.renamed ρ)) := by
    rw [List.forall₂_map_right_iff, List.forall₂_same]
    exact fun context _ => likeContexts_renamed context
  have hvisits : List.Forall₂ (LikeVisits (Renamed ρ) root (ρ.rename root)) (preorder [] root)
      (preorder [] (ρ.rename root)) := by
    refine (Renamed.preorder_like (ρ := ρ) ⟨h, rfl⟩ []).imp ?_
    rintro ⟨path, v⟩ ⟨_, w⟩ ⟨rfl, hvw⟩
    exact ⟨hvw, (isExportedDirectly_eq hvw root path).symm⟩
  exact (eq_of_likeDiagnostics ((ruleLikeness_renamed ρ).checkVisits_like hcontexts hvisits)).symm

/-- Diagnostics do not depend on how things are called.  On a program with plain names, a run after a
renaming of all identifiers, and of the names in the table of bindings, has the outcome of the run
before: the same diagnostics in the same order, or the same fault. -/
theorem run_renamed (ρ : Renaming) (engine : Engine) (program text bindings : Value)
    (h : PlainNames program) :
    engine.run (ρ.rename program) text (ρ.table bindings) = engine.run program text bindings := by
  have hcontexts : ∀ options, engine.contexts options text (ρ.table bindings) =
      (engine.contexts options text bindings).map (·.renamed ρ) := by
    intro options
    simp only [Engine.contexts, List.map_map]
    rfl
  have hchecked : Both (fun _ _ => True) (checkedEdges program) (checkedEdges (ρ.rename program)) :=
    (likeness_renamed ρ).checkedEdges_like ⟨h, rfl⟩
  unfold Engine.run
  congr 1
  funext options
  rw [walk_eq, walk_eq, bind_assoc, bind_assoc]
  symm
  refine hchecked.bind_eq fun _ _ _ => ?_
  rw [ok_bind, ok_bind, hcontexts, checkVisits_renamed _ h]

/-- `export function f(x) { return g(x); }`, linked: the function only passes its parameter on, whatever
the parameter is called. -/
theorem run_renamed_wrapper :
    let ρ : Renaming := .swap "x" "y" rfl
    let identifier (name : String) : Value := .obj [("type", .str "Identifier"), ("name", .str name)]
    let call : Value := .obj [("type", .str "CallExpression"), ("callee", identifier "g"),
      ("arguments", .arr [identifier "x"])]
    let block : Value := .obj [("type", .str "BlockStatement"),
      ("body", .arr [.obj [("type", .str "ReturnStatement"), ("argument", call)]])]
    let function : Value := .obj [("type", .str "FunctionDeclaration"), ("id", identifier "f"),
      ("params", .arr [identifier "x"]), ("body", block)]
    let tree : Value := .obj [("type", .str "Program"), ("body", .arr [
      .obj [("type", .str "ExportNamedDeclaration"), ("declaration", function)]])]
    let engine : Engine := ⟨[.noEmptyWrappers, .exportCodeLast], .null, false⟩
    ∃ program, linkTree tree = .ok program ∧ PlainNames program ∧
      ((engine.run program .null (.obj [("x", .arr [])])).toOption.map List.length = some 1) ∧
      engine.run (ρ.rename program) .null (.obj [("y", .arr [])]) =
        engine.run program .null (.obj [("x", .arr [])]) := by
  intro ρ identifier call block function tree engine
  have hplain : PlainNames (linkNode [] .null [("type", .str "Program"), ("body", .arr [
      .obj [("type", .str "ExportNamedDeclaration"), ("declaration", function)]])]) := by
    decide +kernel
  refine ⟨_, rfl, hplain, by decide +kernel, ?_⟩
  exact run_renamed ρ engine _ .null (.obj [("x", .arr [])]) hplain

/-- Without plain names a renaming can be seen.  In the first program the function gets its name from a
node that is no identifier, so that the renaming parts it from the variable of the same name.  In the
second one the line of a statement is an identifier. -/
theorem run_of_stray_names_changes :
    let ρ : Renaming := .swap "x" "y" rfl
    let identifier (position : Fields) : Value :=
      .obj ([("type", .str "Identifier"), ("name", .str "x")] ++ position)
    let shared : Value := .obj [("type", .str "Program"), ("body", .arr [
      .obj [("type", .str "FunctionDeclaration"),
        ("id", .obj [("type", .str "Foo"), ("name", .str "x")])],
      .obj [("type", .str "VariableDeclaration"), ("declarations", .arr [
        .obj [("type", .str "VariableDeclarator"), ("id", identifier [])]])],
      .obj [("type", .str "ExpressionStatement"),
        ("expression", identifier [("start", .int 30), ("end", .int 31)])],
      .obj [("type", .str "ExportDefaultDeclaration"), ("start", .int 33), ("end", .int 50),
        ("declaration", identifier [])]])]
    let placed : Value := .obj [("type", .str "Program"), ("body", .arr [
      .obj [("type", .str "SwitchStatement"), ("start", .int 0), ("end", .int 14),
        ("loc", .obj [("start", .obj [("line", identifier []), ("column", .int 0)])])]])]
    let run (rule : Rule) (program : Value) := Engine.run ⟨[rule], .null, false⟩ program .null .null
    (∃ program, linkTree shared = .ok program ∧
      run .exportCodeLast (ρ.rename program) ≠ run .exportCodeLast program) ∧
    ∃ program, linkTree placed = .ok program ∧
      run .noSwitch (ρ.rename program) ≠ run .noSwitch program := by
  intro ρ identifier shared placed run
  refine ⟨⟨_, rfl, fun heq => ?_⟩, ⟨_, rfl, fun heq => ?_⟩⟩
  · have hcount := congrArg (fun outcome => outcome.toOption.map List.length) heq
    revert hcount
    decide +kernel
  · have hline := congrArg (fun outcome => outcome.toOption.map fun found =>
      found.map fun d => (fieldOf d.location.line "name").text?) heq
    revert hline
    decide +kernel

end Rule

end TreeLint

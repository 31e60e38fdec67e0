/-
  Links from nodes to the nodes above them.

  Linking sets the field for the way back in every node of a tree: to the absent value in the root,
  to a link to the node that holds it in every other node.  Nothing else changes.  It is carried out
  in place, with a list of places whose children are still to be linked; `linkTree` says the same by
  recursion over the tree.
-/
import TreeLint.Syntax.Walk

set_option autoImplicit false

namespace TreeLint.Syntax

open TreeLint.Json

mutual

/-- The value of a child field of the node at `path`, with the nodes in it linked to that node. -/
def linkField (path : Path) (field : String) : Value → Value
  | .arr items => .arr (linkItems path field 0 items)
  | .obj fields =>
    if isNode (.obj fields) then
      .obj (Fields.put (linkFields (⟨field, none⟩ :: path) (childFields fields) fields)
        parentField (.link path))
    else .obj fields
  | v => v

/-- The items of a child field from place `i` on, with the nodes among them linked. -/
def linkItems (path : Path) (field : String) : Nat → List Value → List Value
  | _, [] => []
  | i, .obj fields :: rest =>
    (if isNode (.obj fields) then
      .obj (Fields.put (linkFields (⟨field, some i⟩ :: path) (childFields fields) fields)
        parentField (.link path))
    else .obj fields) :: linkItems path field (i + 1) rest
  | i, item :: rest => item :: linkItems path field (i + 1) rest

/-- The fields of the node at `path`, with the named ones linked to it. -/
def linkFields (path : Path) (names : List String) :
    List (String × Value) → List (String × Value)
  | [] => []
  | (name, value) :: rest =>
    (name, if names.contains name then linkField path name value else value) ::
      linkFields path names rest

end

/-- The fields of a linked node at `path`, with the way back set to `parent`. -/
def linkNode (path : Path) (parent : Value) (fields : Fields) : Value :=
  .obj (Fields.put (linkFields path (childFields fields) fields) parentField parent)

/-- The tree with every node linked to the node above it. -/
def linkTree : Value → Except Fault Value
  | .obj fields => do
    let _ ← (Fields.get fields "type").key
    return linkNode [] .null fields
  | _ => .error .unsuited

/-- The place that a path leads to. -/
def at? (root : Value) : Path → Option Value
  | [] => some root
  | step :: above =>
    match at? root above with
    | some (.obj fields) =>
      match step.index, fields.lookup step.field with
      | none, value => value
      | some i, some (.arr items) => items[i]?
      | _, _ => none
    | _ => none

/-! ## Linking in place -/

/-- What a field holds, with the item at an index changed, or all of it where there is no index. -/
def changeHeld (change : Value → Value) : Option Nat → Value → Value
  | none, held => change held
  | some i, .arr items => .arr (items.modify i change)
  | some _, held => held

/-- The value with what a step leads to changed. -/
def changeStep (change : Value → Value) (step : Step) : Value → Value
  | .obj fields =>
    match fields.lookup step.field with
    | some held => .obj (Fields.put fields step.field (changeHeld change step.index held))
    | none => .obj fields
  | v => v

/-- The tree with what a path leads to changed. -/
def changeAt (change : Value → Value) : Path → Value → Value
  | [], root => change root
  | step :: above, root => changeAt (changeStep change step) above root

/-- The node with its way back set. -/
def setParent (parent : Value) : Value → Value
  | .obj fields => .obj (Fields.put fields parentField parent)
  | v => v

/-- The places of the children of the node at a path. -/
def childPaths (root : Value) (path : Path) : List Path :=
  match at? root path with
  | some node => (edges node).map fun e => e.step :: path
  | none => []

/-- A tree that is being linked. -/
structure LinkState where
  /-- The tree as far as it is linked. -/
  root : Value
  /-- The places of the nodes whose children are still to be linked, the next one first. -/
  pending : List Path

/-- One round: the children of the next node are led back to it and become pending themselves, the
last child first. -/
def LinkState.step (state : LinkState) : LinkState :=
  match state.pending with
  | [] => state
  | path :: rest =>
    let children := childPaths state.root path
    ⟨children.foldl (fun root child => changeAt (setParent (.link path)) child root) state.root,
      children.reverse ++ rest⟩

/-- A number of rounds. -/
def LinkState.run (state : LinkState) : Nat → LinkState
  | 0 => state
  | rounds + 1 => state.step.run rounds

/-- Links a tree in place, one round for each of its nodes.  A root that cannot be asked for its
children ends it. -/
def linkParents : Value → Except Fault Value
  | .obj fields => do
    let _ ← (Fields.get fields "type").key
    let start : LinkState := ⟨setParent .null (.obj fields), [[]]⟩
    return (start.run (nodeCount (.obj fields))).root
  | _ => .error .unsuited

/-- What a node's way back leads to: the linked node, or whatever else the field holds. -/
def parentOf (root : Value) (fields : Fields) : Value :=
  match Fields.get fields parentField with
  | .link path => (at? root path).getD .null
  | other => other

end TreeLint.Syntax

/-
  The occurrences of a name.

  An occurrence is an identifier of the given name together with its role.  The search goes down
  the tree along all children that have a role, looks at all children of a node before it goes below
  the first of them, and stops below the tags of elements.
-/
import TreeLint.Syntax.Walk
import TreeLint.Usage.Role

set_option autoImplicit false

namespace TreeLint.Usage

open TreeLint.Json TreeLint.Syntax

/-- An identifier of the name that is looked for. -/
structure Occurrence where
  /-- What the identifier is there. -/
  role : Role
  /-- The way from the root to it. -/
  path : Path
  /-- The identifier. -/
  node : Value

/-- A node that the search has reached. -/
structure Place where
  /-- The way from the root to the node. -/
  path : Path
  /-- The node. -/
  node : Value
  /-- The role of the node. -/
  role : Role

/-- The children of a place that have a role. -/
def Place.children (place : Place) : List (Edge × Role) :=
  (edges place.node).filterMap fun e => (childRole place.node e place.role).map (e, ·)

/-- The place of a child. -/
def Place.child (place : Place) (e : Edge) (role : Role) : Place :=
  ⟨e.step :: place.path, e.child, role⟩

/-- The occurrence that a child is, if it is one.  Asking whether a tag stands for a variable can
end the search. -/
def Place.occurrence? (name : Value) (place : Place) (e : Edge) (role : Role) :
    Option (Except Fault Occurrence) :=
  match e.child with
  | .obj fields =>
    let spelled := (Fields.get fields "name").same name
    if isKind e.child "JSXIdentifier" then
      if spelled then
        match isTagReference place.node e with
        | .ok true => some (.ok ⟨.reference, e.step :: place.path, e.child⟩)
        | .ok false => none
        | .error fault => some (.error fault)
      else none
    else if isKind e.child "Identifier" && spelled then
      some (.ok ⟨role, e.step :: place.path, e.child⟩)
    else none
  | _ => none

/-- The occurrences among the children of a place. -/
def Place.found (name : Value) (place : Place) : List (Except Fault Occurrence) :=
  place.children.filterMap fun (e, role) => place.occurrence? name e role

/-- The places below which the search goes on. -/
def Place.next (place : Place) : List Place :=
  place.children.filterMap fun (e, role) =>
    if isKind e.child "JSXIdentifier" then none else some (place.child e role)

/-- The number of nodes in the trees at the given places. -/
def placedNodes (places : List Place) : Nat :=
  total (fun place => nodeCount place.node) places

/-- The trees below which the search goes on are trees of children. -/
theorem placedNodes_next_le (place : Place) :
    placedNodes place.next ≤ total (fun e => nodeCount e.child) (edges place.node) := by
  simp only [placedNodes, Place.next, Place.children]
  induction edges place.node with
  | nil => simp
  | cons e rest ih =>
    simp only [List.filterMap_cons, total_cons]
    cases childRole place.node e place.role with
    | none => simpa using Nat.le_trans ih (Nat.le_add_left _ _)
    | some role =>
      by_cases htag : isKind e.child "JSXIdentifier"
      · simpa [htag] using Nat.le_trans ih (Nat.le_add_left _ _)
      · simpa [htag, Place.child] using ih

/-- Going on below a place takes at least one node away. -/
theorem placedNodes_next_lt (place : Place) (rest : List Place) :
    placedNodes (place.next ++ rest) < placedNodes (place :: rest) := by
  have hle := placedNodes_next_le place
  have hcount := nodeCount_eq place.node
  simp only [placedNodes, total_append, total_cons] at *
  omega

/-- The occurrences below the given places, first place first. -/
def search (name : Value) : List Place → List (Except Fault Occurrence)
  | [] => []
  | place :: rest => place.found name ++ search name (place.next ++ rest)
termination_by places => placedNodes places
decreasing_by exact placedNodes_next_lt place rest

/-- The occurrences of a name below a root, in the order in which they are found, up to the first
that ends the search. -/
def occurrences (root name : Value) : List (Except Fault Occurrence) :=
  match checkedEdges root with
  | .error fault => [.error fault]
  | .ok _ => search name [⟨[], root, .reference⟩]

end TreeLint.Usage

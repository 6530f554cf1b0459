import BlockGraph.Node

/-!
# Reading passes

A reading pass sees the active nodes of a tree: an inactive node hides everything below it. The
handler of a pass gets a node with a computation for every child, and decides itself when to run
which of them.

* `Node.accept`: runs a handler over a tree.
* `Node.reached`: the nodes that a pass sees if every handler runs all its children in order.
-/

namespace BlockGraph.Node

variable {m : Type → Type} [Monad m] {β : Type}

/-- Runs a handler on a node unless it is inactive. The computations in the phrase are those of the
children, and give `none` for an inactive child. -/
def accept (handler : Node → Phrase (Visited (m (Option β))) → m β) : Node → m (Option β) :=
  recurse fun n p => if n.isActive then some <$> handler n p else pure none

/-- Runs the children in table order and keeps the results of the active ones. -/
def acceptChildren (p : Phrase (Visited (m (Option β)))) : m (List β) := do
  let results ← p.children.mapM (·.result)
  return results.filterMap fun r => r

/-- The active nodes below and including a node, without those below inactive ones. -/
def reached : Node → List Node :=
  recurse fun n p => if n.isActive then n :: p.children.flatMap (·.result) else []

theorem accept_eq (handler : Node → Phrase (Visited (m (Option β))) → m β) (n : Node) :
    n.accept handler =
      if n.isActive then some <$> handler n (n.phrase.map fun c => ⟨c, c.accept handler⟩)
      else pure none := by
  rw [accept, recurse_eq]

theorem reached_eq (n : Node) :
    n.reached = if n.isActive then n :: n.children.flatMap reached else [] := by
  rw [reached, recurse_eq]
  simp [children, List.flatMap_map]

end BlockGraph.Node

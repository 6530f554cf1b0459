import BlockGraph.Node.Life

/-!
# Rewriting passes

A rewriting pass sees every node of a tree, inactive ones too, and makes a new tree that shares
every unchanged subtree with the old one. Its handler gets a node with a computation for every
child and gives back something that has to be a node.

* `Node.modify`: runs a handler over a tree.
* `Node.rebuildChildren`: rewrites the children and keeps the node if none of them changed.
-/

namespace BlockGraph

/-- A computation of a rewriting pass with a state of its own, which also outlives a failure. -/
abbrev Rewriting (σ : Type) := ExceptT Error (StateT σ Fresh)

/-- What the handlers of a rewriting pass may give back. -/
class RewriteResult (ρ : Type) where
  /-- The node that a result stands for; `none` if it stands for none. -/
  node? : ρ → Except Error (Option Node)

instance : RewriteResult Node := ⟨fun n => .ok (some n)⟩
instance : RewriteResult (Option Node) := ⟨.ok⟩
instance : RewriteResult (Except Error Node) := ⟨Except.map some⟩
instance : RewriteResult Unit := ⟨fun _ => .ok none⟩
instance : RewriteResult Bool := ⟨fun _ => .ok none⟩

abbrev RewriteHandler (σ ρ : Type) := Node → Phrase (Visited (Rewriting σ Node)) → StateT σ Fresh ρ

/-- Runs a pass and gives its state beside its result. -/
def Rewriting.runFrom {σ α : Type} (x : Rewriting σ α) (start : σ) : Make (α × σ) :=
  ExceptT.mk do
    let (result, final) ← (x.run.run start : Fresh (Except Error α × σ))
    return result.map fun a => (a, final)

namespace Node

variable {σ ρ : Type}

def freshly (n : Fresh Node) : Rewriting σ Node :=
  fun s => do return (.ok (← n), s)

/-- Fails unless the result of a handler stands for a node. `n` is blamed. -/
def resultNode [RewriteResult ρ] (n : Node) (result : ρ) : Except Error Node :=
  match RewriteResult.node? result with
  | .error e => .error e
  | .ok (some node) => .ok node
  | .ok none => .error (.contract n.kind .noNode)

def modify [RewriteResult ρ] (handler : RewriteHandler σ ρ) : Node → Rewriting σ Node :=
  recurse fun n p => ExceptT.mk (n.resultNode <$> handler n p)

/-- Rewrites the children in table order. The node itself comes back if none of them changed, and
otherwise a fresh node that differs in its children only. -/
def rebuildChildren (n : Node) (p : Phrase (Visited (Rewriting σ Node))) : Rewriting σ Node := do
  if p.children.isEmpty then return n
  let rewritten ← p.mapChildren n.label fun c => do
    let next ← c.result
    return (next, next.isSame c.node)
  if rewritten.children.all (·.2) then return n
  freshly (n.withPhrase (rewritten.map (·.1)))

theorem modify_eq [RewriteResult ρ] (handler : RewriteHandler σ ρ) (n : Node) :
    n.modify handler =
      ExceptT.mk (n.resultNode <$> handler n (n.phrase.map fun c => ⟨c, c.modify handler⟩)) := by
  rw [modify, recurse_eq]

end Node

end BlockGraph

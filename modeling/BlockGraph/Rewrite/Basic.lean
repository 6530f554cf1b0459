import BlockGraph.Rewrite
import BlockGraph.Traversal

/-!
# Basic passes

Small rewriting passes: those that change nothing, one that leaves inactive nodes out, and one that
moves motor stops to another port.
-/

namespace BlockGraph.Rewrite

def identity : RewriteHandler Unit (Except Error Node) := fun n p => (n.rebuildChildren p).run

/-- Gives every node back without looking below it. -/
def keep : RewriteHandler Unit Node := fun n _ => return n

/-- Rebuilds enabled nodes. A disabled node, and one that cannot be rebuilt, has no result. -/
def dropDisabled : RewriteHandler Unit (Option Node) := fun n p =>
  if n.attributes.disabled then return none
  else do return (← (n.rebuildChildren p).run).toOption

/-- Looks at every active node and gives no node back. -/
def look : RewriteHandler Unit Unit := fun _ _ => return

/-- Tells whether a node is active, which is no node. -/
def activity : RewriteHandler Unit Bool := fun n _ => return n.isActive

/-- Moves motor stops to the given port. The state lists the labels of the nodes that moved. -/
def stopsOnPort (port : String) : RewriteHandler (List String) (Except Error Node) := fun n p =>
  match n.phrase with
  | .motorStop other =>
    if other = port then (n.rebuildChildren p).run
    else ExceptT.run do
      modifyThe (List String) (· ++ [n.label])
      Node.freshly (n.withPhrase (.motorStop port))
  | _ => (n.rebuildChildren p).run

end BlockGraph.Rewrite

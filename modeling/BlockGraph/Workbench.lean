import BlockGraph.Node.Life
import BlockGraph.Program
import BlockGraph.Version

/-!
# Workbenches

Nodes under names. A node belongs to its name alone until it is used elsewhere; from then on it is
shared, and sealed. Whoever holds a shared node sees the findings that are attached to it later.

* `Workbench.share`: takes a node from its name for use elsewhere.
* `Workbench.diagnose`: attaches a finding to a node, wherever it is.
-/

namespace BlockGraph

/-- A node under a name. -/
structure NamedNode where
  node : Node
  isShared : Bool := false

/-- Nodes under names, and the numbers that were handed out for them. -/
structure Workbench where
  nodes : SortedMap String NamedNode := .empty
  supply : Supply := {}

/-- Why a step at a workbench fails. -/
inductive WorkFault where
  | noSuchNode (name : String)
  /-- The node is no longer its name's alone. -/
  | shared (name : String)
  | failed (error : Error)
  deriving DecidableEq

/-- A step at a workbench. What it did before it failed stays done. -/
abbrev Work := ExceptT WorkFault (StateM Workbench)

namespace Workbench

def make {α : Type} (x : Make α) : Work α := do
  let (result, supply) := x.run.run (← get).supply
  modify fun w => { w with supply }
  match result with
  | .ok a => return a
  | .error e => throw (.failed e)

def ofExcept {α : Type} (result : Except Error α) : Work α := make (Make.ofExcept result)

def named (name : String) : Work NamedNode := do
  match (← get).nodes.get? name with
  | some n => return n
  | none => throw (.noSuchNode name)

def look (name : String) : Work Node := return (← named name).node

def put (name : String) (n : NamedNode) : Work Unit :=
  modify fun w => { w with nodes := w.nodes.insert name n }

/-- Takes the node under a name for use elsewhere. -/
def share (name : String) : Work Node := do
  let n ← named name
  if n.isShared then return n.node
  put name ⟨n.node.toSealed, true⟩
  return n.node.toSealed

/-- Changes the node under a name, which must not be shared. -/
def change (name : String) (f : Node → Except Error Node) : Work Unit := do
  let n ← named name
  if n.isShared then throw (.shared name)
  put name { n with node := ← ofExcept (f n.node) }

/-- Applies `f` to a node wherever it is. -/
def updateEverywhere (target : Node) (f : Node → Node) : Work Unit :=
  modify fun w =>
    let update (n : Node) : Node := if n.isSame target then f n else n
    let entries := w.nodes.entries.map fun e => (e.1, { e.2 with node := e.2.node.mapNodes update })
    { w with nodes := .ofList entries }

/-- Attaches a finding to the node under a name, and gives all findings about it. -/
def diagnose (name : String) (finding : Node → Diagnostic) : Work (List Diagnostic) := do
  let n ← look name
  updateEverywhere n fun n => n.addDiagnostic (finding n)
  return (← look name).diagnostics

end Workbench

/-- The program of chains that come from no document, all at the origin of the canvas. -/
def Program.ofBodies (bodies : List Node) : Program where
  formatVersion := currentVersion
  instances := bodies.map fun body => ⟨0, 0, body⟩

end BlockGraph

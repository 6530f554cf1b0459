import BlockGraph.Node.Life

/-!
# Programs

A program is a list of chains with their places on the canvas, and what its document says about
it as a whole.
-/

namespace BlockGraph

/-- A chain on the canvas. -/
structure Instance where
  x : Int64
  y : Int64
  body : Node

def Instance.statements (i : Instance) : List Node := i.body.statements

/-- A program. -/
structure Program where
  formatVersion : String
  description : String := ""
  tags : List String := []
  instances : List Instance

namespace Program

/-- All nodes, chain after chain, parents first. Inactive nodes are among them. -/
def walk (p : Program) : List Node := p.instances.flatMap (·.body.walk)

def nodeCount (p : Program) : Nat := p.walk.length

/-- The first node of the block with the given id. -/
def findBlock? (p : Program) (blockId : String) : Option Node :=
  p.walk.find? (·.blockId? == some blockId)

def maxSeverity? (p : Program) : Option Severity :=
  Diagnostic.maxSeverity? (p.walk.flatMap (·.diagnostics))

def mapBodies {m : Type → Type} [Monad m] (f : Node → m Node) (p : Program) : m Program := do
  let instances ← p.instances.mapM fun i => do return { i with body := ← f i.body }
  return { p with instances }

/-- Applies `f` to every node, from the bottom up. -/
def mapNodes (f : Node → Node) (p : Program) : Program :=
  { p with instances := p.instances.map fun i => { i with body := i.body.mapNodes f } }

/-- A copy of all nodes, as an edition of its own. -/
def deepCopy (p : Program) : Make Program := do
  let edition ← freshEdition
  p.mapBodies fun body => Make.ofExcept (body.deepCopy edition)

/-- Whether two programs have the same content, place by place. -/
def alike (p q : Program) : Bool :=
  p.formatVersion == q.formatVersion && p.description == q.description && p.tags == q.tags &&
    p.instances.length == q.instances.length &&
    (p.instances.zip q.instances).all fun i =>
      i.1.x == i.2.x && i.1.y == i.2.y && i.1.body.alike i.2.body

end Program

end BlockGraph

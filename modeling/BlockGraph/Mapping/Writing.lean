import BlockGraph.Document
import BlockGraph.Program

/-!
# From programs to documents

Every node that has a block type becomes a block. Its slots stand in table order; empty expressions
and empty chains are left out. The diagnostics attached to a node become annotations.

* `Program.toDocument`: the document of a program.
-/

namespace BlockGraph

namespace Mapping

/-- A node as a block, and the same node as a chain of blocks. Only one of them exists. -/
structure Written where
  block : Except Error Block
  chain : Except Error (List Block)

/-- The slots of a block that are written so far. -/
structure WrittenSlots where
  fields : List FieldSlot := []
  values : List (ValueSlot Block) := []
  statements : List (StatementSlot Block) := []

namespace WrittenSlots

/-- Adds an expression; an empty one is left out. -/
def addValue (s : WrittenSlots) (name : String) (child : Visited Written) :
    Except Error WrittenSlots :=
  match child.node.phrase with
  | .emptyExpr => .ok s
  | .stmtList _ => .error (.contract .stmtList .chainAsValue)
  | _ => do
    let block ← child.result.block
    return { s with values := s.values ++ [⟨name, block⟩] }

/-- Adds a chain; an empty one is left out. -/
def addStatement (s : WrittenSlots) (name : String) (child : Visited Written) :
    Except Error WrittenSlots := do
  let blocks ← child.result.chain
  if blocks.isEmpty then return s
  return { s with statements := s.statements ++ [⟨name, blocks⟩] }

def addRow (s : WrittenSlots) (row : FieldSpec × SlotValue (Visited Written)) :
    Except Error WrittenSlots :=
  let name := row.1.external
  match row.2 with
  | .literal text => .ok { s with fields := s.fields ++ [⟨name, text⟩] }
  | .value child => s.addValue name child
  | .statement child => s.addStatement name child
  | .optionalStatement none => .ok s
  | .optionalStatement (some child) => s.addStatement name child
  | .repeated children =>
    children.zipIdx.foldlM (fun s c =>
      if row.1.mode = .repeatedValue then s.addValue (name ++ toString c.2) c.1
      else s.addStatement (name ++ toString c.2) c.1) s

end WrittenSlots

def annotation (d : Diagnostic) : Annotation := ⟨d.severity.name, d.code.name, d.message⟩

def writeBlock (n : Node) (p : Phrase (Visited Written)) : Except Error Block :=
  match n.kind.blockType with
  | none => .error (.contract n.kind .structuralBlock)
  | some type => do
    let slots ← (n.kind.fields.zip p.slots).foldlM WrittenSlots.addRow {}
    return .mk
      { id := n.label, type, attributes := n.attributes, comment := n.comment?,
        fields := slots.fields, values := slots.values, statements := slots.statements,
        annotations := n.diagnostics.map annotation }

def writeChain (n : Node) (p : Phrase (Visited Written)) : Except Error (List Block) :=
  match p with
  | .stmtList statements => statements.mapM (·.result.block)
  | _ => .error (.contract n.kind .notAChain)

def written : Node → Written :=
  Node.recurse fun n p => ⟨writeBlock n p, writeChain n p⟩

end Mapping

def Program.toDocument (p : Program) : Except Error Document := do
  let instances ← p.instances.mapM fun i => do
    return (⟨i.x, i.y, ← (Mapping.written i.body).chain⟩ : Chain)
  return ⟨p.formatVersion, p.description, p.tags, instances⟩

end BlockGraph

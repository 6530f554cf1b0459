import BlockGraph.Node.Life

/-!
# Outlines

A subtree as text, one node a line: two blanks for every level, the name of the slot that holds the
node, its kind and block id, its marks, and its texts in quotes.
-/

namespace BlockGraph.Node

/-- The texts of a node with the names of their slots. -/
def literalText {α : Type} (row : FieldSpec × SlotValue α) : String :=
  match row.2 with
  | .literal text => " " ++ row.1.external ++ "=" ++ Text.quoted text
  | _ => ""

/-- The line of a node, without the line break. -/
def outlineLine (n : Node) (depth : Nat) (slot : Option String) : String :=
  String.ofList (List.replicate (2 * depth) ' ') ++
    (match slot with
      | some name => name ++ ": "
      | none => "") ++
    n.kind.name ++
    (match n.blockId? with
      | some id => " #" ++ id
      | none => "") ++
    (if n.attributes.disabled then " [disabled]" else "") ++
    (if n.attributes.inTask == some false then " [detached]" else "") ++
    String.join ((n.kind.fields.zip n.phrase.slots).map literalText)

/-- The children of a row with the names of their slots; the members of a family are numbered. -/
def namedNodes {α : Type} (row : FieldSpec × SlotValue α) : List (Option String × α) :=
  match row.2 with
  | .literal _ => []
  | .value node | .statement node => [(some row.1.external, node)]
  | .optionalStatement node => node.toList.map fun n => (some row.1.external, n)
  | .repeated nodes => nodes.zipIdx.map fun n => (some (row.1.external ++ toString n.2), n.1)

/-- The children of a phrase with the names of their slots. -/
def namedChildren {α : Type} (p : Phrase α) : List (Option String × α) :=
  match p with
  | .stmtList statements => statements.map (none, ·)
  | p => (p.kind.fields.zip p.slots).flatMap namedNodes

/-- The outline of a subtree at the given depth, in the named slot. -/
def outlineAt : Node → (depth : Nat) → (slot : Option String) → String :=
  recurse fun n p depth slot =>
    n.outlineLine depth slot ++ "\n" ++
      String.join ((namedChildren p).map fun c => c.2.result (depth + 1) c.1)

def outline (n : Node) : String := n.outlineAt 0 none

end BlockGraph.Node

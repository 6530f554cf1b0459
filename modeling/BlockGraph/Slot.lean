import BlockGraph.Error
import BlockGraph.Spelling

/-!
# Slots

What a slot of a block holds, over any type of child, and the reader that hands the slots of a
table to whoever builds a node from them. A reader stays behind its last slot also when a read
fails.

* `SlotValue.fits`: whether a content has the shape that a table row asks for.
* `SlotReader.next`: the one step that every read begins with.
-/

namespace BlockGraph

/-- The content of one slot. -/
inductive SlotValue (α : Type) where
  | literal (text : String)
  | value (node : α)
  | statement (node : α)
  | optionalStatement (node : Option α)
  | repeated (nodes : List α)
  deriving DecidableEq, Repr

namespace SlotValue

variable {α β : Type}

def shape : SlotValue α → SlotShape
  | literal _ => .literal
  | value _ => .value
  | statement _ => .statement
  | optionalStatement _ => .optionalStatement
  | repeated _ => .repeated

/-- The children in a slot, in order. -/
def nodes : SlotValue α → List α
  | literal _ => []
  | value node | statement node => [node]
  | optionalStatement node => node.toList
  | repeated nodes => nodes

/-- Applies `f` to every child. -/
def map (f : α → β) : SlotValue α → SlotValue β
  | literal text => literal text
  | value node => value (f node)
  | statement node => statement (f node)
  | optionalStatement node => optionalStatement (node.map f)
  | repeated nodes => repeated (nodes.map f)

/-- Runs `f` on every child, in order. -/
def mapM {m : Type → Type} [Monad m] (f : α → m β) : SlotValue α → m (SlotValue β)
  | literal text => return literal text
  | value node => return value (← f node)
  | statement node => return statement (← f node)
  | optionalStatement none => return optionalStatement none
  | optionalStatement (some node) => return optionalStatement (some (← f node))
  | repeated nodes => return repeated (← nodes.mapM f)

/-- Whether a content has the shape that a row of the given mode asks for. -/
def fits : FieldMode → SlotValue α → Bool
  | .literal, literal _ => true
  | .value, value _ => true
  | .statement, statement _ => true
  | .optionalStatement, optionalStatement _ => true
  | .repeatedValue, repeated _ => true
  | .repeatedStatement, repeated _ => true
  | _, _ => false

@[simp] theorem nodes_map (f : α → β) (s : SlotValue α) : (s.map f).nodes = s.nodes.map f := by
  cases s <;> simp [map, nodes]
  case optionalStatement node => cases node <;> rfl

@[simp] theorem map_id (s : SlotValue α) : s.map id = s := by
  cases s <;> simp [map]

@[simp] theorem map_map {γ : Type} (g : β → γ) (f : α → β) (s : SlotValue α) :
    (s.map f).map g = s.map (g ∘ f) := by
  cases s <;> simp [map]

end SlotValue

/-! ## Reading slots in table order -/

/-- The slots of a block that are still to be read. -/
structure SlotReader (α : Type) where
  blockId : String
  fields : List FieldSpec
  values : List (SlotValue α)
  /-- The number of slots asked for so far. -/
  cursor : Nat := 0

/-- A step that reads slots. The reader moves on also where the step fails. -/
abbrev SlotRead (α : Type) := ExceptT Error (StateM (SlotReader α))

namespace SlotReader

variable {α : Type}

def fail {β : Type} (fault : BlockFault) : SlotRead α β := do
  throw (.malformed (← get).blockId fault)

def row? (r : SlotReader α) : Option FieldSpec := r.fields[r.cursor]?

def next : SlotRead α (FieldSpec × SlotValue α) := do
  let r ← get
  set { r with values := r.values.tail, cursor := r.cursor + 1 }
  match r.row?, r.values.head? with
  | some spec, some value => return (spec, value)
  | _, _ => fail (.tableExhausted r.cursor)

/-- A slot that `pick` takes apart. -/
def expect {β : Type} (pick : SlotValue α → Option β) : SlotRead α β := do
  let (spec, found) ← next
  match pick found with
  | some b => return b
  | none => fail (.wrongShape spec found.shape)

def literal : SlotRead α String :=
  expect fun
    | .literal text => some text
    | _ => none

def value : SlotRead α α :=
  expect fun
    | .value node => some node
    | _ => none

def statement : SlotRead α α :=
  expect fun
    | .statement node => some node
    | _ => none

def optionalStatement : SlotRead α (Option α) :=
  expect fun
    | .optionalStatement node => some node
    | _ => none

def repeated : SlotRead α (List α) :=
  expect fun
    | .repeated nodes => some nodes
    | _ => none

def choice (τ : Type) [Spelled τ] : SlotRead α τ := do
  let row := (← get).row?
  let text ← literal
  match Spelled.read? text with
  | some t => return t
  | none => fail (.badChoice text (row.map (·.external)))

def flag : SlotRead α Bool := do
  let row := (← get).row?
  let text ← literal
  match readFlag? text with
  | some b => return b
  | none => fail (.badFlag text (row.map (·.external)))

/-- The next `n` slots, each of the shape its row asks for. -/
def take : Nat → SlotRead α (List (SlotValue α))
  | 0 => return []
  | n + 1 => do
    let (spec, found) ← next
    if found.fits spec.mode then return found :: (← take n)
    else fail (.wrongShape spec found.shape)

def rest : SlotRead α (List (SlotValue α)) := do
  let r ← get
  take (r.fields.length - r.cursor)

/-- Fails unless exactly the slots of the table have been read. -/
def finish : SlotRead α Unit := do
  let r ← get
  if !r.values.isEmpty || r.cursor != r.fields.length then
    fail (.slotCount r.fields.length r.cursor)

end SlotReader

end BlockGraph

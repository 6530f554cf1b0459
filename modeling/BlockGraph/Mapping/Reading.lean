import BlockGraph.Document.Format
import BlockGraph.Mapping.Numbered
import BlockGraph.Program
import BlockGraph.Registry

/-!
# From documents to programs

Every block becomes a node of the kind that its type is registered for. The slot table of the kind
says which slots the block must have and which it may have; a slot that the table does not mention
is an error. The first problem ends the reading.

* `Mapping.Slots.take`: what a table row takes from the slots of a block.
* `Program.ofDocument`: the program of a document.
-/

namespace BlockGraph

namespace Mapping

/-! ## Slots -/

/-- The slots of a block that no table row has used yet, over any type of block inside. -/
structure Slots (α : Type) where
  fields : SortedMap String String := .empty
  values : SortedMap String α := .empty
  statements : SortedMap String (List α) := .empty

/-- Entries under their names; a name may stand there once. -/
def indexed {α : Type} (blockId : String) (entries : List (String × α)) :
    Except Error (SortedMap String α) :=
  entries.foldlM (fun m e =>
    if m.contains e.1 then throw (.malformed blockId (.duplicateSlot e.1))
    else pure (m.insert e.1 e.2)) .empty

/-- What one table row takes from the slots of a block, under the names of the slots. -/
inductive Portion (α : Type) where
  | literal (slot text : String)
  | value (slot : String) (block : Option α)
  | statement (slot : String) (blocks : List α)
  | optionalStatement (slot : String) (blocks : List α)
  | repeatedValue (members : List (String × Option α))
  | repeatedStatement (members : List (String × List α))

namespace Slots

variable {α : Type}

def ofLayer (l : BlockLayer α) : Except Error (Slots α) := do
  let fields ← indexed l.id (l.fields.map fun s => (s.name, s.value))
  let values ← indexed l.id (l.values.map fun s => (s.name, s.block))
  let statements ← indexed l.id (l.statements.map fun s => (s.name, s.blocks))
  return { fields, values, statements }

def leftover? (s : Slots α) : Option String :=
  (s.fields.keys ++ s.values.keys ++ s.statements.keys).head?

/-- What a table row takes, and the slots that are left after it. -/
def take (blockId : String) (declared : Option Nat) (s : Slots α) (spec : FieldSpec) :
    Except Error (Portion α × Slots α) :=
  let name := spec.external
  let withoutStatement := { s with statements := s.statements.erase name }
  match spec.mode with
  | .literal =>
    match s.fields.get? name with
    | some text => .ok (.literal name text, { s with fields := s.fields.erase name })
    | none => .error (.malformed blockId (.missingField name))
  | .value => .ok (.value name (s.values.get? name), { s with values := s.values.erase name })
  | .statement => .ok (.statement name ((s.statements.get? name).getD []), withoutStatement)
  | .optionalStatement =>
    .ok (.optionalStatement name ((s.statements.get? name).getD []), withoutStatement)
  | .repeatedValue => do
    let (found, rest) ← takeNumbered blockId name s.values
    let count ← repeatCount blockId name declared found
    return (.repeatedValue ((List.range count).map fun i => (name ++ toString i, found.get? i)),
      { s with values := rest })
  | .repeatedStatement => do
    let (found, rest) ← takeNumbered blockId name s.statements
    let count ← repeatCount blockId name declared found
    return (.repeatedStatement
        ((List.range count).map fun i => (name ++ toString i, (found.get? i).getD [])),
      { s with statements := rest })

end Slots

/-! ## Contents of rows -/

section

variable {α : Type} {m : Type → Type} [Monad m]
variable (value : String → Option α → m Node) (chain : String → List α → m Node)

/-- The content of a row, given what becomes of the blocks in a slot. -/
def Portion.fill : Portion α → m (SlotValue Node)
  | .literal _ text => return .literal text
  | .value slot block => return .value (← value slot block)
  | .statement slot blocks => return .statement (← chain slot blocks)
  | .optionalStatement _ [] => return .optionalStatement none
  | .optionalStatement slot blocks => return .optionalStatement (some (← chain slot blocks))
  | .repeatedValue members => return .repeated (← members.mapM fun e => value e.1 e.2)
  | .repeatedStatement members => return .repeated (← members.mapM fun e => chain e.1 e.2)

/-- The contents of table rows in order, and the slots that are left after them. -/
def Slots.rows [MonadLiftT (Except Error) m] (blockId : String) (declared : Option Nat) :
    Slots α → List FieldSpec → m (List (SlotValue Node) × Slots α)
  | slots, [] => return ([], slots)
  | slots, spec :: specs => do
    let (portion, slots) ← liftM (slots.take blockId declared spec)
    let first ← portion.fill value chain
    let (others, slots) ← Slots.rows blockId declared slots specs
    return (first :: others, slots)

end

/-- Fails on a block in a value slot whose node is no expression. -/
def checkValue (slot : String) (b : Block) (n : Node) : Except Error Unit :=
  if n.kind.isExpression then .ok ()
  else .error (.malformed b.layer.id (.statementInValue b.layer.type slot))

/-- Fails on a block in a named chain whose node is an expression. On the canvas it may be one. -/
def checkStatement (slot : Option String) (b : Block) (n : Node) : Except Error Unit :=
  match slot with
  | some slot =>
    if n.kind.isExpression then
      .error (.malformed b.layer.id (.expressionInChain b.layer.type slot))
    else .ok ()
  | none => .ok ()

/-! ## Blocks -/

/-- Fails if a conditional block has an unreadable entry for its last branch, or has that branch
without declaring it. -/
def checkElse (blockId : String) (mutation : SortedMap String String) (phrase : Phrase Node) :
    Except Error Unit :=
  match phrase with
  | .ifElse _ _ otherwise =>
    match mutation.get? "else" with
    | none | some "0" =>
      if otherwise.isSome then .error (.malformed blockId .undeclaredElse) else .ok ()
    | some "1" => .ok ()
    | some text => .error (.malformed blockId (.badElse text))
  | _ => .ok ()

/-- What is known of a block before the blocks inside it are read. -/
structure Layout (α : Type) where
  kind : Kind
  slots : Slots α
  /-- How many branches the block declares. -/
  declared : Option Nat

def Layout.of {α : Type} (registry : KindRegistry) (l : BlockLayer α) :
    Except Error (Layout α) := do
  let some kind := registry.lookup l.type | throw (.malformed l.id (.unknownType l.type))
  let slots ← Slots.ofLayer l
  let declared ← declaredCount kind l.id l.attributes.mutation
  return { kind, slots, declared }

/-- The phrase of a block with the given contents of its rows. No slot may be left over. -/
def assemble {α : Type} (l : BlockLayer α) (kind : Kind) (values : List (SlotValue Node))
    (left : Slots α) : Except Error (Phrase Node) := do
  if let some name := left.leftover? then throw (.malformed l.id (.unusedSlot name l.type))
  let phrase ← Phrase.build kind l.id values
  checkElse l.id l.attributes.mutation phrase
  return phrase

/-! ## Reading -/

/-- A computation that remembers the ids of the blocks seen so far. -/
abbrev Parse := StateT (List String) Make

/-- A block inside another with the computation of its node. -/
abbrev Inner := Block.Visited (Parse Node)

/-- Remembers the id of a block. No block before it has the same. -/
def claim (id : String) : Parse Unit := do
  if (← get).contains id then throw (.malformed id .duplicateId)
  modify (id :: ·)

/-- The node in a value slot. An absent block is the empty expression. -/
def value (slot : String) : Option Inner → Parse Node
  | none => liftM (Node.structural .emptyExpr : Fresh Node)
  | some b => do
    let node ← b.result
    liftM (checkValue slot b.block node)
    return node

/-- A chain, in a named slot or on the canvas. -/
def chain (slot : Option String) (blocks : List Inner) : Parse Node := do
  let statements ← blocks.mapM fun b => do
    let node ← b.result
    liftM (checkStatement slot b.block node)
    return node
  liftM (Node.structural (.stmtList statements) : Fresh Node)

def block (registry : KindRegistry) : Block → Parse Node :=
  Block.recurse fun l => do
    if l.id.isEmpty then throw (.malformed "" (.emptyId l.type))
    claim l.id
    let layout ← liftM (Layout.of registry l)
    let (values, left) ←
      layout.slots.rows value (fun slot => chain slot) l.id layout.declared layout.kind.fields
    let phrase ← liftM (assemble l layout.kind values left)
    liftM (Node.createSealed (some l.id) l.attributes l.comment phrase : Fresh Node)

def canvasChain (registry : KindRegistry) (c : Chain) : Parse Instance := do
  let body ← chain none (c.blocks.map fun b => ⟨b, block registry b⟩)
  return ⟨c.x, c.y, body⟩

end Mapping

def Program.ofDocument (registry : KindRegistry) (d : Document) : Make Program := do
  Make.ofExcept (checkVersion d.formatVersion)
  let instances ← (d.instances.mapM (Mapping.canvasChain registry)).run' []
  return ⟨d.formatVersion, d.description, d.tags, instances⟩

end BlockGraph

import BlockGraph.Slot

/-!
# Phrases

What a node of each kind says, over any type of child. A phrase and its slots determine each
other: `Phrase.slots` takes a phrase apart in table order, `Phrase.build` puts it together again.

* `Phrase.children`: the children in table order.
* `Phrase.mapChildren`: the phrase with every child replaced, by way of its slots.
-/

namespace BlockGraph

/-- The content of a node whose children are of type `α`. -/
inductive Phrase (α : Type) where
  /-- The start of a program, with its global declarations. -/
  | mainTask (debug : Bool) (declarations : α)
  | varDeclaration (name : String) (type : DataType) (value : α)
  /-- The statements of a chain. -/
  | stmtList (statements : List α)
  /-- Each condition guards the branch at its place. -/
  | ifElse (conditions branches : List α) (otherwise : Option α)
  | repeatTimes (times body : α)
  | whileUntil (mode : LoopMode) (condition body : α)
  | forLoop (var : String) (start stop step body : α)
  | flowControl (flow : Flow)
  | assign (name : String) (value : α)
  | waitTime (duration : α)
  | methodDef (name : String) (body : α)
  | methodCall (name : String)
  /-- A number as it was typed. -/
  | numConst (text : String)
  | boolConst (value : Bool)
  | stringConst (text : String)
  | varRef (name : String)
  | arithmetic (op : ArithOp) (left right : α)
  | compare (op : CompareOp) (left right : α)
  | logic (op : LogicOp) (left right : α)
  | negate (operand : α)
  | emptyExpr
  | motorSetPower (port : String) (power : α)
  | motorStop (port : String)
  /-- One sample of a sensor of type `sensor` at a port. -/
  | sensorSample (sensor port : String)
  | showText (text : α)
  | playTone (frequency duration : α)
  | extension (spec : ExtensionSpec) (slots : List (SlotValue α))
  deriving DecidableEq, Repr

namespace Phrase

variable {α β γ : Type}

def kind : Phrase α → Kind
  | mainTask .. => .mainTask
  | varDeclaration .. => .varDeclaration
  | stmtList .. => .stmtList
  | ifElse .. => .ifElse
  | repeatTimes .. => .repeatTimes
  | whileUntil .. => .whileUntil
  | forLoop .. => .forLoop
  | flowControl .. => .flowControl
  | assign .. => .assign
  | waitTime .. => .waitTime
  | methodDef .. => .methodDef
  | methodCall .. => .methodCall
  | numConst .. => .numConst
  | boolConst .. => .boolConst
  | stringConst .. => .stringConst
  | varRef .. => .varRef
  | arithmetic .. => .arithmetic
  | compare .. => .compare
  | logic .. => .logic
  | negate .. => .negate
  | emptyExpr => .emptyExpr
  | motorSetPower .. => .motorSetPower
  | motorStop .. => .motorStop
  | sensorSample .. => .sensorSample
  | showText .. => .showText
  | playTone .. => .playTone
  | extension spec _ => .extension spec

def isEmptyExpr : Phrase α → Bool
  | emptyExpr => true
  | _ => false

/-- Applies `f` to every child. -/
def map (f : α → β) : Phrase α → Phrase β
  | mainTask debug declarations => mainTask debug (f declarations)
  | varDeclaration name type value => varDeclaration name type (f value)
  | stmtList statements => stmtList (statements.map f)
  | ifElse conditions branches otherwise =>
    ifElse (conditions.map f) (branches.map f) (otherwise.map f)
  | repeatTimes times body => repeatTimes (f times) (f body)
  | whileUntil mode condition body => whileUntil mode (f condition) (f body)
  | forLoop var start stop step body => forLoop var (f start) (f stop) (f step) (f body)
  | flowControl flow => flowControl flow
  | assign name value => assign name (f value)
  | waitTime duration => waitTime (f duration)
  | methodDef name body => methodDef name (f body)
  | methodCall name => methodCall name
  | numConst text => numConst text
  | boolConst value => boolConst value
  | stringConst text => stringConst text
  | varRef name => varRef name
  | arithmetic op left right => arithmetic op (f left) (f right)
  | compare op left right => compare op (f left) (f right)
  | logic op left right => logic op (f left) (f right)
  | negate operand => negate (f operand)
  | emptyExpr => emptyExpr
  | motorSetPower port power => motorSetPower port (f power)
  | motorStop port => motorStop port
  | sensorSample sensor port => sensorSample sensor port
  | showText text => showText (f text)
  | playTone frequency duration => playTone (f frequency) (f duration)
  | extension spec slots => extension spec (slots.map (SlotValue.map f))

/-! ## Taking apart -/

/-- The slots of a phrase in table order. Chains and empty expressions have none. -/
def slots : Phrase α → List (SlotValue α)
  | stmtList _ | emptyExpr => []
  | mainTask debug declarations => [.literal (flagText debug), .statement declarations]
  | varDeclaration name type value => [.literal name, .literal (Spelled.spell type), .value value]
  | ifElse conditions branches otherwise =>
    [.repeated conditions, .repeated branches, .optionalStatement otherwise]
  | repeatTimes times body => [.value times, .statement body]
  | whileUntil mode condition body =>
    [.literal (Spelled.spell mode), .value condition, .statement body]
  | forLoop var start stop step body =>
    [.literal var, .value start, .value stop, .value step, .statement body]
  | flowControl flow => [.literal (Spelled.spell flow)]
  | assign name value => [.literal name, .value value]
  | waitTime duration => [.value duration]
  | methodDef name body => [.literal name, .statement body]
  | methodCall name => [.literal name]
  | numConst text => [.literal text]
  | boolConst value => [.literal (flagText value)]
  | stringConst text => [.literal text]
  | varRef name => [.literal name]
  | arithmetic op left right => [.literal (Spelled.spell op), .value left, .value right]
  | compare op left right => [.literal (Spelled.spell op), .value left, .value right]
  | logic op left right => [.literal (Spelled.spell op), .value left, .value right]
  | negate operand => [.value operand]
  | motorSetPower port power => [.literal port, .value power]
  | motorStop port => [.literal port]
  | sensorSample sensor port => [.literal sensor, .literal port]
  | showText text => [.value text]
  | playTone frequency duration => [.value frequency, .value duration]
  | extension _ slots => slots

def children : Phrase α → List α
  | stmtList statements => statements
  | p => p.slots.flatMap SlotValue.nodes

/-! ## Putting together -/

open SlotReader in
/-- The phrase of a node of the given kind, from its slots in table order. -/
def fromSlots : Kind → SlotRead α (Phrase α)
  | .stmtList => fail (.noTable .stmtList)
  | .emptyExpr => fail (.noTable .emptyExpr)
  | .mainTask => return mainTask (← flag) (← statement)
  | .varDeclaration => return varDeclaration (← literal) (← choice DataType) (← value)
  | .ifElse => do
    let conditions ← repeated
    let branches ← repeated
    let otherwise ← optionalStatement
    if conditions.isEmpty || conditions.length != branches.length then
      fail (.branchMismatch conditions.length branches.length)
    return ifElse conditions branches otherwise
  | .repeatTimes => return repeatTimes (← value) (← statement)
  | .whileUntil => return whileUntil (← choice LoopMode) (← value) (← statement)
  | .forLoop => return forLoop (← literal) (← value) (← value) (← value) (← statement)
  | .flowControl => return flowControl (← choice Flow)
  | .assign => return assign (← literal) (← value)
  | .waitTime => return waitTime (← value)
  | .methodDef => return methodDef (← literal) (← statement)
  | .methodCall => return methodCall (← literal)
  | .numConst => return numConst (← literal)
  | .boolConst => return boolConst (← flag)
  | .stringConst => return stringConst (← literal)
  | .varRef => return varRef (← literal)
  | .arithmetic => return arithmetic (← choice ArithOp) (← value) (← value)
  | .compare => return compare (← choice CompareOp) (← value) (← value)
  | .logic => return logic (← choice LogicOp) (← value) (← value)
  | .negate => return negate (← value)
  | .motorSetPower => return motorSetPower (← literal) (← value)
  | .motorStop => return motorStop (← literal)
  | .sensorSample => return sensorSample (← literal) (← literal)
  | .showText => return showText (← value)
  | .playTone => return playTone (← value) (← value)
  | .extension spec => return extension spec (← rest)

/-- The phrase of a node of the given kind with exactly these slots. `blockId` is blamed if they
do not fit. -/
def build (kind : Kind) (blockId : String) (values : List (SlotValue α)) :
    Except Error (Phrase α) :=
  let whole : SlotRead α (Phrase α) := do
    let phrase ← fromSlots kind
    SlotReader.finish
    return phrase
  (whole.run { blockId, fields := kind.fields, values }).1

/-- The phrase with every child passed through `f`, in table order. The new phrase is built from
the new slots, so it is checked like one that is read. -/
def mapChildren {m : Type → Type} [Monad m] [MonadExceptOf Error m] (blockId : String)
    (f : α → m β) : Phrase α → m (Phrase β)
  | stmtList statements => return stmtList (← statements.mapM f)
  | emptyExpr => return emptyExpr
  | p => do
    let values ← p.slots.mapM (SlotValue.mapM f)
    match build p.kind blockId values with
    | .ok phrase => return phrase
    | .error e => throwThe Error e

/-! ## Laws -/

@[simp] theorem kind_map (f : α → β) (p : Phrase α) : (p.map f).kind = p.kind := by
  cases p <;> rfl

@[simp] theorem slots_map (f : α → β) (p : Phrase α) :
    (p.map f).slots = p.slots.map (SlotValue.map f) := by
  cases p <;> rfl

@[simp] theorem map_id (p : Phrase α) : p.map id = p := by
  cases p <;> simp [map, show (SlotValue.map id : SlotValue α → SlotValue α) = id from
    funext SlotValue.map_id]

@[simp] theorem map_map (g : β → γ) (f : α → β) (p : Phrase α) :
    (p.map f).map g = p.map (g ∘ f) := by
  cases p <;> simp [map, Function.comp_def]

theorem map_map_cancel {f : α → β} {g : β → α} (p : Phrase α) (h : ∀ a, g (f a) = a) :
    (p.map f).map g = p := by
  rw [map_map, show g ∘ f = id from funext h, map_id]

@[simp] theorem children_map (f : α → β) (p : Phrase α) :
    (p.map f).children = p.children.map f := by
  have general (q : Phrase α) :
      (q.map f).slots.flatMap SlotValue.nodes = (q.slots.flatMap SlotValue.nodes).map f := by
    simp [List.map_flatMap, List.flatMap_map]
  cases p with
  | stmtList statements => rfl
  | _ => exact general _

/-! ## Extensions -/

/-- The content of the slot with the given internal name. -/
def extensionSlot? (spec : ExtensionSpec) (slots : List (SlotValue α)) (internal : String) :
    Option (SlotValue α) :=
  (spec.fields.findIdx? (·.internal == internal)).bind (slots[·]?)

def extensionLiteral? (spec : ExtensionSpec) (slots : List (SlotValue α)) (internal : String) :
    Option String :=
  match extensionSlot? spec slots internal with
  | some (.literal text) => some text
  | _ => none

def extensionValue? (spec : ExtensionSpec) (slots : List (SlotValue α)) (internal : String) :
    Option α :=
  match extensionSlot? spec slots internal with
  | some (.value node) => some node
  | _ => none

end Phrase

/-- Whether a sensor reports pressed or not pressed; all others report a number. -/
def isBooleanSensor (sensor : String) : Bool := sensor == "touch" || sensor == "key"

end BlockGraph

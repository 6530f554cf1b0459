/-!
# Block kinds

What kinds of nodes there are, and for each kind the table that ties the named slots of a block to
its contents. The one table drives reading, writing, copying and rewriting.

* `Kind.blockType`: how a document names the kind.
* `Kind.fields`: the slot table.
* `Kind.category`: the family, which decides where a node may stand.
-/

namespace BlockGraph

/-! ## Slot tables -/

/-- What a slot of a block holds. -/
inductive FieldMode where
  /-- A text that the user types. -/
  | literal
  /-- One expression; an absent slot holds the empty expression. -/
  | value
  /-- A chain of statements; an absent slot holds the empty chain. -/
  | statement
  /-- A chain that is either absent or has statements. -/
  | optionalStatement
  /-- Numbered expression slots. -/
  | repeatedValue
  /-- Numbered chain slots. -/
  | repeatedStatement
  deriving DecidableEq, Repr

namespace FieldMode

/-- Whether a slot of this mode is a family of numbered slots. -/
def isRepeated : FieldMode → Bool
  | repeatedValue | repeatedStatement => true
  | _ => false

def name : FieldMode → String
  | literal => "Literal"
  | value => "Value"
  | statement => "Statement"
  | optionalStatement => "OptionalStatement"
  | repeatedValue => "RepeatedValue"
  | repeatedStatement => "RepeatedStatement"

end FieldMode

/-- One row of a slot table: the name of the slot in a block, its name inside the program, and
what it holds. -/
structure FieldSpec where
  external : String
  internal : String
  mode : FieldMode
  deriving DecidableEq, Repr

namespace FieldSpec

def literal (external internal : String) : FieldSpec := ⟨external, internal, .literal⟩

def value (external internal : String) : FieldSpec := ⟨external, internal, .value⟩

def statement (external internal : String) : FieldSpec := ⟨external, internal, .statement⟩

end FieldSpec

/-! ## Kinds -/

/-- Families of kinds. -/
inductive Category where
  | task
  | declaration
  | control
  | method
  | expression
  | action
  | sensor
  deriving DecidableEq, Repr

def Category.name : Category → String
  | task => "Task"
  | declaration => "Declaration"
  | control => "Control"
  | method => "Method"
  | expression => "Expression"
  | action => "Action"
  | sensor => "Sensor"

/-- A block type beyond the core ones. Its nodes keep their slots in table order. -/
structure ExtensionSpec where
  blockType : String
  category : Category
  fields : List FieldSpec
  deriving DecidableEq, Repr

/-- The kind of a node. -/
inductive Kind where
  | mainTask
  | varDeclaration
  | stmtList
  | ifElse
  | repeatTimes
  | whileUntil
  | forLoop
  | flowControl
  | assign
  | waitTime
  | methodDef
  | methodCall
  | numConst
  | boolConst
  | stringConst
  | varRef
  | arithmetic
  | compare
  | logic
  | negate
  | emptyExpr
  | motorSetPower
  | motorStop
  | sensorSample
  | showText
  | playTone
  | extension (spec : ExtensionSpec)
  deriving DecidableEq, Repr

namespace Kind

def coreBlockKinds : List Kind :=
  [mainTask, varDeclaration, ifElse, repeatTimes, whileUntil, forLoop, flowControl, assign,
    waitTime, methodDef, methodCall, numConst, boolConst, stringConst, varRef, arithmetic, compare,
    logic, negate, motorSetPower, motorStop, sensorSample, showText, playTone]

/-- The block type of a kind. Chains and empty expressions are no blocks of their own. -/
def blockType : Kind → Option String
  | stmtList | emptyExpr => none
  | mainTask => some "robControls_start"
  | varDeclaration => some "robGlobalVariables_declare"
  | ifElse => some "controls_if"
  | repeatTimes => some "controls_repeat_ext"
  | whileUntil => some "controls_whileUntil"
  | forLoop => some "controls_for"
  | flowControl => some "controls_flow_statements"
  | assign => some "variables_set"
  | waitTime => some "robControls_wait_time"
  | methodDef => some "robProcedures_defnoreturn"
  | methodCall => some "robProcedures_callnoreturn"
  | numConst => some "math_number"
  | boolConst => some "logic_boolean"
  | stringConst => some "text"
  | varRef => some "variables_get"
  | arithmetic => some "math_arithmetic"
  | compare => some "logic_compare"
  | logic => some "logic_operation"
  | negate => some "logic_negate"
  | motorSetPower => some "robActions_motor_setPower"
  | motorStop => some "robActions_motor_stop"
  | sensorSample => some "robSensors_getSample"
  | showText => some "robActions_display_text"
  | playTone => some "robActions_play_tone"
  | extension spec => some spec.blockType

def binaryFields : List FieldSpec :=
  [.literal "OP" "op", .value "A" "left", .value "B" "right"]

def fields : Kind → List FieldSpec
  | stmtList | emptyExpr => []
  | mainTask => [.literal "DEBUG" "debug", .statement "ST" "declarations"]
  | varDeclaration => [.literal "VAR" "name", .literal "TYPE" "data_type", .value "VALUE" "value"]
  | ifElse =>
    [⟨"IF", "conditions", .repeatedValue⟩, ⟨"DO", "branches", .repeatedStatement⟩,
      ⟨"ELSE", "otherwise", .optionalStatement⟩]
  | repeatTimes => [.value "TIMES" "times", .statement "DO" "body"]
  | whileUntil => [.literal "MODE" "mode", .value "BOOL" "condition", .statement "DO" "body"]
  | forLoop =>
    [.literal "VAR" "var", .value "FROM" "from", .value "TO" "to", .value "BY" "by",
      .statement "DO" "body"]
  | flowControl => [.literal "FLOW" "flow"]
  | assign => [.literal "VAR" "name", .value "VALUE" "value"]
  | waitTime => [.value "WAIT" "duration"]
  | methodDef => [.literal "NAME" "name", .statement "STACK" "body"]
  | methodCall => [.literal "NAME" "name"]
  | numConst => [.literal "NUM" "value"]
  | boolConst => [.literal "BOOL" "value"]
  | stringConst => [.literal "TEXT" "value"]
  | varRef => [.literal "VAR" "name"]
  | arithmetic | compare | logic => binaryFields
  | negate => [.value "BOOL" "operand"]
  | motorSetPower => [.literal "MOTORPORT" "port", .value "POWER" "power"]
  | motorStop => [.literal "MOTORPORT" "port"]
  | sensorSample => [.literal "SENSORTYPE" "sensor", .literal "SENSORPORT" "port"]
  | showText => [.value "OUT" "text"]
  | playTone => [.value "FREQUENCE" "frequency", .value "DURATION" "duration"]
  | extension spec => spec.fields

def category : Kind → Category
  | mainTask => .task
  | varDeclaration => .declaration
  | stmtList | ifElse | repeatTimes | whileUntil | forLoop | flowControl | assign | waitTime =>
    .control
  | methodDef | methodCall => .method
  | numConst | boolConst | stringConst | varRef | arithmetic | compare | logic | negate
  | emptyExpr => .expression
  | motorSetPower | motorStop | showText | playTone => .action
  | sensorSample => .sensor
  | extension spec => spec.category

/-- Whether nodes of a kind fill value slots. All others stand in chains. -/
def isExpression (k : Kind) : Bool :=
  match k.category with
  | .expression | .sensor => true
  | _ => false

/-- Whether a kind is a loop, which jumps may leave. -/
def isLoop : Kind → Bool
  | repeatTimes | whileUntil | forLoop => true
  | _ => false

def structuralName : Kind → String
  | stmtList => "StmtList"
  | _ => "EmptyExpr"

/-- The name of a kind in outlines and messages: its block type if it has one. -/
def name (k : Kind) : String := k.blockType.getD k.structuralName

end Kind

end BlockGraph

import BlockGraph.Checking.ExprType
import BlockGraph.Checking.Platform
import BlockGraph.Node.Constant
import BlockGraph.Traversal

/-!
# The checker

The checks that all platforms share: names, scopes, types of expressions, jumps and methods. Blocks
that use hardware go to the platform. A bad node is reported and never ends a run.

Declarations at the start of a program are read before anything else, so that methods may use them
wherever their chains are on the canvas.

* `Checker.handler`: the checks of one node.
* `Checker.run`: the checks of a program.
-/

namespace BlockGraph

/-! ## The state of a run -/

/-- A variable in scope. -/
structure Variable where
  type : ExprType
  /-- The node that brought the variable into scope. -/
  binder : NodeId
  deriving DecidableEq

/-- The two rounds of a run. -/
inductive Round where
  /-- Only the declarations of start blocks are looked at. -/
  | declarations
  /-- All chains are looked at, without those declarations. -/
  | chains
  deriving DecidableEq, Repr

/-- Where a run is and what it found so far. -/
structure CheckState where
  collector : Collector
  scope : SortedMap String Variable := .empty
  /-- The declarations that were not repeated, in the order in which they were met. -/
  declared : List (Node × String) := []
  /-- The nodes whose variables were used. -/
  used : SortedSet NodeId := .empty
  /-- The names of the methods of the program. -/
  methods : SortedSet String := .empty
  /-- The number of loops around the current node. -/
  loopDepth : Nat := 0
  round : Round := .declarations

abbrev Check := StateM CheckState

/-- Whether a text is a name: letters, digits and underscores, without a digit in front. -/
def isIdentifier (text : String) : Bool :=
  match text.toList with
  | [] => false
  | c :: cs => (c.isAlpha || c == '_') && cs.all fun c => c.isAlphanum || c == '_'

namespace Checker

abbrev Child := Visited (Check (Option ExprType))

def collect {α : Type} (x : Collect α) : Check α := fun s =>
  let (a, collector) := x.run s.collector
  (a, { s with collector })

def error (n : Node) (code : DiagnosticCode) (message : String) : Check Unit :=
  collect (Collector.error n code message)

/-! ## Parts of checks -/

/-- Checks what fills a value slot of `parent`. The slot must not be empty and its content must
have the wanted type. -/
def expect (parent : Node) (child : Child) (want : ExprType) (what : String) : Check ExprType := do
  if child.node.phrase.isEmptyExpr then
    error parent .missingExpression (parent.kind.name ++ " is missing its " ++ what)
    return .unknown
  let got := (← child.result).getD .unknown
  if got.fits want then return got
  error child.node .typeMismatch
    (what ++ " must be " ++ want.name ++ ", found " ++ got.name)
  return .unknown

def body (chain : Child) : Check Unit := discard chain.result

def loopBody (chain : Child) : Check Unit := do
  modify fun s => { s with loopDepth := s.loopDepth + 1 }
  body chain
  modify fun s => { s with loopDepth := s.loopDepth - 1 }

/-- Runs a step after which the scope is as before. -/
def withScope (x : Check Unit) : Check Unit := do
  let scope := (← get).scope
  x
  modify fun s => { s with scope }

/-- Runs a step as if there were no loops around it. -/
def outsideLoops (x : Check Unit) : Check Unit := do
  let loopDepth := (← get).loopDepth
  modify fun s => { s with loopDepth := 0 }
  x
  modify fun s => { s with loopDepth }

def bind (n : Node) (name : String) (type : ExprType) : Check Unit :=
  modify fun s => { s with scope := s.scope.insert name ⟨type, n.id⟩ }

/-- Uses a variable, which must be in scope. -/
def lookup (n : Node) (name : String) : Check ExprType := do
  match (← get).scope.get? name with
  | some v =>
    modify fun s => { s with used := s.used.add v.binder }
    return v.type
  | none =>
    error n .undeclaredVariable ("variable '" ++ name ++ "' is used before it is declared")
    return .unknown

/-- Reports a name that is none; `what` is what it names. -/
def checkName (n : Node) (name what : String) : Check Unit :=
  if isIdentifier name then return
  else error n .invalidName ("'" ++ name ++ "' is not a valid " ++ what ++ " name")

/-- Declares a variable; a name is declared once. -/
def declare (n : Node) (name : String) (type : ExprType) : Check Unit := do
  if (← get).scope.contains name then
    error n .duplicateVariable ("variable '" ++ name ++ "' is declared more than once")
  else
    bind n name type
    modify fun s => { s with declared := s.declared ++ [(n, name)] }
    collect (Collector.record Feature.variableNames name)

/-- Defines a method; a name is defined once. -/
def define (n : Node) (name : String) : Check Unit := do
  checkName n name "method"
  if (← get).methods.contains name then
    error n .duplicateMethod ("method '" ++ name ++ "' is defined more than once")
  else
    modify fun s => { s with methods := s.methods.add name }
    collect (Collector.record Feature.methodNames name)

/-! ## The checks of a node -/

def handler (platform : Platform) (n : Node) : Phrase Child → Check ExprType
  | .stmtList statements => do
    statements.forM body
    return .void
  | .mainTask _ declarations => do
    if (← get).round = .declarations then body declarations
    return .void
  | .varDeclaration name type value => do
    let type := ExprType.ofDataType type
    checkName n name "variable"
    discard (expect n value type "initial value")
    declare n name type
    return .void
  | .ifElse conditions branches otherwise => do
    (conditions.zip branches).forM fun c => do
      discard (expect n c.1 .boolean "condition")
      body c.2
    otherwise.forM body
    return .void
  | .repeatTimes times chain => do
    discard (expect n times .number "repeat count")
    loopBody chain
    return .void
  | .whileUntil _ condition chain => do
    discard (expect n condition .boolean "condition")
    loopBody chain
    return .void
  | .forLoop var start stop step chain => do
    checkName n var "variable"
    discard (expect n start .number "start value")
    discard (expect n stop .number "end value")
    discard (expect n step .number "step")
    withScope do
      bind n var .number
      loopBody chain
    return .void
  | .flowControl flow => do
    if (← get).loopDepth = 0 then
      error n .flowOutsideLoop (Spelled.spell flow ++ " is only allowed inside a loop")
    return .void
  | .assign name value => do
    let target ← lookup n name
    discard (expect n value target "assigned value")
    return .void
  | .waitTime duration => do
    discard (expect n duration .number "duration")
    return .void
  | .methodDef _ chain => do
    outsideLoops (withScope (body chain))
    return .void
  | .methodCall name => do
    if !(← get).methods.contains name then
      error n .undefinedMethod ("method '" ++ name ++ "' is not defined")
    return .void
  | .numConst text => do
    if (readNumber? text).isSome then return .number
    error n .invalidNumber ("'" ++ text ++ "' is not a number")
    return .unknown
  | .boolConst _ => return .boolean
  | .stringConst _ => return .string
  | .varRef name => lookup n name
  | .arithmetic _ left right => do
    discard (expect n left .number "left operand")
    discard (expect n right .number "right operand")
    return .number
  | .compare op left right => do
    let operand : ExprType := if op.isOrdering then .number else .unknown
    let a ← expect n left operand "left operand"
    let b ← expect n right operand "right operand"
    if !a.fits b then
      error n .typeMismatch ("cannot compare " ++ a.name ++ " with " ++ b.name)
    return .boolean
  | .logic _ left right => do
    discard (expect n left .boolean "left operand")
    discard (expect n right .boolean "right operand")
    return .boolean
  | .negate operand => do
    discard (expect n operand .boolean "operand")
    return .boolean
  | .emptyExpr => return .unknown
  | .motorSetPower port power => do
    discard (expect n power .number "power")
    collect (platform.checkMotor n port power.node)
    return .void
  | .motorStop port => do
    collect (platform.checkMotorStop n port)
    return .void
  | .sensorSample sensor port => do
    collect (platform.checkSensor n sensor port)
    return if isBooleanSensor sensor then .boolean else .number
  | .showText text => do
    discard (expect n text .unknown "text")
    collect (platform.checkShowText n text.node)
    return .void
  | .playTone frequency duration => do
    discard (expect n frequency .number "frequency")
    discard (expect n duration .number "duration")
    collect (platform.checkTone n frequency.node duration.node)
    return .void
  | .extension spec slots => do
    if platform.board.extensionKinds.contains spec then
      discard (Node.acceptChildren (.extension spec slots))
      collect (platform.checkExtension n spec (slots.map (SlotValue.map (·.node))))
      return if spec.category = .expression then .unknown else .void
    else
      error n .unknownBlock
        ("block '" ++ spec.blockType ++ "' is not available on " ++ platform.name)
      return .unknown

def check (platform : Platform) (n : Node) : Check (Option ExprType) :=
  n.accept (handler platform)

/-! ## The checks of a program -/

def defineIfMethod (n : Node) : Check Unit :=
  match n.phrase with
  | .methodDef name _ => define n name
  | _ => return

/-- Checks the declarations of a node if it is a start block. -/
def checkIfStart (platform : Platform) (n : Node) : Check Unit :=
  match n.phrase with
  | .mainTask .. => discard (check platform n)
  | _ => return

/-- Warns of a declared variable that was never used. -/
def warnIfUnused (declaration : Node × String) : Check Unit := do
  if !(← get).used.contains declaration.1.id then
    collect (Collector.warning declaration.1 .unusedVariable
      ("variable '" ++ declaration.2 ++ "' is never used"))

/-- The active statements of the chains on the canvas. -/
def topLevel (program : Program) : List Node :=
  (program.instances.flatMap Instance.statements).filter Node.isActive

def run (platform : Platform) (program : Program) : Check Unit := do
  (topLevel program).forM defineIfMethod
  (topLevel program).forM (checkIfStart platform)
  modify fun s => { s with round := .chains }
  program.instances.forM fun i => discard (check platform i.body)
  (← get).declared.forM warnIfUnused

end Checker

end BlockGraph

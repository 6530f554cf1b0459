/-!
# Diagnostics

A finding about a program: a severity, a stable code, a message, and where it is. Findings never
end a run.

* `Diagnostic.render`: the finding as one line.
-/

namespace BlockGraph

/-! ## Severities and codes -/

/-- How serious a finding is. -/
inductive Severity where
  | info
  | warning
  | error
  deriving DecidableEq, Repr

namespace Severity

def rank : Severity → Nat
  | info => 0
  | warning => 1
  | error => 2

def name : Severity → String
  | info => "info"
  | warning => "warning"
  | error => "error"

def max (a b : Severity) : Severity := if a.rank < b.rank then b else a

def max? : List Severity → Option Severity
  | [] => none
  | s :: rest => some (rest.foldl max s)

end Severity

/-- The stable code of a family of findings. -/
structure DiagnosticCode where
  name : String
  deriving DecidableEq, Repr

namespace DiagnosticCode

def note : DiagnosticCode := ⟨"note"⟩
def undeclaredVariable : DiagnosticCode := ⟨"variable.undeclared"⟩
def duplicateVariable : DiagnosticCode := ⟨"variable.duplicate"⟩
def unusedVariable : DiagnosticCode := ⟨"variable.unused"⟩
def invalidName : DiagnosticCode := ⟨"name.invalid"⟩
def typeMismatch : DiagnosticCode := ⟨"expr.type_mismatch"⟩
def missingExpression : DiagnosticCode := ⟨"expr.missing"⟩
def invalidNumber : DiagnosticCode := ⟨"expr.invalid_number"⟩
def flowOutsideLoop : DiagnosticCode := ⟨"control.flow_outside_loop"⟩
def undefinedMethod : DiagnosticCode := ⟨"method.undefined"⟩
def duplicateMethod : DiagnosticCode := ⟨"method.duplicate"⟩
def unknownBlock : DiagnosticCode := ⟨"block.unknown"⟩
def portMissing : DiagnosticCode := ⟨"config.port_missing"⟩
def portWrongKind : DiagnosticCode := ⟨"config.port_wrong_kind"⟩
def sensorUnsupported : DiagnosticCode := ⟨"config.sensor_unsupported"⟩
def capabilityMissing : DiagnosticCode := ⟨"config.capability_missing"⟩
def valueOutOfRange : DiagnosticCode := ⟨"robot.value_out_of_range"⟩
def textTooLong : DiagnosticCode := ⟨"robot.text_too_long"⟩

end DiagnosticCode

/-! ## Findings -/

/-- What tells nodes apart. Copies of a node share its id. -/
structure NodeId where
  number : Nat
  deriving DecidableEq, Repr

def NodeId.name (id : NodeId) : String := "n" ++ toString id.number

instance : Ord NodeId := ⟨fun a b => compare a.number b.number⟩

instance : Std.TransOrd NodeId where
  eq_swap {a b} := Std.OrientedOrd.eq_swap (a := a.number) (b := b.number)
  isLE_trans {a b c} := Std.TransOrd.isLE_trans (a := a.number) (b := b.number) (c := c.number)

instance : Std.LawfulEqOrd NodeId where
  compare_self {a} := Std.ReflOrd.compare_self (a := a.number)
  eq_of_compare {a b} h := by
    cases a
    cases b
    exact congrArg NodeId.mk (Std.LawfulEqOrd.eq_of_compare h)

/-- Where a finding is: a node, and its block if it has one. -/
structure Location where
  node : NodeId
  blockId : Option String
  deriving DecidableEq, Repr

/-- A finding about a program. -/
structure Diagnostic where
  severity : Severity
  code : DiagnosticCode
  message : String
  location : Option Location := none
  deriving DecidableEq, Repr

namespace Diagnostic

/-- Whether a finding stands in the way of running the program. -/
def isError (d : Diagnostic) : Bool := d.severity == .error

def blockId? (d : Diagnostic) : Option String := d.location.bind (·.blockId)

/-- The words for a place; `nodeName` names nodes without a block. -/
def place (nodeName : NodeId → String) : Option Location → String
  | none => ""
  | some ⟨_, some block⟩ => " at block '" ++ block ++ "'"
  | some ⟨node, none⟩ => " at node " ++ nodeName node

/-- A finding as one line; `nodeName` names nodes without a block. -/
def renderWith (nodeName : NodeId → String) (d : Diagnostic) : String :=
  d.severity.name ++ "[" ++ d.code.name ++ "]" ++ place nodeName d.location ++ ": " ++ d.message

def render (d : Diagnostic) : String := d.renderWith NodeId.name

def maxSeverity? (ds : List Diagnostic) : Option Severity := Severity.max? (ds.map (·.severity))

end Diagnostic

end BlockGraph

import BlockGraph.Diagnostic.Store
import BlockGraph.Hardware.Config
import BlockGraph.Hardware.Facts

/-!
# Collectors

What one validation run gathers: its findings, and the facts about the hardware that the program
needs. Every requirement on the hardware is either recorded as a fact or reported.

* `Collector.requireMotor`, `Collector.requireSensor`, `Collector.requireCapability`: the
  requirements.
-/

namespace BlockGraph

/-- The configuration that a run is for, and what the run found so far. -/
structure Collector where
  config : HardwareConfig
  store : DiagnosticStore := .empty
  facts : Facts := {}
  deriving DecidableEq

/-- A computation that reports findings and records facts. -/
abbrev Collect := StateM Collector

namespace Collector

def report (n : Node) (d : Diagnostic) : Collect Unit :=
  modify fun c => { c with store := c.store.push n d }

def error (n : Node) (code : DiagnosticCode) (message : String) : Collect Unit :=
  report n { severity := .error, code, message }

def warning (n : Node) (code : DiagnosticCode) (message : String) : Collect Unit :=
  report n { severity := .warning, code, message }

def info (n : Node) (code : DiagnosticCode) (message : String) : Collect Unit :=
  report n { severity := .info, code, message }

def record (feature fact : String) : Collect Unit :=
  modify fun c => { c with facts := c.facts.record feature fact }

def refuse (n : Node) (code : DiagnosticCode) (message : String) : Collect Bool := do
  error n code message
  return false

def grant (feature fact : String) : Collect Bool := do
  record feature fact
  return true

/-- What is wrong with a port that should hold something else. -/
def wrongCategory (port : String) (found : ComponentCategory) (wanted : String) : String :=
  "port " ++ port ++ " holds a " ++ found.name ++ ", not a " ++ wanted

def requireMotor (n : Node) (port : String) : Collect Bool := do
  match (← get).config.component? port with
  | none => refuse n .portMissing ("no motor is configured on port " ++ port)
  | some ⟨.motor, _⟩ => grant Feature.motors port
  | some ⟨.sensor, _⟩ => refuse n .portWrongKind (wrongCategory port .sensor "motor")

/-- Requires a sensor of the given type at a port. -/
def requireSensor (n : Node) (sensor port : String) : Collect Bool := do
  match (← get).config.component? port with
  | none => refuse n .portMissing ("no sensor is configured on port " ++ port)
  | some ⟨.motor, _⟩ => refuse n .portWrongKind (wrongCategory port .motor "sensor")
  | some ⟨.sensor, kind⟩ =>
    if kind = sensor then grant Feature.sensors (port ++ ":" ++ sensor)
    else
      refuse n .portWrongKind
        ("port " ++ port ++ " holds a " ++ kind ++ " sensor but the block reads " ++ sensor)

/-- Requires a capability of the board, and records what it is used for. -/
def requireCapability (n : Node) (capability fact : String) : Collect Bool := do
  let config := (← get).config
  if config.hasCapability capability then grant capability fact
  else
    refuse n .capabilityMissing
      ("the " ++ config.robot ++ " configuration has no " ++ capability)

end Collector

end BlockGraph

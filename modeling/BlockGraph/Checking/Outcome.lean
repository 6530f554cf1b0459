import BlockGraph.Checking.Boards
import BlockGraph.Checking.Checker

/-!
# Outcomes of validation

A program is validated against a configuration by the platform that the configuration names.

* `PlatformRegistry.validate`: one run.
* `validateAll`: one run for each of several configurations.
-/

namespace BlockGraph

/-- What a run found. -/
structure ValidationOutcome where
  /-- The name of the platform. -/
  platform : String
  diagnostics : DiagnosticStore
  facts : Facts
  deriving DecidableEq

namespace ValidationOutcome

def hasErrors (o : ValidationOutcome) : Bool := o.diagnostics.hasErrors

def errorCount (o : ValidationOutcome) : Nat := o.diagnostics.count .error

/-- A copy of the program with the findings of the run attached. -/
def annotate (o : ValidationOutcome) (program : Program) : Make Program :=
  o.diagnostics.annotate program

end ValidationOutcome

/-- What a collector has gathered, as the outcome of a run. -/
def Collector.finish (c : Collector) (platform : String) : ValidationOutcome :=
  ⟨platform, c.store, c.facts⟩

def Platform.validate (p : Platform) (program : Program) (config : HardwareConfig) :
    ValidationOutcome :=
  let final := ((Checker.run p program).run { collector := { config } }).2
  final.collector.finish p.name

/-- Validates a program for the platform that a configuration names. -/
def PlatformRegistry.validate (r : PlatformRegistry) (program : Program)
    (config : HardwareConfig) : Except Error ValidationOutcome := do
  return (← r.get config.robot).validate program config

def validate (program : Program) (config : HardwareConfig) : Except Error ValidationOutcome :=
  PlatformRegistry.builtin.validate program config

/-- Validates a program for several configurations, each on its own. -/
def validateAll (program : Program) (configs : List HardwareConfig) :
    List (Except Error ValidationOutcome) :=
  configs.map (validate program)

end BlockGraph

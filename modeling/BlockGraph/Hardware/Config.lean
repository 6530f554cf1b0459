import BlockGraph.SortedMap

/-!
# Hardware configurations

Which robot a program is for, what is plugged into its ports, and what the board itself can do.
-/

namespace BlockGraph

/-- What a component does. -/
inductive ComponentCategory where
  | motor
  | sensor
  deriving DecidableEq, Repr

def ComponentCategory.name : ComponentCategory → String
  | motor => "motor"
  | sensor => "sensor"

def ComponentCategory.ofName? : String → Option ComponentCategory
  | "motor" => some motor
  | "sensor" => some sensor
  | _ => none

/-- Something plugged into a port. -/
structure Component where
  category : ComponentCategory
  /-- The size of a motor or the type of a sensor. -/
  kind : String := ""
  deriving DecidableEq, Repr

/-- A hardware configuration. -/
structure HardwareConfig where
  /-- The name of the platform. -/
  robot : String
  /-- What is plugged in, by port. -/
  components : SortedMap String Component := .empty
  /-- What the board itself can do. -/
  capabilities : SortedSet String := .empty
  deriving DecidableEq

namespace HardwareConfig

/-- Plugs a component into a port, in place of what was there. -/
def plug (c : HardwareConfig) (port : String) (component : Component) : HardwareConfig :=
  { c with components := c.components.insert port component }

def withMotor (c : HardwareConfig) (port kind : String) : HardwareConfig :=
  c.plug port ⟨.motor, kind⟩

def withSensor (c : HardwareConfig) (port kind : String) : HardwareConfig :=
  c.plug port ⟨.sensor, kind⟩

def withCapability (c : HardwareConfig) (capability : String) : HardwareConfig :=
  { c with capabilities := c.capabilities.add capability }

def component? (c : HardwareConfig) (port : String) : Option Component := c.components.get? port

def hasCapability (c : HardwareConfig) (capability : String) : Bool :=
  c.capabilities.contains capability

end HardwareConfig

end BlockGraph

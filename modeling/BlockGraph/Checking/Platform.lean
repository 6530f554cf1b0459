import BlockGraph.Checking.Collector
import BlockGraph.Registry

/-!
# Platforms

A platform is a board with its checks of the blocks that use hardware. A board knows its ports, its
sensors and the block types that it adds, and from these follow the checks that a platform has
unless it brings its own.

* `Platform`: a board with its checks.
* `PlatformRegistry.get`: the platform that a configuration names.
-/

namespace BlockGraph

/-! ## Boards -/

/-- What a robot has to offer. -/
structure Board where
  name : String
  description : String
  motorPorts : List String := []
  sensorPorts : List String := []
  /-- The types of sensors that can be read. -/
  sensorKinds : List String := []
  /-- The block types that the board adds. -/
  extensionKinds : List ExtensionSpec := []
  deriving DecidableEq, Repr

namespace Board

open Collector

/-- Whether the board has a motor port; a missing one is reported. -/
def checkMotorPort (b : Board) (n : Node) (port : String) : Collect Bool :=
  if b.motorPorts.contains port then return true
  else refuse n .portMissing (b.name ++ " has no motor port " ++ port)

/-- A motor must be at a port of the board and be configured there. -/
def checkMotor (b : Board) (n : Node) (port : String) : Collect Unit := do
  if ← b.checkMotorPort n port then discard (requireMotor n port)

/-- A sensor must be at a port of the board, be readable by it, and be configured there. -/
def checkSensor (b : Board) (n : Node) (sensor port : String) : Collect Unit :=
  if !b.sensorPorts.contains port then
    error n .portMissing (b.name ++ " has no sensor port " ++ port)
  else if !b.sensorKinds.contains sensor then
    error n .sensorUnsupported (b.name ++ " cannot read a " ++ sensor ++ " sensor")
  else discard (requireSensor n sensor port)

def kindRegistry (b : Board) : Except Error KindRegistry :=
  KindRegistry.core.registerAll b.extensionKinds

end Board

/-! ## Platforms -/

open Collector in
/-- A board with its checks. Every check sees the node and what its phrase says. -/
structure Platform where
  board : Board
  checkMotor : (n : Node) → (port : String) → (power : Node) → Collect Unit :=
    fun n port _ => board.checkMotor n port
  checkMotorStop : (n : Node) → (port : String) → Collect Unit := board.checkMotor
  checkSensor : (n : Node) → (sensor port : String) → Collect Unit := board.checkSensor
  checkShowText : (n : Node) → (text : Node) → Collect Unit :=
    fun n _ => discard (requireCapability n Feature.display "text")
  checkTone : (n : Node) → (frequency duration : Node) → Collect Unit :=
    fun n _ _ => discard (requireCapability n Feature.sound "tone")
  /-- The check of a block type that the board adds. -/
  checkExtension : (n : Node) → ExtensionSpec → List (SlotValue Node) → Collect Unit :=
    fun n spec _ => info n .note (board.name ++ " has no checks for " ++ spec.blockType)

namespace Platform

def name (p : Platform) : String := p.board.name

/-- Runs the check that a node of its kind calls for. Fails if there is none. -/
def checkNode? (p : Platform) (n : Node) : Option (Collect Unit) :=
  match n.phrase with
  | .motorSetPower port power => p.checkMotor n port power
  | .motorStop port => p.checkMotorStop n port
  | .sensorSample sensor port => p.checkSensor n sensor port
  | .showText text => p.checkShowText n text
  | .playTone frequency duration => p.checkTone n frequency duration
  | .extension spec slots => p.checkExtension n spec slots
  | _ => none

end Platform

/-! ## Registries -/

/-- The known platforms by name. -/
structure PlatformRegistry where
  platforms : SortedMap String Platform := .empty

namespace PlatformRegistry

def names (r : PlatformRegistry) : List String := r.platforms.keys

/-- The known platforms in the order of their names. -/
def toList (r : PlatformRegistry) : List Platform := r.platforms.values

/-- Adds a platform; its name must be new. -/
def register (r : PlatformRegistry) (p : Platform) : Except Error PlatformRegistry :=
  if r.platforms.contains p.name then .error (.config (.platformTwice p.name))
  else .ok ⟨r.platforms.insert p.name p⟩

def get (r : PlatformRegistry) (name : String) : Except Error Platform :=
  match r.platforms.get? name with
  | some p => .ok p
  | none => .error (.unknownPlatform name r.names)

/-- The core kinds and those that the known platforms add. -/
def allKinds (r : PlatformRegistry) : KindRegistry :=
  r.toList.foldl (fun kinds p => kinds.registerNew p.board.extensionKinds) .core

/-- The kinds of the named platform, or those of all of them. -/
def kindsFor (r : PlatformRegistry) : (platform : Option String) → Except Error KindRegistry
  | none => .ok r.allKinds
  | some name => do (← r.get name).board.kindRegistry

end PlatformRegistry

end BlockGraph

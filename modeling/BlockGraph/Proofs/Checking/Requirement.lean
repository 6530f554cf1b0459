import BlockGraph.Proofs.Diagnostic
import BlockGraph.Proofs.Registry
import Mathlib.Data.List.Infix

/-!
# Requirements on the hardware

What motors and sensors ask of a robot. A requirement is recorded under one of two features, as a
fact that names the port.

* `Requirement.Offered`: the robot has what is required.
* `Requirement.Met`: the run has noted that it is needed.
* `Collector.Grows`: what a run that stands for certain requirements makes of a collector.
-/

namespace BlockGraph

/-! ## Requirements -/

/-- What a block requires of the hardware. -/
inductive Requirement where
  | motor (port : String)
  | sensor (type port : String)
  deriving DecidableEq, Repr

namespace Requirement

/-- The port that is required. -/
def port : Requirement → String
  | motor port | sensor _ port => port

/-- The ports of a board for such a requirement. -/
def portsOf (board : Board) : Requirement → List String
  | motor _ => board.motorPorts
  | sensor _ _ => board.sensorPorts

/-- Whether a component is what is required. -/
def Suits (c : Component) : Requirement → Prop
  | motor _ => c.category = .motor
  | sensor type _ => c = ⟨.sensor, type⟩

/-- The feature and the fact that stand for a requirement. -/
def feature : Requirement → String
  | motor _ => Feature.motors
  | sensor _ _ => Feature.sensors

def fact : Requirement → String
  | motor port => port
  | sensor type port => port ++ ":" ++ type

/-- Whether a requirement is among the facts. -/
def Listed (facts : Facts) (r : Requirement) : Prop := r.fact ∈ facts.facts r.feature

/-- A fact tells which requirement it stands for if it is known where its port ends. -/
theorem eq_of_fact_eq {r r' : Requirement} (feature : r.feature = r'.feature)
    (fact : r.fact = r'.fact) (length : r.port.length = r'.port.length) : r = r' := by
  cases r with
  | motor port =>
    cases r' with
    | motor port' => rw [show port = port' from fact]
    | sensor type' port' =>
      have : Feature.motors = Feature.sensors := feature
      exact absurd this (by decide)
  | sensor type port =>
    cases r' with
    | motor port' =>
      have : Feature.sensors = Feature.motors := feature
      exact absurd this (by decide)
    | sensor type' port' =>
      have texts : port.toList ++ (':' :: type.toList) = port'.toList ++ (':' :: type'.toList) := by
        simpa [Requirement.fact] using congrArg String.toList fact
      obtain ⟨ports, types⟩ := List.append_inj texts
        (by rwa [String.length_toList, String.length_toList])
      rw [String.toList_inj.1 ports, String.toList_inj.1 (List.cons.inj types).2]

/-- Whether the board can read the sensor that is required. -/
def Readable (board : Board) : Requirement → Prop
  | motor _ => True
  | sensor type _ => type ∈ board.sensorKinds

/-- The board has the port and can read what is there, and the right component is there. -/
structure Offered (board : Board) (config : HardwareConfig) (r : Requirement) : Prop where
  port : r.port ∈ r.portsOf board
  readable : r.Readable board
  component : ∃ c, config.component? r.port = some c ∧ r.Suits c

/-- A requirement is met: the board has the port, the right component is there, and the facts say
that it is needed. -/
structure Met (board : Board) (config : HardwareConfig) (facts : Facts) (r : Requirement) :
    Prop where
  port : r.port ∈ r.portsOf board
  component : ∃ c, config.component? r.port = some c ∧ r.Suits c
  listed : r.Listed facts

end Requirement

/-- What a phrase requires. -/
def Phrase.requirement? {α : Type} : Phrase α → Option Requirement
  | .motorSetPower port _ | .motorStop port => some (.motor port)
  | .sensorSample type port => some (.sensor type port)
  | _ => none

/-- What a node requires. -/
def Node.requirement? (n : Node) : Option Requirement := n.phrase.requirement?

/-! ## Facts -/

theorem Facts.mem_facts_record {f : Facts} {feature feature' fact fact' : String} :
    fact' ∈ (f.record feature fact).facts feature' ↔
      fact' ∈ f.facts feature' ∨ feature' = feature ∧ fact' = fact := by
  have added (s : SortedSet String) :
      fact' ∈ (s.add fact).toList ↔ fact' ∈ s.toList ∨ fact' = fact := by
    rw [SortedSet.toList, SortedSet.toList, ← SortedMap.contains_iff, ← SortedMap.contains_iff,
      SortedMap.contains, SortedMap.contains, SortedSet.add, SortedMap.get?_insert]
    split <;> simp [*]
  rw [facts, facts, record, SortedMap.get?_insert]
  by_cases same : feature' = feature
  · subst same
    simp only [if_true, Option.map_some, Option.getD_some, added, true_and]
    refine or_congr_left ?_
    cases f.byFeature.get? feature' with
    | none =>
      change fact' ∈ [] ↔ fact' ∈ []
      rfl
    | some s => rfl
  · simp [same]

/-- What a run makes of a collector if it stands for the requirements `made`. -/
structure Collector.Grows (board : Board) (made : Requirement → Prop) (c c' : Collector) :
    Prop where
  config : c'.config = c.config
  /-- Without errors all requirements are met. -/
  met : c'.store.hasErrors = false → ∀ r, made r → r.Met board c'.config c'.facts
  /-- No other requirements are recorded. -/
  only : ∀ r : Requirement, r.Listed c'.facts → r.Listed c.facts ∨
    ∃ r', made r' ∧ r'.feature = r.feature ∧ r'.fact = r.fact

end BlockGraph

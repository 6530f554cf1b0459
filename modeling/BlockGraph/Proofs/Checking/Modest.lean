import BlockGraph.Proofs.Checking.Annotation
import BlockGraph.Proofs.Checking.Inactive
import BlockGraph.Proofs.Checking.Logs

/-!
# Checks of hardware

The checks of a platform see the place of their node, and the places and the constants of the
operands. They report on these nodes, and what they report is about hardware.

* `Platform.Modest`: a platform with checks of this form.
* `Platform.Known.modest`: the built-in platforms have it, and so has every platform without checks
  of its own.
-/

namespace BlockGraph

open Collector

/-! ## Findings about hardware -/

/-- The codes of findings about hardware. -/
def DiagnosticCode.hardware : List DiagnosticCode :=
  [note, portMissing, portWrongKind, sensorUnsupported, capabilityMissing, valueOutOfRange,
    textTooLong]

/-- A finding about hardware, at a node that uses it or at one of the operands. -/
def Collector.About (n : Node) (operands : List Node) (e : Node × Diagnostic) : Prop :=
  e.1 ∈ n :: operands ∧ e.2.code ∈ DiagnosticCode.hardware

/-- Two nodes at the same place with the same constant. -/
structure Node.Resembles (a b : Node) : Prop where
  location : a.location = b.location
  number : a.number? = b.number?
  text : a.text? = b.text?

/-- The checks of a platform are about the hardware that their nodes use, and see no more of an
operand than its place and its constant. -/
structure Platform.Modest (platform : Platform) : Prop where
  writes : ∀ (n : Node) (p : Phrase Node), Writes (About n p.operands) (platform.ask n p)
  congr : ∀ {a b : Node} {r : Phrase (Node × Node)}, a.location = b.location →
    (∀ c ∈ r.operands, c.1.Resembles c.2) →
      platform.ask a (r.map Prod.fst) = platform.ask b (r.map Prod.snd)

/-! ## Steps that checks are made of -/

section Writes

variable {n : Node} {operands : List Node}

theorem Collector.about_self {code : DiagnosticCode} (hardware : code ∈ DiagnosticCode.hardware)
    (severity : Severity) (message : String) :
    About n operands (n, { severity, code, message }) := ⟨List.mem_cons_self, hardware⟩

theorem Collector.about_operand {o : Node} (mem : o ∈ operands) {code : DiagnosticCode}
    (hardware : code ∈ DiagnosticCode.hardware) (severity : Severity) (message : String) :
    About n operands (o, { severity, code, message }) := ⟨List.mem_cons_of_mem _ mem, hardware⟩

theorem Collector.writes_requireMotor (port : String) :
    Writes (About n operands) (requireMotor n port) := by
  refine .get_bind (fun c d same => by rw [same]) fun c => ?_
  split
  · exact .refuse (about_self (by decide)) _
  · exact .grant _ _
  · exact .refuse (about_self (by decide)) _

theorem Collector.writes_requireSensor (sensor port : String) :
    Writes (About n operands) (requireSensor n sensor port) := by
  refine .get_bind (fun c d same => by rw [same]) fun c => ?_
  split
  · exact .refuse (about_self (by decide)) _
  · exact .refuse (about_self (by decide)) _
  · split
    · exact .grant _ _
    · exact .refuse (about_self (by decide)) _

theorem Collector.writes_requireCapability (capability fact : String) :
    Writes (About n operands) (requireCapability n capability fact) := by
  refine .get_bind (fun c d same => by simp only [same]) fun c => ?_
  dsimp only
  split
  · exact .grant _ _
  · exact .refuse (about_self (by decide)) _

theorem Board.writes_checkMotor (board : Board) (port : String) :
    Writes (About n operands) (board.checkMotor n port) := by
  have there : Writes (About n operands) (board.checkMotorPort n port) := by
    unfold checkMotorPort
    split
    · exact .pure _
    · exact .refuse (about_self (by decide)) _
  refine .bind there fun found => ?_
  split
  · exact .discard (writes_requireMotor port)
  · exact .pure _

theorem Board.writes_checkSensor (board : Board) (sensor port : String) :
    Writes (About n operands) (board.checkSensor n sensor port) := by
  unfold checkSensor
  split
  · exact .error (about_self (by decide)) _
  · split
    · exact .error (about_self (by decide)) _
    · exact .discard (writes_requireSensor sensor port)

end Writes

section Congruence

variable {a b u v : Node} (same : a.location = b.location)

include same

/-- A finding is about the place of a node. -/
theorem Collector.report_congr : report a = report b := by
  have id : a.id = b.id := congrArg Location.node same
  funext d
  unfold report DiagnosticStore.push
  rw [same, id]

theorem Collector.error_congr : error a = error b := by
  unfold error
  rw [report_congr same]

theorem Collector.refuse_congr : refuse a = refuse b := by
  unfold refuse
  rw [error_congr same]

theorem Collector.requireCapability_congr : requireCapability a = requireCapability b := by
  unfold requireCapability
  rw [refuse_congr same]

theorem Board.checkMotor_congr (board : Board) : board.checkMotor a = board.checkMotor b := by
  unfold checkMotor checkMotorPort requireMotor
  rw [refuse_congr same]

theorem Board.checkSensor_congr (board : Board) : board.checkSensor a = board.checkSensor b := by
  unfold checkSensor requireSensor
  rw [refuse_congr same, error_congr same]

end Congruence

/-! ## Known platforms -/

theorem Platform.modest_default (board : Board) : ({ board } : Platform).Modest where
  writes n p := by
    cases p with
    | motorSetPower port power | motorStop port => exact board.writes_checkMotor port
    | sensorSample sensor port => exact board.writes_checkSensor sensor port
    | showText text | playTone frequency duration =>
      exact .discard (writes_requireCapability _ _)
    | extension spec slots => exact .report (about_self (by decide) _ _)
    | _ => exact .pure _
  congr {a b r} same _ := by
    cases r with
    | motorSetPower port power | motorStop port => exact congrFun (board.checkMotor_congr same) port
    | sensorSample sensor port =>
      exact congrFun (congrFun (board.checkSensor_congr same) sensor) port
    | showText text | playTone frequency duration =>
      exact congrArg (fun x : String → String → Collect Bool => discard (x _ _))
        (requireCapability_congr same)
    | extension spec slots => exact congrFun (report_congr same) _
    | _ => rfl

namespace Boards

theorem modest_calliope : calliope.Modest where
  writes n p := by
    cases p with
    | motorSetPower port power =>
      refine .bind ?_ fun _ => calliopeBoard.writes_checkMotor port
      unfold checkPower
      split
      · split
        · exact .pure _
        · exact .error (about_operand List.mem_cons_self (by decide)) _
      · exact .pure _
    | motorStop port => exact calliopeBoard.writes_checkMotor port
    | sensorSample sensor port => exact calliopeBoard.writes_checkSensor sensor port
    | showText text =>
      refine .bind ?_ fun _ => .discard (writes_requireCapability _ _)
      rw [checkMatrixText_eq]
      split
      · split
        · exact .report (about_self (by decide) _ _)
        · exact .pure _
      · exact .pure _
    | playTone frequency duration => exact .discard (writes_requireCapability _ _)
    | extension spec slots =>
      change Writes _ (checkLight _ spec _)
      unfold checkLight
      split
      · dsimp only
        split
        · exact .discard (writes_requireCapability _ _)
        · exact .error (about_self (by decide)) _
      · exact .pure _
    | _ => exact .pure _
  congr {a b r} same operands := by
    have capability := requireCapability_congr same
    cases r with
    | motorSetPower port power =>
      have power := operands power List.mem_cons_self
      change (checkPower _ >>= fun _ => calliopeBoard.checkMotor a port) =
        (checkPower _ >>= fun _ => calliopeBoard.checkMotor b port)
      unfold checkPower
      rw [power.number, error_congr power.location, calliopeBoard.checkMotor_congr same]
    | motorStop port => exact congrFun (calliopeBoard.checkMotor_congr same) port
    | sensorSample sensor port =>
      exact congrFun (congrFun (calliopeBoard.checkSensor_congr same) sensor) port
    | showText text =>
      have text := operands text List.mem_cons_self
      change (checkMatrixText _ _ >>= fun _ => discard (requireCapability a _ _)) =
        (checkMatrixText _ _ >>= fun _ => discard (requireCapability b _ _))
      rw [checkMatrixText_eq, checkMatrixText_eq, text.text, capability]
      unfold warning
      rw [report_congr same]
    | playTone frequency duration =>
      exact congrArg (fun x : String → String → Collect Bool => discard (x _ _)) capability
    | extension spec slots =>
      change checkLight a spec _ = checkLight b spec _
      unfold checkLight
      rw [Phrase.extensionLiteral?_map, Phrase.extensionLiteral?_map, capability, error_congr same]
    | _ => rfl

theorem modest_nxt : nxt.Modest where
  writes n p := by
    cases p with
    | playTone frequency duration =>
      have play : Writes (About n [frequency, duration]) _ :=
        .discard (writes_requireCapability Feature.sound "tone")
      change Writes _ (checkFrequency n frequency)
      unfold checkFrequency
      dsimp only
      split
      · split
        · exact play
        · exact .error (about_operand List.mem_cons_self (by decide)) _
      · exact play
    | _ => exact (Platform.modest_default nxt.board).writes n _
  congr {a b r} same operands := by
    cases r with
    | playTone frequency duration =>
      have tone := operands frequency List.mem_cons_self
      change checkFrequency _ _ = checkFrequency _ _
      unfold checkFrequency
      rw [tone.number, error_congr tone.location, requireCapability_congr same]
    | _ => exact (Platform.modest_default nxt.board).congr same operands

end Boards

theorem Platform.Known.modest {platform : Platform} (known : platform.Known) : platform.Modest := by
  rcases known with ⟨name, known⟩ | ⟨board, rfl⟩
  · obtain ⟨-, rfl | rfl | rfl⟩ := PlatformRegistry.get_builtin_cases known
    · exact Platform.modest_default _
    · exact Boards.modest_calliope
    · exact Boards.modest_nxt
  · exact Platform.modest_default board

/-! ## Findings of platforms -/

/-- The checks of a platform add findings of a certain form, and take none away. -/
def Platform.Adds (Own : Diagnostic → Prop) (platform : Platform) : Prop :=
  ∀ n p c, ∃ found, ((platform.ask n p).run c).2.store.toList = c.store.toList ++ found ∧
    ∀ d ∈ found, Own d

theorem Platform.Modest.adds {platform : Platform} (modest : platform.Modest) :
    platform.Adds (·.code ∈ DiagnosticCode.hardware) := by
  intro n p c
  obtain ⟨a, findings, facts, about, run⟩ := modest.writes n p c.config
  refine ⟨findings.map fun e => { e.2 with location := some e.1.location }, ?_, ?_⟩
  · rw [run c rfl]
    exact DiagnosticStore.toList_pushAll _ _
  · rw [List.forall_mem_map]
    exact fun e he => (about e he).2

end BlockGraph

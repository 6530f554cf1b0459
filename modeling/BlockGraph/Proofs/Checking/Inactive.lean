import BlockGraph.Mapping.Reading
import BlockGraph.Proofs.Checking.Congruence
import BlockGraph.Proofs.Checking.Parallel
import BlockGraph.Proofs.Node.Content
import BlockGraph.Proofs.Registry
import Mathlib

/-!
# Inactive nodes

A pass skips inactive nodes, so what is written in them has no influence on a run. There is one way
around this: two of the built-in platforms look at the constants among the operands of a node, and
do not ask whether the operands are active.

* `Platform.SeesOnly`: the operands that a platform looks at itself.
* `Node.Agree`: nodes that differ inside inactive nodes only.
* `Parallel.congruence`, `Parallel.check`: their checks go in parallel.
* `Program.gist_validate_of_agree`: programs that differ inside inactive nodes only, but not in
  constants that the platform sees, have outcomes that say the same.
-/

namespace BlockGraph

/-! ## What platforms look at -/

/-- The text of a text constant. -/
def Node.text? (n : Node) : Option String :=
  match n.phrase with
  | .stringConst text => some text
  | _ => none

/-- The operands in which a platform looks for constants. -/
structure Looks where
  /-- A number, in the power of a motor. -/
  power : Bool := false
  /-- A text, in what is shown. -/
  text : Bool := false
  /-- A number, in the frequency of a tone. -/
  frequency : Bool := false

/-- What the built-in platforms look at. -/
def Boards.looks (robot : String) : Looks :=
  if robot = "calliope" then { power := true, text := true }
  else if robot = "nxt" then { frequency := true }
  else {}

/-- The operands of two phrases hold the same constants as far as a platform looks at them. -/
def Looks.Same (looks : Looks) : Phrase Node → Phrase Node → Prop
  | .motorSetPower _ u, .motorSetPower _ v => looks.power = true → u.number? = v.number?
  | .showText u, .showText v => looks.text = true → u.text? = v.text?
  | .playTone u _, .playTone v _ => looks.frequency = true → u.number? = v.number?
  | _, _ => True

open Collector in
/-- The checks of a platform see no more of the operands than `looks`. -/
structure Platform.SeesOnly (platform : Platform) (looks : Looks) : Prop where
  motor : ∀ {a b u v : Node} (port : String), a.blockId? = b.blockId? → u.blockId? = v.blockId? →
    (looks.power = true → u.number? = v.number?) →
      Parallel Alike (platform.checkMotor a port u) (platform.checkMotor b port v)
  motorStop : ∀ {a b : Node} (port : String), a.blockId? = b.blockId? →
    Parallel Alike (platform.checkMotorStop a port) (platform.checkMotorStop b port)
  sensor : ∀ {a b : Node} (sensor port : String), a.blockId? = b.blockId? →
    Parallel Alike (platform.checkSensor a sensor port) (platform.checkSensor b sensor port)
  showText : ∀ {a b u v : Node}, a.blockId? = b.blockId? →
    (looks.text = true → u.text? = v.text?) →
      Parallel Alike (platform.checkShowText a u) (platform.checkShowText b v)
  tone : ∀ {a b u v u' v' : Node}, a.blockId? = b.blockId? → u.blockId? = v.blockId? →
    (looks.frequency = true → u.number? = v.number?) →
      Parallel Alike (platform.checkTone a u u') (platform.checkTone b v v')
  extension : ∀ {a b : Node} (spec : ExtensionSpec) (slots : List (SlotValue (Node × Node))),
    a.blockId? = b.blockId? →
      Parallel Alike (platform.checkExtension a spec (slots.map (SlotValue.map Prod.fst)))
        (platform.checkExtension b spec (slots.map (SlotValue.map Prod.snd)))

section Checks

open Collector

variable {a b u v : Node} (block : a.blockId? = b.blockId?)

include block

protected theorem Parallel.checkMotor (board : Board) (port : String) :
    Parallel Alike (board.checkMotor a port) (board.checkMotor b port) := by
  unfold Board.checkMotor
  have there : Parallel Alike (board.checkMotorPort a port) (board.checkMotorPort b port) := by
    unfold Board.checkMotorPort
    split
    · exact .pure _
    · exact .refuse block _ _
  refine .bind there fun found => ?_
  split
  · exact .discard (.requireMotor block port)
  · exact .pure _

protected theorem Parallel.checkSensor (board : Board) (sensor port : String) :
    Parallel Alike (board.checkSensor a sensor port) (board.checkSensor b sensor port) := by
  unfold Board.checkSensor
  split
  · exact .error block _ _
  · split
    · exact .error block _ _
    · exact .discard (.requireSensor block sensor port)

omit block in
/-- The checks that a platform has unless it brings its own look at no operands. -/
theorem Platform.seesOnly_default (board : Board) : ({ board } : Platform).SeesOnly {} where
  motor port block _ _ := .checkMotor block board port
  motorStop port block := .checkMotor block board port
  sensor sensor port block := .checkSensor block board sensor port
  showText block _ := .discard (.requireCapability block _ _)
  tone block _ _ := .discard (.requireCapability block _ _)
  extension _ _ block := .report block _

end Checks

namespace Boards

open Collector

variable {a b u v : Node}

theorem parallel_checkPower (block : u.blockId? = v.blockId?) (same : u.number? = v.number?) :
    Parallel Alike (checkPower u) (checkPower v) := by
  unfold checkPower
  rw [same]
  split
  · split
    · exact .pure _
    · exact .error block _ _
  · exact .pure _

theorem checkMatrixText_eq (n text : Node) : checkMatrixText n text = match text.text? with
    | some text =>
      if matrixTextLimit < text.length then
        warning n .textTooLong
          (toString text.length ++ " characters scroll slowly on the LED matrix")
      else return
    | none => return := by
  unfold checkMatrixText Node.text?
  cases text.phrase <;> rfl

theorem parallel_checkMatrixText (block : a.blockId? = b.blockId?) (same : u.text? = v.text?) :
    Parallel Alike (checkMatrixText a u) (checkMatrixText b v) := by
  rw [checkMatrixText_eq, checkMatrixText_eq, same]
  split
  · split
    · exact .report block _
    · exact .pure _
  · exact .pure _

theorem parallel_checkFrequency (block : a.blockId? = b.blockId?)
    (operand : u.blockId? = v.blockId?) (same : u.number? = v.number?) :
    Parallel Alike (checkFrequency a u) (checkFrequency b v) := by
  have play := Parallel.requireCapability block Feature.sound "tone"
  unfold checkFrequency
  rw [same]
  dsimp only
  split
  · split
    · exact play.discard
    · exact .error operand _ _
  · exact play.discard

end Boards

/-- A literal is not changed by what changes the other slots only. -/
theorem Phrase.extensionLiteral?_of_literals {α β : Type} {g : SlotValue α → SlotValue β}
    (literals : ∀ v text, g v = .literal text ↔ v = .literal text) (spec : ExtensionSpec)
    (slots : List (SlotValue α)) (internal : String) :
    extensionLiteral? spec (slots.map g) internal = extensionLiteral? spec slots internal := by
  unfold extensionLiteral? extensionSlot?
  cases spec.fields.findIdx? (·.internal == internal) with
  | none => rfl
  | some i =>
    simp only [Option.bind_some, List.getElem?_map]
    cases slots[i]? with
    | none => rfl
    | some v =>
      cases v with
      | literal text =>
        rw [Option.map_some, (literals _ text).2 rfl]
      | _ =>
        split
        · next same => cases (literals _ _).1 (Option.some.inj same)
        · rfl

/-- A literal does not depend on the nodes in the other slots. -/
theorem Phrase.extensionLiteral?_map {α β : Type} (f : α → β) (spec : ExtensionSpec)
    (slots : List (SlotValue α)) (internal : String) :
    extensionLiteral? spec (slots.map (SlotValue.map f)) internal =
      extensionLiteral? spec slots internal :=
  extensionLiteral?_of_literals (fun v text => by cases v <;> simp [SlotValue.map]) spec slots
    internal

namespace Boards

theorem seesOnly_calliope : calliope.SeesOnly { power := true, text := true } where
  motor port block operand same :=
    .bind (parallel_checkPower operand (same rfl)) fun _ => .checkMotor block _ port
  motorStop port block := .checkMotor block _ port
  sensor sensor port block := .checkSensor block _ sensor port
  showText block same := .bind (parallel_checkMatrixText block (same rfl)) fun _ =>
    .discard (.requireCapability block _ _)
  tone block _ _ := .discard (.requireCapability block _ _)
  extension spec slots block := by
    change Parallel _ (checkLight _ spec _) (checkLight _ spec _)
    unfold checkLight
    rw [Phrase.extensionLiteral?_map, Phrase.extensionLiteral?_map]
    split
    · dsimp only
      split
      · exact .discard (.requireCapability block _ _)
      · exact .error block _ _
    · exact .pure _

theorem seesOnly_nxt : nxt.SeesOnly { frequency := true } where
  motor port block _ _ := .checkMotor block _ port
  motorStop port block := .checkMotor block _ port
  sensor sensor port block := .checkSensor block _ sensor port
  showText block _ := .discard (.requireCapability block _ _)
  tone block operand same := parallel_checkFrequency block operand (same rfl)
  extension _ _ block := .report block _

end Boards

theorem Platform.seesOnly_of_builtin {robot : String} {platform : Platform}
    (known : PlatformRegistry.builtin.get robot = .ok platform) :
    platform.SeesOnly (Boards.looks robot) := by
  obtain ⟨rfl, rfl | rfl | rfl⟩ := PlatformRegistry.get_builtin_cases known
  · exact Platform.seesOnly_default _
  · exact Boards.seesOnly_calliope
  · exact Boards.seesOnly_nxt

/-! ## Agreement -/

/-- Two nodes that differ inside inactive nodes only, and not in constants that a platform sees. -/
inductive Node.Agree (looks : Looks) (R : NodeId → NodeId → Prop) : Node → Node → Prop
  | inactive {a b : Node} (block : a.blockId? = b.blockId?) (left : a.isActive = false)
      (right : b.isActive = false) (missing : a.phrase.isEmptyExpr = b.phrase.isEmptyExpr) :
      Agree looks R a b
  | kept {a b : Node} (id : R a.id b.id) (block : a.blockId? = b.blockId?)
      (active : a.isActive = b.isActive)
      (shape : a.phrase.map (fun _ => ()) = b.phrase.map fun _ => ())
      (below : ∀ c ∈ a.children.zip b.children, Agree looks R c.1 c.2)
      (same : looks.Same a.phrase b.phrase) : Agree looks R a b

/-- Two programs that differ inside inactive nodes only, and not in constants that a platform
sees. -/
def Program.Agree (looks : Looks) (R : NodeId → NodeId → Prop) (p q : Program) : Prop :=
  List.Forall₂ (fun i j => i.body.Agree looks R j.body ∧
    List.Forall₂ (Node.Agree looks R) i.statements j.statements) p.instances q.instances

namespace Node.Agree

variable {looks : Looks} {R : NodeId → NodeId → Prop} {a b : Node}

theorem block (h : a.Agree looks R b) : a.blockId? = b.blockId? := by
  cases h with
  | inactive block => exact block
  | kept _ block => exact block

theorem isActive (h : a.Agree looks R b) : a.isActive = b.isActive := by
  cases h with
  | inactive _ left right => rw [left, right]
  | kept _ _ active => exact active

theorem missing (h : a.Agree looks R b) : a.phrase.isEmptyExpr = b.phrase.isEmptyExpr := by
  cases h with
  | inactive _ _ _ missing => exact missing
  | kept _ _ _ shape =>
    obtain ⟨r, left, right⟩ := Phrase.exists_zip shape
    rw [← left, ← right]
    cases r <;> rfl

end Node.Agree

namespace Parallel

open Checker CheckState

variable {looks : Looks} {R : NodeId → NodeId → Prop} {platform : Platform} {a b : Node}

/-- Going in parallel goes along with how checks are put together. -/
theorem congruence : Congruence fun _ => Parallel (Alike R) where
  pure := .pure
  bind := .bind
  get same each := .get_bind fun s t h => by
    rw [(same t s h.methods.symm h.loopDepth.symm h.round.symm).2]
    exact each s
  loopBody := .loopBody
  outsideLoops := .outsideLoops
  withScope := .withScope

theorem congruence_nodes (unique : Relator.BiUnique R) (twin : a.Twin R b) :
    Congruence.Nodes (fun _ => Parallel (Alike R)) a b where
  kind := twin.kind
  error code message _ := .fault twin.block code message
  lookup := .lookup unique twin.block
  bindName _ := .bindName twin
  declare _ := .declare twin

theorem congruence_children {c d : Child} (child : Indistinct R c d) :
    Congruence.Children (fun _ => Parallel (Alike R)) c d where
  missing := child.missing
  mismatch := .fault child.block _
  result := child.result

/-- What a platform asks of twins goes in parallel, as far as the platform looks at operands. -/
protected theorem ask (sees : platform.SeesOnly looks) (block : a.blockId? = b.blockId?)
    {r : Phrase (Node × Node)} (inside : ∀ c ∈ r.children, c.1.blockId? = c.2.blockId?)
    (same : looks.Same (r.map Prod.fst) (r.map Prod.snd)) :
    Parallel Collector.Alike (platform.ask a (r.map Prod.fst))
      (platform.ask b (r.map Prod.snd)) := by
  cases r with
  | motorSetPower port power => exact sees.motor port block (inside _ List.mem_cons_self) same
  | motorStop port => exact sees.motorStop port block
  | sensorSample type port => exact sees.sensor type port block
  | showText text => exact sees.showText block same
  | playTone frequency duration => exact sees.tone block (inside _ List.mem_cons_self) same
  | extension spec slots => exact sees.extension spec slots block
  | _ => exact .pure _

/-- A run of the checks goes in parallel on nodes that agree. -/
protected theorem check (sees : platform.SeesOnly looks) (unique : Relator.BiUnique R)
    (agree : a.Agree looks R b) :
    Parallel (Alike R) (check platform a) (check platform b) := by
  induction agree with
  | inactive _ left right =>
    rw [check_eq, check_eq, left, right]
    exact .pure none
  | @kept a b id block active shape below same ih =>
    obtain ⟨r, left, right⟩ := Phrase.exists_zip shape
    have children : a.children.zip b.children = r.children := by
      rw [Node.children, Node.children, ← left, ← right, Phrase.children_map, Phrase.children_map]
      exact (List.zip_of_prod rfl rfl).symm
    rw [children] at below ih
    have twin : a.Twin R b := ⟨id, block, by
      rw [Node.kind, Node.kind, ← left, ← right, Phrase.kind_map, Phrase.kind_map]⟩
    have asked := Parallel.ask sees block (fun c hc => (below c hc).block)
      (by rwa [left, right])
    rw [left, right] at asked
    exact congruence.check (congruence_nodes unique twin) left right active
      (fun c hc => congruence_children ⟨(below c hc).block, (below c hc).missing, ih c hc⟩)
      (.collect asked)

/-! ## Runs -/

/-- Active nodes that agree say the same, but for what is inside. -/
theorem exists_zip_of_agree (agree : a.Agree looks R b) (active : a.isActive = true) :
    ∃ r : Phrase (Node × Node), r.map Prod.fst = a.phrase ∧ r.map Prod.snd = b.phrase := by
  cases agree with
  | inactive _ left => rw [left] at active; cases active
  | kept _ _ _ shape => exact Phrase.exists_zip shape

protected theorem defineIfMethod (agree : a.Agree looks R b) (active : a.isActive = true) :
    Parallel (Alike R) (defineIfMethod a) (defineIfMethod b) := by
  obtain ⟨r, left, right⟩ := exists_zip_of_agree agree active
  unfold Checker.defineIfMethod
  rw [← left, ← right]
  cases r with
  | methodDef name => exact .define agree.block name
  | _ => exact .pure _

protected theorem checkIfStart (sees : platform.SeesOnly looks) (unique : Relator.BiUnique R)
    (agree : a.Agree looks R b) (active : a.isActive = true) :
    Parallel (Alike R) (checkIfStart platform a) (checkIfStart platform b) := by
  obtain ⟨r, left, right⟩ := exists_zip_of_agree agree active
  unfold Checker.checkIfStart
  rw [← left, ← right]
  cases r with
  | mainTask => exact .discard (.check sees unique agree)
  | _ => exact .pure _

/-- The active statements on the canvas of programs that agree. -/
theorem forall₂_topLevel {p q : Program} (agree : p.Agree looks R q) :
    List.Forall₂ (fun a b => a.isActive = true ∧ a.Agree looks R b) (topLevel p) (topLevel q) := by
  rw [List.forall₂_and_left]
  refine ⟨fun a ha => (List.mem_filter.1 ha).2, ?_⟩
  refine List.rel_filter (fun a b agree => Bool.eq_iff_iff.1 agree.isActive) ?_
  exact List.rel_flatMap agree fun i j agree => agree.2

/-- A run goes in parallel if the steps that it is made of do. -/
protected theorem run_of {p q : Program}
    (canvas : List.Forall₂ (fun a b => Parallel (Alike R) (defineIfMethod a) (defineIfMethod b) ∧
      Parallel (Alike R) (checkIfStart platform a) (checkIfStart platform b))
        (topLevel p) (topLevel q))
    (chains : List.Forall₂ (fun i j : Instance =>
      Parallel (Alike R) (check platform i.body) (check platform j.body)) p.instances q.instances) :
    Parallel (Alike R) (run platform p) (run platform q) :=
  .bind (.forM canvas fun _ _ h => h.1) fun _ => .bind (.forM canvas fun _ _ h => h.2) fun _ =>
    .bind (.modify fun _ _ h => { h with round := rfl }) fun _ =>
    .bind (.forM chains fun _ _ h => .discard h) fun _ =>
    .get_bind fun _ _ h => .forM h.declared fun _ _ h => .warnIfUnused h.1 h.2

protected theorem run {p q : Program} (sees : platform.SeesOnly looks)
    (unique : Relator.BiUnique R) (agree : p.Agree looks R q) :
    Parallel (Alike R) (run platform p) (run platform q) :=
  .run_of ((forall₂_topLevel agree).imp fun _ _ h =>
      ⟨.defineIfMethod h.2 h.1, .checkIfStart sees unique h.2 h.1⟩)
    (agree.imp fun _ _ h => .check sees unique h.1)

end Parallel

/-! ## Outcomes -/

/-- Runs that go in parallel have outcomes that say the same. -/
theorem Platform.gist_validate_of_parallel {platform : Platform} {R : NodeId → NodeId → Prop}
    {p q : Program}
    (runs : Parallel (CheckState.Alike R) (Checker.run platform p) (Checker.run platform q))
    (config : HardwareConfig) :
    (platform.validate p config).gist = (platform.validate q config).gist := by
  have start : CheckState.Alike R { collector := { config } } { collector := { config } } :=
    ⟨⟨rfl, rfl, rfl⟩, fun _ => .none, .nil, fun _ _ _ => rfl, rfl, rfl, rfl⟩
  have final := (runs _ _ start).2.collector
  unfold ValidationOutcome.gist Platform.validate Collector.finish
  simp only [final.findings, final.facts]

theorem Platform.gist_validate_eq {platform : Platform} {looks : Looks}
    {R : NodeId → NodeId → Prop} (sees : platform.SeesOnly looks) (unique : Relator.BiUnique R)
    {p q : Program} (agree : p.Agree looks R q) (config : HardwareConfig) :
    (platform.validate p config).gist = (platform.validate q config).gist :=
  gist_validate_of_parallel (Parallel.run sees unique agree) config

/-- Programs that differ inside inactive nodes only have outcomes that say the same, as long as
they do not differ in constants that the platform sees. -/
theorem Program.gist_validate_of_agree {R : NodeId → NodeId → Prop} (unique : Relator.BiUnique R)
    {p q : Program} {config : HardwareConfig} (agree : p.Agree (Boards.looks config.robot) R q) :
    (validate p config).map ValidationOutcome.gist =
      (validate q config).map ValidationOutcome.gist := by
  unfold validate PlatformRegistry.validate
  cases known : PlatformRegistry.builtin.get config.robot with
  | error e => rfl
  | ok platform =>
    have sees := Platform.seesOnly_of_builtin known
    exact congrArg Except.ok (Platform.gist_validate_eq sees unique agree config)

/-- A motor whose power is a disabled block. -/
def muted (power : String) : Document where
  formatVersion := "3.1"
  instances := [{ blocks := [.mk {
    id := "a", type := "robActions_motor_setPower", fields := [⟨"MOTORPORT", "A"⟩]
    values := [⟨"POWER", .mk {
      id := "b", type := "math_number", attributes := { disabled := true }
      fields := [⟨"NUM", power⟩] }⟩] }] }]

def mutedMotor (power : String) : Node :=
  let operand : Node := .mk
    { id := ⟨1⟩, sealed := true, blockId := "b", attributes := { disabled := true } }
    (.numConst power)
  .mk { id := ⟨2⟩, sealed := true, blockId := "a" } (.motorSetPower "A" operand)

/-- What is read from the document. -/
def mutedProgram (power : String) : Program where
  formatVersion := "3.1"
  instances := [⟨0, 0, .mk { id := ⟨3⟩, sealed := true } (.stmtList [mutedMotor power])⟩]

theorem exists_ofDocument_muted (power : String) :
    ∃ s, (Program.ofDocument .core (muted power)).run {} = (.ok (mutedProgram power), s) := by
  refine ⟨{ next := 4 }, ?_⟩
  cbv

/-- A robot with one motor, at port A. -/
def motorAt (robot : String) : HardwareConfig where
  robot := robot
  components := .ofList [("A", ⟨.motor, "motor"⟩)]

theorem biUnique_eq {α : Type} : Relator.BiUnique (Eq : α → α → Prop) :=
  ⟨fun _ _ _ h h' => h.trans h'.symm, fun _ _ _ h h' => h.symm.trans h'⟩

theorem agree_muted {looks : Looks} (blind : looks.power = false) (u v : String) :
    (mutedProgram u).Agree looks Eq (mutedProgram v) := by
  have motors : (mutedMotor u).Agree looks Eq (mutedMotor v) := by
    refine .kept rfl rfl rfl rfl (fun c hc => ?_) fun seen => ?_
    · obtain rfl := List.mem_singleton.1 hc
      exact .inactive rfl rfl rfl rfl
    · rw [blind] at seen
      cases seen
  refine .cons ⟨.kept rfl rfl rfl rfl (fun c hc => ?_) trivial, .cons motors .nil⟩ .nil
  obtain rfl := List.mem_singleton.1 hc
  exact motors

/-- A platform that does not look at the power of motors cannot tell what a disabled operand
says. -/
theorem Program.gist_validate_muted :
    (∃ s, (ofDocument .core (muted "200")).run {} = (.ok (mutedProgram "200"), s)) ∧
      (validate (mutedProgram "200") (motorAt "ev3")).map ValidationOutcome.gist =
        (validate (mutedProgram "5") (motorAt "ev3")).map ValidationOutcome.gist :=
  ⟨exists_ofDocument_muted _, gist_validate_of_agree biUnique_eq (agree_muted rfl "200" "5")⟩

/-- A platform that looks at the power of motors finds fault with a disabled operand. -/
theorem Program.gist_validate_muted_ne :
    (∃ s, (ofDocument .core (muted "200")).run {} = (.ok (mutedProgram "200"), s)) ∧
      (∃ s, (ofDocument .core (muted "5")).run {} = (.ok (mutedProgram "5"), s)) ∧
      (mutedProgram "200").Agree {} Eq (mutedProgram "5") ∧
      (validate (mutedProgram "200") (motorAt "calliope")).map ValidationOutcome.gist ≠
        (validate (mutedProgram "5") (motorAt "calliope")).map ValidationOutcome.gist := by
  refine ⟨exists_ofDocument_muted _, exists_ofDocument_muted _, agree_muted rfl "200" "5",
    fun same => ?_⟩
  have lengths := congrArg (fun o => o.toOption.map (·.2.1.length)) same
  revert lengths
  decide +kernel

end BlockGraph

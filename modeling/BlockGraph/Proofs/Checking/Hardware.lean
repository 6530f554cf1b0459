import BlockGraph.Proofs.Checking.Examined

/-!
# Exactness of the hardware facts

A built-in platform notes a motor or a sensor for exactly those nodes that a run checks and whose
hardware the robot has. Every other use of hardware is reported at the node or at an operand of it.

* `Checker.Checked`: the nodes that a run checks, told by their ancestors.
* `Checker.does_check_iff`: a run checks exactly these.
* `Program.accounts_of_ofDocument`: the facts of a run.
-/

namespace BlockGraph

namespace Checker

variable {board : Board} {program : Program} {n : Node}

/-! ## Checked nodes -/

/-- A node that a run checks: it is active, like all its ancestors, none of which is an extension
that the board does not have, and the outermost start block among them is a statement on the
canvas. -/
def Checked (board : Board) (program : Program) (n : Node) : Prop :=
  ∃ i ∈ program.instances, ∃ ancestors, i.body.Below ancestors n ∧
    (∀ m ∈ n :: ancestors, m.isActive = true) ∧ (∀ m ∈ ancestors, m.phrase.Listed board) ∧
      ∀ t, ancestors.find? (·.kind = .mainTask) = some t → t ∈ topLevel program

/-- What the second round visits has no start block above it. -/
theorem checked_of_chains {i : Instance} (mem : i ∈ program.instances)
    (leads : i.body.Leads board .chains n) : Checked board program n := by
  obtain ⟨ancestors, below, active, opens⟩ := leads
  refine ⟨i, mem, ancestors, below, active, fun m hm => (opens m hm).1, fun t first => ?_⟩
  have start : t.kind = .mainTask := by simpa using List.find?_some first
  cases (opens t (List.mem_of_find?_eq_some first)).2 start

/-- What the first round visits is below the start block where it began. -/
theorem checked_of_declarations
    (chains : ∀ i ∈ program.instances, i.body.isActive = true ∧
      ∃ statements, i.body.phrase = .stmtList statements)
    {t : Node} (top : t ∈ topLevel program) (start : t.kind = .mainTask)
    (leads : t.Leads board .declarations n) : Checked board program n := by
  obtain ⟨i, mem, statement⟩ := List.mem_flatMap.1 (List.mem_of_mem_filter top)
  obtain ⟨active, statements, chain⟩ := chains i mem
  have child : t ∈ i.body.children := by
    rw [Instance.statements, Node.statements, chain] at statement
    rw [Node.children, chain]
    exact statement
  have kind : i.body.kind = .stmtList := by rw [Node.kind, chain]; rfl
  have listed : i.body.phrase.Listed board := by rw [chain]; trivial
  obtain ⟨ancestors, below, inside, opens⟩ := leads
  rw [List.forall_mem_cons] at inside
  refine ⟨i, mem, i.body :: ancestors, .child child below, ?_, ?_, fun u first => ?_⟩
  · exact List.forall_mem_cons.2 ⟨inside.1, List.forall_mem_cons.2 ⟨active, inside.2⟩⟩
  · exact List.forall_mem_cons.2 ⟨listed, fun m hm => (opens m hm).1⟩
  · rw [List.find?_cons_of_neg (by simp [kind])] at first
    cases below with
    | refl => cases first
    | child =>
      rw [List.find?_cons_of_pos (by simp [start])] at first
      cases first
      exact top

/-- A run checks exactly the checked nodes. -/
theorem does_check_iff (chains : ∀ i ∈ program.instances, i.body.isActive = true ∧
      ∃ statements, i.body.phrase = .stmtList statements) :
    Does board program (.check n) ↔ Checked board program n := by
  constructor
  · intro h
    rcases h with ⟨_, -, h⟩ | ⟨t, top, start, _, leads, h⟩ | ⟨i, mem, _, leads, h⟩ <;> cases h
    · exact checked_of_declarations chains top start leads
    · exact checked_of_chains mem leads
  · intro h
    obtain ⟨i, mem, ancestors, below, active, listed, outermost⟩ := h
    cases first : ancestors.find? (·.kind = .mainTask) with
    | none =>
      have inner : ∀ m ∈ ancestors, m.kind ≠ .mainTask := by simpa using first
      refine .inr (.inr ⟨i, mem, n, ⟨ancestors, below, active, fun m hm => ?_⟩, rfl⟩)
      exact ⟨listed m hm, fun start => absurd start (inner m hm)⟩
    | some t =>
      obtain ⟨start, before, after, rfl, -⟩ := List.find?_eq_some_iff_append.1 first
      have inside {m : Node} (hm : m ∈ t :: after) : m ∈ before ++ t :: after :=
        List.mem_append_right _ hm
      refine .inr (.inl ⟨t, outermost t first, by simpa using start, n, ⟨t :: after,
        (Node.below_append_iff.1 below).2, ?_, fun m hm => ⟨listed m (inside hm), fun _ => rfl⟩⟩,
          rfl⟩)
      rw [List.forall_mem_cons] at active ⊢
      exact ⟨active.1, fun m hm => active.2 m (inside hm)⟩

theorem does_define_iff : Does board program (.define n) ↔ n ∈ topLevel program := by
  constructor
  · intro h
    rcases h with ⟨m, mem, h⟩ | ⟨_, -, -, _, -, h⟩ | ⟨_, -, _, -, h⟩ <;> cases h
    exact mem
  · intro h
    exact .inl ⟨n, h, rfl⟩

/-! ## Facts -/

/-- What the facts of a run say about the hardware that checked nodes use. -/
structure Accounts (platform : Platform) (program : Program) (config : HardwareConfig)
    (outcome : ValidationOutcome) : Prop where
  motors : ∀ port, port ∈ outcome.facts.facts Feature.motors ↔
    ∃ n, Checked platform.board program n ∧
      ((∃ power, n.phrase = .motorSetPower port power) ∨ n.phrase = .motorStop port) ∧
      port ∈ platform.board.motorPorts ∧ ∃ kind, config.component? port = some ⟨.motor, kind⟩
  sensors : ∀ fact, fact ∈ outcome.facts.facts Feature.sensors ↔
    ∃ n type port, Checked platform.board program n ∧ n.phrase = .sensorSample type port ∧
      port ∈ platform.board.sensorPorts ∧ type ∈ platform.board.sensorKinds ∧
      config.component? port = some ⟨.sensor, type⟩ ∧ fact = port ++ ":" ++ type
  methods : ∀ name, name ∈ outcome.facts.facts Feature.methodNames ↔
    ∃ n ∈ topLevel program, ∃ body, n.phrase = .methodDef name body
  answered : ∀ n, Checked platform.board program n → ∀ feature fact,
    n.phrase.use? (Boards.displayFact platform) = some (feature, fact) →
      fact ∈ outcome.facts.facts feature ∨ outcome.diagnostics.Blames n

/-- The facts that are accounted for are those that the deeds of a run call for. -/
theorem mem_facts_run_iff {f : Frame} {config : HardwareConfig} {c : Collector}
    (gains : ({ config } : Collector).Gains f (Does f.board program) c) {feature : String}
    (counted : feature ∈ Feature.counted) {fact : String} :
    fact ∈ c.facts.facts feature ↔
      ∃ deed, Does f.board program deed ∧ deed.Grants f.board config feature fact := by
  constructor
  · intro h
    exact (gains.only feature counted fact h).resolve_left (by simp [Facts.facts])
  · intro h
    obtain ⟨deed, does, grants⟩ := h
    exact gains.granted deed does feature fact grants

/-- Only the nodes that require something are noted under a feature that stands for requirements. -/
theorem exists_grants_iff {config : HardwareConfig} {feature fact : String}
    (hardware : feature ≠ Feature.methodNames)
    (chains : ∀ i ∈ program.instances, i.body.isActive = true ∧
      ∃ statements, i.body.phrase = .stmtList statements) :
    (∃ deed, Does board program deed ∧ deed.Grants board config feature fact) ↔
      ∃ n, Checked board program n ∧ ∃ r, n.requirement? = some r ∧ r.Offered board config ∧
        r.feature = feature ∧ r.fact = fact := by
  constructor
  · intro h
    obtain ⟨_ | n, does, grants⟩ := h
    · exact absurd grants.1 hardware
    · exact ⟨n, (does_check_iff chains).1 does, grants⟩
  · intro h
    obtain ⟨n, checked, grants⟩ := h
    exact ⟨.check n, (does_check_iff chains).2 checked, grants⟩

theorem motor_offered_iff {config : HardwareConfig} {port : String} :
    (∃ r, n.requirement? = some r ∧ r.Offered board config ∧ r.feature = Feature.motors ∧
      r.fact = port) ↔
      ((∃ power, n.phrase = .motorSetPower port power) ∨ n.phrase = .motorStop port) ∧
        port ∈ board.motorPorts ∧ ∃ kind, config.component? port = some ⟨.motor, kind⟩ := by
  constructor
  · intro h
    obtain ⟨r, required, offered, feature, rfl⟩ := h
    cases r with
    | motor port =>
      refine ⟨?_, offered.port, ?_⟩
      · unfold Node.requirement? at required
        cases phrase : n.phrase <;> rw [phrase] at required <;> cases required
        · exact .inl ⟨_, rfl⟩
        · exact .inr rfl
      · obtain ⟨⟨category, kind⟩, found, suits⟩ := offered.component
        cases (show category = .motor from suits)
        exact ⟨kind, found⟩
    | sensor type port =>
      have : Feature.sensors = Feature.motors := feature
      exact absurd this (by decide)
  · intro h
    obtain ⟨block, known, kind, found⟩ := h
    refine ⟨.motor port, ?_, ⟨known, trivial, _, found, rfl⟩, rfl, rfl⟩
    unfold Node.requirement?
    rcases block with ⟨power, phrase⟩ | phrase <;> rw [phrase] <;> rfl

theorem sensor_offered_iff {config : HardwareConfig} {fact : String} :
    (∃ r, n.requirement? = some r ∧ r.Offered board config ∧ r.feature = Feature.sensors ∧
      r.fact = fact) ↔
      ∃ type port, n.phrase = .sensorSample type port ∧ port ∈ board.sensorPorts ∧
        type ∈ board.sensorKinds ∧ config.component? port = some ⟨.sensor, type⟩ ∧
        fact = port ++ ":" ++ type := by
  constructor
  · intro h
    obtain ⟨r, required, offered, feature, rfl⟩ := h
    cases r with
    | motor port =>
      have : Feature.motors = Feature.sensors := feature
      exact absurd this (by decide)
    | sensor type port =>
      obtain ⟨c, found, rfl⟩ := offered.component
      refine ⟨type, port, ?_, offered.port, offered.readable, found, rfl⟩
      unfold Node.requirement? at required
      cases phrase : n.phrase <;> rw [phrase] at required <;> cases required
      rfl
  · intro h
    obtain ⟨type, port, phrase, known, readable, found, rfl⟩ := h
    refine ⟨.sensor type port, ?_, ⟨known, readable, _, found, rfl⟩, rfl, rfl⟩
    unfold Node.requirement?
    rw [phrase]
    rfl

/-- The facts account for the hardware if the run does what it stands for. -/
theorem accounts_of_gains {platform : Platform} {config : HardwareConfig} {c : Collector}
    {Place : Node → Prop}
    (chains : ∀ i ∈ program.instances, i.body.isActive = true ∧
      ∃ statements, i.body.phrase = .stmtList statements)
    (gains : ({ config } : Collector).Gains
      ⟨platform.board, Boards.displayFact platform, Place⟩ (Does platform.board program) c) :
    Accounts platform program config (c.finish platform.name) where
  motors port := by
    refine (mem_facts_run_iff gains (by decide)).trans
      ((exists_grants_iff (by decide) chains).trans ?_)
    simp only [motor_offered_iff]
  sensors fact := by
    refine (mem_facts_run_iff gains (by decide)).trans
      ((exists_grants_iff (by decide) chains).trans ?_)
    simp only [sensor_offered_iff, ← exists_and_left]
  methods name := by
    refine (mem_facts_run_iff gains (by decide)).trans ?_
    constructor
    · intro h
      obtain ⟨n | n, does, grants⟩ := h
      · exact ⟨n, does_define_iff.1 does, grants.2⟩
      · obtain ⟨r, -, -, feature, -⟩ := grants
        exact absurd feature r.feature_ne_methodNames
    · intro h
      obtain ⟨n, top, method⟩ := h
      exact ⟨.define n, does_define_iff.2 top, rfl, method⟩
  answered n checked feature fact used := by
    have does : Does platform.board program (.check n) := (does_check_iff chains).2 checked
    have answers := gains.answered n does
    exact answers.noted (feature, fact) used

end Checker

/-- On a built-in platform, the facts of a run account for the hardware of all nodes that the run
checks. -/
theorem Program.accounts_of_ofDocument {registry : KindRegistry} {d : Document} {p : Program}
    {s s' : Supply} (read : (ofDocument registry d).run s = (.ok p, s')) {name : String}
    {platform : Platform} (known : PlatformRegistry.builtin.get name = .ok platform)
    (config : HardwareConfig) :
    Checker.Accounts platform p config (platform.validate p config) := by
  have orderly := Boards.orderly_of_builtin known fun _ => True
  have gains := Checker.gains_run orderly (fun n hn => ⟨(regular_of_ofDocument read n hn).paired,
    fun _ => trivial, fun _ _ _ => trivial⟩) { config }
  exact Checker.accounts_of_gains (chain_of_ofDocument read) gains

/-- A method on the canvas that stops a motor, and the robot that it is for. -/
theorem Program.accounts_hidden :
    ∃ p s, (ofDocument .core hidden).run {} = (.ok p, s) ∧
      PlatformRegistry.builtin.get oneMotor.robot = .ok Boards.ev3 ∧
        Checker.Accounts Boards.ev3 p oneMotor (Boards.ev3.validate p oneMotor) := by
  obtain ⟨p, s, -, read, -⟩ := exists_validate_hidden
  exact ⟨p, s, read, get_builtin_oneMotor,
    accounts_of_ofDocument read get_builtin_oneMotor oneMotor⟩

end BlockGraph

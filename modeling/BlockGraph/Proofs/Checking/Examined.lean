import BlockGraph.Proofs.Checking.Visits
import BlockGraph.Proofs.Mapping.Regular

/-!
# What a run examines

A run looks at the declarations of start blocks first and leaves them out when it comes to the
chains. A start block that is not a statement on the canvas is met in the second round only, and
what is inside it is never examined.

* `Platform.Sound`: on such a platform a fact tells what it stands for.
* `Checker.examined`: the nodes that a run without errors examines.
* `Program.met_iff_of_validate`: a run without errors means that exactly the requirements of
  examined nodes are met.
-/

namespace BlockGraph

open Collector

/-! ## Sound platforms -/

/-- The checks of a platform answer for the nodes that they are about, and the names of its ports do
not run into what stands behind them in a fact. -/
structure Platform.Sound (p : Platform) : Prop where
  orderly : ∃ display, ∀ Place, p.Orderly ⟨p.board, display, Place⟩
  ports : ∀ port ∈ p.board.motorPorts ++ p.board.sensorPorts, port.length = 1

/-- On a sound platform a requirement that is met is the only one with its fact. -/
theorem Platform.Sound.eq_of_met {p : Platform} (sound : p.Sound) {config : HardwareConfig}
    {facts : Facts} {r r' : Requirement} (met : r.Met p.board config facts)
    (met' : r'.Met p.board config facts) (feature : r.feature = r'.feature)
    (fact : r.fact = r'.fact) : r = r' := by
  have length {r : Requirement} (h : r.port ∈ r.portsOf p.board) : r.port.length = 1 := by
    refine sound.ports _ (List.mem_append.2 ?_)
    cases r with
    | motor => exact .inl h
    | sensor => exact .inr h
  exact Requirement.eq_of_fact_eq feature fact ((length met.port).trans (length met'.port).symm)

/-- The built-in platforms are sound. -/
theorem Platform.sound_of_builtin {name : String} {p : Platform}
    (known : PlatformRegistry.builtin.get name = .ok p) : p.Sound := by
  refine ⟨⟨_, Boards.orderly_of_builtin known⟩, ?_⟩
  obtain ⟨-, rfl | rfl | rfl⟩ := PlatformRegistry.get_builtin_cases known <;> decide

/-- Some of the nodes require `r`. -/
def Requires (nodes : List Node) (r : Requirement) : Prop := ∃ n ∈ nodes, n.requirement? = some r

/-! ## Examined nodes -/

/-- The nodes that a round of a run examines below and including a node: those that a pass reaches,
but in the second round none inside start blocks. -/
def Node.examined (round : Round) : Node → List Node :=
  recurse fun n p =>
    if n.isActive then
      n :: if n.kind = .mainTask ∧ round = .chains then [] else p.children.flatMap (·.result)
    else []

theorem Node.examined_eq (round : Round) (n : Node) :
    n.examined round = if n.isActive then
        n :: if n.kind = .mainTask ∧ round = .chains then []
          else n.children.flatMap (examined round)
      else [] := by
  rw [examined, recurse_eq]
  simp [children, List.flatMap_map]

/-- The first round examines all nodes that a pass reaches. -/
theorem Node.examined_declarations (n : Node) : n.examined .declarations = n.reached := by
  induction n using Node.induction with
  | step n ih =>
    rw [examined_eq, reached_eq, List.flatMap_congr ih]
    simp only [reduceCtorEq, and_false, if_false]

namespace Checker

/-- The nodes that a run examines: those in the start blocks on the canvas, and those in the
chains. -/
def examined (program : Program) : List Node :=
  ((topLevel program).filter (·.kind = .mainTask)).flatMap Node.reached ++
    program.instances.flatMap (·.body.examined .chains)

/-- What a round visits is examined. -/
theorem mem_examined_of_leads {board : Board} {round : Round} {root n : Node}
    (h : root.Leads board round n) : n ∈ root.examined round := by
  induction root using Node.induction with
  | step root ih =>
    obtain ⟨active, rest⟩ := Node.leads_iff.1 h
    rw [Node.examined_eq, if_pos active]
    rcases rest with rfl | ⟨opens, c, mem, leads⟩
    · exact List.mem_cons_self
    · have inside : ¬ (root.kind = .mainTask ∧ round = .chains) := by
        rintro ⟨start, rfl⟩
        cases opens.2 start
      rw [if_neg inside]
      exact List.mem_cons_of_mem _ (List.mem_flatMap.2 ⟨c, mem, ih c mem leads⟩)

/-- What is examined is visited, or the round stops at an extension that the board does not have. -/
theorem leads_of_mem_examined (board : Board) {round : Round} {root n : Node}
    (h : n ∈ root.examined round) : root.Leads board round n ∨
      ∃ e, root.Leads board round e ∧ ¬ e.phrase.Listed board := by
  induction root using Node.induction with
  | step root ih =>
    rw [Node.examined_eq] at h
    split at h
    · next active =>
      have here : root.Leads board round root := Node.leads_iff.2 ⟨active, .inl rfl⟩
      by_cases listed : root.phrase.Listed board
      · rcases List.mem_cons.1 h with rfl | h
        · exact .inl here
        · split at h
          · cases h
          · next inside =>
            have opens : root.phrase.Opens board round := by
              refine ⟨listed, fun start => ?_⟩
              cases round with
              | declarations => rfl
              | chains => exact absurd ⟨start, rfl⟩ inside
            obtain ⟨c, mem, h⟩ := List.mem_flatMap.1 h
            refine (ih c mem h).imp (fun leads => ?_) fun stop => ?_
            · exact Node.leads_iff.2 ⟨active, .inr ⟨opens, c, mem, leads⟩⟩
            · obtain ⟨e, leads, unlisted⟩ := stop
              exact ⟨e, Node.leads_iff.2 ⟨active, .inr ⟨opens, c, mem, leads⟩⟩, unlisted⟩
      · exact .inr ⟨root, here, listed⟩
    · cases h

variable {platform : Platform}

theorem mem_examined_of_does {board : Board} {program : Program} {n : Node}
    (h : Does board program (.check n)) : n ∈ examined program := by
  rw [examined, List.mem_append, List.mem_flatMap, List.mem_flatMap]
  rcases h with ⟨_, -, h⟩ | ⟨t, top, start, _, leads, h⟩ | ⟨i, mem, _, leads, h⟩ <;> cases h
  · refine .inl ⟨t, List.mem_filter.2 ⟨top, decide_eq_true start⟩, ?_⟩
    rw [← Node.examined_declarations]
    exact mem_examined_of_leads leads
  · exact .inr ⟨i, mem, mem_examined_of_leads leads⟩

/-- A run checks what is examined, or it stops at an extension that the board does not have. -/
theorem does_of_mem_examined (board : Board) {program : Program} {n : Node}
    (h : n ∈ examined program) : Does board program (.check n) ∨
      ∃ e, Does board program (.check e) ∧ ¬ e.phrase.Listed board := by
  rw [examined, List.mem_append, List.mem_flatMap, List.mem_flatMap] at h
  rcases h with ⟨t, mem, h⟩ | ⟨i, mem, h⟩
  · obtain ⟨top, start⟩ := List.mem_filter.1 mem
    have does {m : Node} (leads : t.Leads board .declarations m) : Does board program (.check m) :=
      .inr (.inl ⟨t, top, of_decide_eq_true start, m, leads, rfl⟩)
    rw [← Node.examined_declarations] at h
    refine (leads_of_mem_examined board h).imp does fun stop => ?_
    obtain ⟨e, leads, unlisted⟩ := stop
    exact ⟨e, does leads, unlisted⟩
  · have does {m : Node} (leads : i.body.Leads board .chains m) : Does board program (.check m) :=
      .inr (.inr ⟨i, mem, m, leads, rfl⟩)
    refine (leads_of_mem_examined board h).imp does fun stop => ?_
    obtain ⟨e, leads, unlisted⟩ := stop
    exact ⟨e, does leads, unlisted⟩

/-- A run without errors blames no node. -/
theorem not_blames_of_clean {c : Collector} (clean : c.store.hasErrors = false) (n : Node) :
    ¬ c.store.Blames n := by
  rintro ⟨d, mem, error, -⟩
  exact DiagnosticStore.hasErrors_eq_false_iff.1 clean d mem error

/-- A run without errors checks all that is examined. -/
theorem does_of_clean {f : Frame} {program : Program} {c c' : Collector}
    (gains : c.Gains f (Does f.board program) c') (clean : c'.store.hasErrors = false) {n : Node}
    (h : n ∈ examined program) : Does f.board program (.check n) := by
  refine (does_of_mem_examined f.board h).resolve_right fun stop => ?_
  obtain ⟨e, does, unlisted⟩ := stop
  exact unlisted ((gains.answered e does).listed.resolve_right (not_blames_of_clean clean e))

/-- A run stands for the requirements of the nodes that it examines. -/
theorem grows_run (sound : platform.Sound) {program : Program}
    (paired : ∀ n ∈ program.walk, n.phrase.Paired) (c : Collector) :
    c.Grows platform.board (Requires (examined program))
      ((run platform program).run { collector := c }).2.collector := by
  obtain ⟨display, orderly⟩ := sound.orderly
  have gains := gains_run (orderly fun _ => True) (fun n hn => ⟨paired n hn, fun _ => trivial,
    fun _ _ _ => trivial⟩) c
  generalize ((run platform program).run { collector := c }).2.collector = c' at gains ⊢
  refine ⟨gains.config, fun clean r made => ?_, fun r listed => ?_⟩
  · obtain ⟨n, mem, required⟩ := made
    have does := does_of_clean gains clean mem
    have offered := ((gains.answered n does).offered r required).resolve_right
      (not_blames_of_clean clean n)
    refine ⟨offered.port, offered.component, ?_⟩
    rw [gains.config] at offered
    exact gains.granted _ does _ _ ⟨r, required, offered, rfl, rfl⟩
  · have counted := r.feature_mem_counted
    refine (gains.only _ counted _ listed).imp_right fun made => ?_
    obtain ⟨deed, does, grants⟩ := made
    cases deed with
    | define m =>
      exact absurd grants.1 r.feature_ne_methodNames
    | check m =>
      obtain ⟨r', required, -, feature, fact⟩ := grants
      exact ⟨r', ⟨m, mem_examined_of_does does, required⟩, feature, fact⟩

/-! ## What is left out -/

/-- What a pass reaches and the second round does not examine is inside a start block. -/
theorem mem_examined_or {c n : Node} (h : n ∈ c.reached) :
    n ∈ c.examined .chains ∨ ∃ m ∈ c.reached, m.kind = .mainTask ∧ n ∈ m.reached := by
  induction c using Node.induction with
  | step c ih =>
    by_cases start : c.kind = .mainTask
    · refine .inr ⟨c, ?_, start, h⟩
      rw [Node.reached_eq] at h ⊢
      split at h
      · simp [*]
      · cases h
    rw [Node.reached_eq] at h ⊢
    rw [Node.examined_eq]
    split at h
    · next active =>
      simp only [active, start, false_and, if_false, if_true, List.mem_cons,
        List.mem_flatMap] at h ⊢
      rcases h with rfl | ⟨d, hd, h⟩
      · exact .inl (.inl rfl)
      · rcases ih d hd h with h | ⟨m, hm, h⟩
        · exact .inl (.inr ⟨d, hd, h⟩)
        · exact .inr ⟨m, .inr ⟨d, hd, hm⟩, h⟩
    · cases h

end Checker

/-! ## Hardware -/

/-- The nodes that a pass over all chains reaches. -/
def Program.reached (p : Program) : List Node := p.instances.flatMap (·.body.reached)

/-- What a pass reaches and a run does not examine is inside a start block that is no statement on
the canvas. -/
theorem Program.mem_examined_or {p : Program} {n : Node} (h : n ∈ p.reached) :
    n ∈ Checker.examined p ∨
      ∃ m ∈ p.reached, m.kind = .mainTask ∧ m ∉ Checker.topLevel p ∧ n ∈ m.reached := by
  obtain ⟨i, hi, h⟩ := List.mem_flatMap.1 h
  rw [Checker.examined, List.mem_append]
  rcases Checker.mem_examined_or h with h | ⟨m, hm, start, h⟩
  · exact .inl (.inr (List.mem_flatMap.2 ⟨i, hi, h⟩))
  · by_cases canvas : m ∈ Checker.topLevel p
    · refine .inl (.inl (List.mem_flatMap.2 ⟨m, List.mem_filter.2 ⟨canvas, ?_⟩, h⟩))
      exact decide_eq_true start
    · exact .inr ⟨m, List.mem_flatMap.2 ⟨i, hi, hm⟩, start, canvas, h⟩

/-- If a run finds no errors, what a node requires of the hardware is met if some node that the run
examines requires it. Only inside start blocks that are no statements on the canvas are there nodes
which are not examined. -/
theorem Program.met_iff_of_validate {registry : KindRegistry} {d : Document} {program : Program}
    {s s' : Supply} (read : (ofDocument registry d).run s = (.ok program, s'))
    {config : HardwareConfig} {platform : Platform}
    (known : PlatformRegistry.builtin.get config.robot = .ok platform)
    {outcome : ValidationOutcome} (valid : validate program config = .ok outcome)
    (clean : outcome.hasErrors = false) :
    ∀ n ∈ program.reached,
      (∀ r, n.requirement? = some r →
        (r.Met platform.board config outcome.facts ↔ Requires (Checker.examined program) r)) ∧
      (n ∈ Checker.examined program ∨ ∃ m ∈ program.reached,
        m.kind = .mainTask ∧ m ∉ Checker.topLevel program ∧ n ∈ m.reached) := by
  have sound := Platform.sound_of_builtin known
  obtain rfl : outcome = platform.validate program config := by
    rw [validate, PlatformRegistry.validate, known] at valid
    exact (Except.ok.inj valid).symm
  have grows := Checker.grows_run sound
    (fun n hn => (regular_of_ofDocument read n hn).paired) { config }
  refine fun n hn => ⟨fun r _ => ⟨fun met => ?_, fun made => ?_⟩, mem_examined_or hn⟩
  · rcases grows.only r met.listed with none | ⟨r', made, feature, fact⟩
    · cases none
    · have met' := grows.met clean r' made
      rw [grows.config] at met'
      rwa [← sound.eq_of_met met' met feature fact]
  · have met := grows.met clean r made
    rwa [grows.config] at met

/-- A stopped motor on the canvas, and another one in a start block inside a method. -/
def hidden : Document where
  formatVersion := "3.1"
  instances := [{ blocks := [
    .mk { id := "a", type := "robActions_motor_stop", fields := [⟨"MOTORPORT", "A"⟩] },
    .mk {
      id := "b", type := "robProcedures_defnoreturn", fields := [⟨"NAME", "halt"⟩]
      statements := [⟨"STACK", [.mk {
        id := "c", type := "robControls_start", fields := [⟨"DEBUG", "FALSE"⟩]
        statements := [⟨"ST", [.mk {
          id := "d", type := "robActions_motor_stop", fields := [⟨"MOTORPORT", "Z"⟩] }]⟩] }]⟩] }] }]

/-- A robot with one motor. -/
def oneMotor : HardwareConfig where
  robot := "ev3"
  components := .ofList [("A", ⟨.motor, "large"⟩)]

theorem exists_validate_hidden :
    ∃ p s' outcome, (Program.ofDocument .core hidden).run {} = (.ok p, s') ∧
      validate p oneMotor = .ok outcome ∧ outcome.hasErrors = false ∧
        ∃ n ∈ p.reached, n.requirement? = some (.motor "Z") := by
  have computed : ((Program.ofDocument .core hidden).run {}).1.toOption.any (fun p =>
      (validate p oneMotor).toOption.any fun outcome =>
        !outcome.hasErrors && p.reached.any (·.requirement? = some (.motor "Z"))) = true := by
    decide +kernel
  obtain ⟨p, s', read, computed⟩ := Except.exists_eq_ok_of_any_fst computed
  obtain ⟨outcome, valid, computed⟩ := Except.exists_eq_ok_of_any computed
  simp only [Bool.and_eq_true, Bool.not_eq_true', List.any_eq_true, decide_eq_true_eq] at computed
  exact ⟨p, s', outcome, read, valid, computed⟩

theorem get_builtin_oneMotor : PlatformRegistry.builtin.get oneMotor.robot = .ok Boards.ev3 := rfl

theorem Program.met_iff_hidden :
    ∃ p s' outcome, (ofDocument .core hidden).run {} = (.ok p, s') ∧
      validate p oneMotor = .ok outcome ∧ ∀ n ∈ p.reached,
        (∀ r, n.requirement? = some r → (r.Met Boards.ev3.board oneMotor outcome.facts ↔
          Requires (Checker.examined p) r)) ∧
        (n ∈ Checker.examined p ∨
          ∃ m ∈ p.reached, m.kind = .mainTask ∧ m ∉ Checker.topLevel p ∧ n ∈ m.reached) := by
  obtain ⟨p, s', outcome, read, valid, clean, -⟩ := exists_validate_hidden
  exact ⟨p, s', outcome, read, valid, met_iff_of_validate read get_builtin_oneMotor valid clean⟩

/-- A run without errors can leave a requirement unmet. -/
theorem Program.unmet_hidden :
    PlatformRegistry.builtin.get oneMotor.robot = .ok Boards.ev3 ∧
      Boards.ev3.board.kindRegistry = .ok .core ∧
      ∃ p s' outcome, (ofDocument .core hidden).run {} = (.ok p, s') ∧
        validate p oneMotor = .ok outcome ∧ outcome.hasErrors = false ∧
          ∃ n ∈ p.reached, ∃ r, n.requirement? = some r ∧
            ¬ r.Met Boards.ev3.board oneMotor outcome.facts := by
  obtain ⟨p, s', outcome, read, valid, clean, n, reached, required⟩ := exists_validate_hidden
  refine ⟨get_builtin_oneMotor, rfl, p, s', outcome, read, valid, clean, n, reached, _, required,
    fun met => ?_⟩
  have : "Z" ∉ Boards.ev3.board.motorPorts := by decide
  exact this met.port

end BlockGraph

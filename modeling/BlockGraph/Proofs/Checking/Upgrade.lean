import BlockGraph.Proofs.Checking.Examined
import BlockGraph.Proofs.Checking.Modest
import BlockGraph.Proofs.Checking.Parallel

/-!
# More hardware

A robot to which something is plugged in, or whose board can do more, runs every program at least
as well as before: there are no new errors, what is found apart from missing hardware is the same,
and all facts stay.

* `HardwareConfig.Within`: everything that a robot has, another one has too.
* `Collector.Gentler`: what can be said of a run with more hardware.
* `Collector.Requires`: a step that asks for hardware, and for nothing else.
* `Checker.apart_check`: the checks of a node, in two runs that differ in what they gather.
* `Platform.Known.gentle`: the checks of the known platforms do no worse with more hardware.
* `Program.validate_mono`: more hardware never hurts.
-/

namespace BlockGraph

/-! ## Configurations -/

/-- The same robot, with every component and capability of `c` and maybe others. -/
structure HardwareConfig.Within (c d : HardwareConfig) : Prop where
  robot : c.robot = d.robot
  components : ∀ port component, c.component? port = some component →
    d.component? port = some component
  capabilities : ∀ capability, c.hasCapability capability = true →
    d.hasCapability capability = true

/-- Something new is plugged into a free port. -/
theorem HardwareConfig.within_plug {c : HardwareConfig} {port : String}
    (free : c.component? port = none) (component : Component) :
    c.Within (c.plug port component) where
  robot := rfl
  components port' component' found := by
    have other : port' ≠ port := by
      intro same
      rw [same, free] at found
      cases found
    rw [component?, plug, SortedMap.get?_insert, if_neg other]
    exact found
  capabilities _ has := has

/-- The codes of findings about hardware that is not there. -/
def DiagnosticCode.lacks : List DiagnosticCode := [portMissing, portWrongKind, capabilityMissing]

/-- The findings about everything but missing hardware. -/
def DiagnosticStore.others (s : DiagnosticStore) : List Diagnostic :=
  s.toList.filter fun d => d.code ∉ DiagnosticCode.lacks

theorem DiagnosticStore.others_push (s : DiagnosticStore) (n : Node) (d : Diagnostic) :
    (s.push n d).others =
      s.others ++
        if d.code ∈ DiagnosticCode.lacks then [] else [{ d with location := some n.location }] := by
  rw [others, toList_push, List.filter_append, ← others]
  by_cases lacks : d.code ∈ DiagnosticCode.lacks <;> simp [lacks]

theorem DiagnosticStore.count_push (s : DiagnosticStore) (n : Node) (d : Diagnostic)
    (severity : Severity) :
    (s.push n d).count severity = s.count severity + if d.severity = severity then 1 else 0 := by
  rw [count, toList_push, List.countP_append, ← count, List.countP_singleton]
  simp

/-! ## Collectors -/

/-- `d` has the more hardware and says what `c` says, but for missing hardware. -/
structure Collector.Gentler (c d : Collector) : Prop where
  config : c.config.Within d.config
  others : d.store.others = c.store.others
  errors : d.store.count .error ≤ c.store.count .error
  facts : ∀ feature, c.facts.facts feature ⊆ d.facts.facts feature

namespace Collector

variable {c d : Collector} {n : Node} {x : Collect Bool}

/-- Both find the same. -/
theorem Gentler.report (h : c.Gentler d) (n : Node) (found : Diagnostic) :
    Gentler { c with store := c.store.push n found } { d with store := d.store.push n found } where
  config := h.config
  others := by simp only [DiagnosticStore.others_push, h.others]
  errors := by
    have := h.errors
    simp only [DiagnosticStore.count_push]
    omega
  facts := h.facts

/-- Both lack hardware, though maybe not for the same reason. -/
theorem Gentler.lack (h : c.Gentler d) {e e' : Diagnostic} (lacks : e.code ∈ DiagnosticCode.lacks)
    (lacks' : e'.code ∈ DiagnosticCode.lacks) (severity : e.severity = e'.severity) :
    Gentler { c with store := c.store.push n e } { d with store := d.store.push n e' } where
  config := h.config
  others := by simp only [DiagnosticStore.others_push, if_pos lacks, if_pos lacks', h.others]
  errors := by
    have := h.errors
    simp only [DiagnosticStore.count_push, severity]
    omega
  facts := h.facts

/-- Both note the same. -/
theorem Gentler.record (h : c.Gentler d) (feature fact : String) :
    Gentler { c with facts := c.facts.record feature fact }
      { d with facts := d.facts.record feature fact } where
  config := h.config
  others := h.others
  errors := h.errors
  facts feature' fact' mem := by
    rcases Facts.mem_facts_record.1 mem with mem | new
    · exact Facts.mem_facts_record.2 (.inl (h.facts feature' mem))
    · exact Facts.mem_facts_record.2 (.inr new)

/-- Only the second has what is needed. -/
theorem Gentler.gain (h : c.Gentler d) {e : Diagnostic} (lacks : e.code ∈ DiagnosticCode.lacks)
    (feature fact : String) :
    Gentler { c with store := c.store.push n e }
      { d with facts := d.facts.record feature fact } where
  config := h.config
  others := by simp only [DiagnosticStore.others_push, if_pos lacks, List.append_nil, h.others]
  errors := by
    have := h.errors
    simp only [DiagnosticStore.count_push]
    omega
  facts feature' fact' mem := Facts.mem_facts_record.2 (.inl (h.facts feature' mem))

/-! ## Requirements -/

/-- A step that asks for hardware at a node: it notes a fact if the hardware is there and reports
its lack otherwise. More hardware is never refused. -/
def Requires (n : Node) (x : Collect Bool) : Prop :=
  ∃ (there : HardwareConfig → Prop) (feature fact : String),
    (∀ c d : HardwareConfig, c.Within d → there c → there d) ∧
    ∀ c : Collector,
      (there c.config ∧ x.run c = (grant feature fact).run c) ∨
      (¬ there c.config ∧ ∃ code ∈ DiagnosticCode.lacks, ∃ message,
        x.run c = (refuse n code message).run c)

theorem get_bind_run {α : Type} (f : Collector → Collect α) (c : Collector) :
    (get >>= f).run c = (f c).run c := rfl

theorem requires_requireMotor (n : Node) (port : String) : Requires n (requireMotor n port) := by
  refine ⟨fun config => ∃ kind, config.component? port = some ⟨.motor, kind⟩, Feature.motors, port,
    ?_, fun c => ?_⟩
  · rintro c d more ⟨kind, found⟩
    exact ⟨kind, more.components _ _ found⟩
  · rw [requireMotor, get_bind_run]
    rcases found : c.config.component? port with _ | ⟨_ | _, kind⟩
    · exact .inr ⟨by simp [found], _, by decide, _, rfl⟩
    · exact .inl ⟨⟨kind, found⟩, rfl⟩
    · exact .inr ⟨by simp [found], _, by decide, _, rfl⟩

theorem requires_requireSensor (n : Node) (sensor port : String) :
    Requires n (requireSensor n sensor port) := by
  refine ⟨fun config => config.component? port = some ⟨.sensor, sensor⟩, Feature.sensors,
    port ++ ":" ++ sensor, fun c d more found => more.components _ _ found, fun c => ?_⟩
  rw [requireSensor, get_bind_run]
  rcases found : c.config.component? port with _ | ⟨_ | _, kind⟩
  · exact .inr ⟨by simp [found], _, by decide, _, rfl⟩
  · exact .inr ⟨by simp [found], _, by decide, _, rfl⟩
  · by_cases same : kind = sensor
    · exact .inl ⟨by simp [found, same], by simp only [if_pos same]⟩
    · refine .inr ⟨by simp [found, same], .portWrongKind, by decide, ?_⟩
      simp only [if_neg same]
      exact ⟨_, rfl⟩

theorem requires_requireCapability (n : Node) (capability fact : String) :
    Requires n (requireCapability n capability fact) := by
  refine ⟨fun config => config.hasCapability capability = true, capability, fact,
    fun c d more has => more.capabilities _ has, fun c => ?_⟩
  rw [requireCapability, get_bind_run]
  by_cases has : c.config.hasCapability capability = true
  · exact .inl ⟨has, by simp only [if_pos has]⟩
  · refine .inr ⟨has, .capabilityMissing, by decide, ?_⟩
    simp only [if_neg has]
    exact ⟨_, rfl⟩

/-- A requirement does no worse with more hardware. -/
theorem Requires.parallel (h : Requires n x) : Parallel Gentler (discard x) (discard x) := by
  obtain ⟨there, feature, fact, mono, steps⟩ := h
  intro c d gentler
  refine ⟨rfl, ?_⟩
  change Gentler (x.run c).2 (x.run d).2
  rcases steps c with ⟨here, run⟩ | ⟨-, code, lacks, message, run⟩
  · rcases steps d with ⟨-, run'⟩ | ⟨absent, -⟩
    · rw [run, run']
      exact gentler.record feature fact
    · exact absurd (mono _ _ gentler.config here) absent
  · rcases steps d with ⟨-, run'⟩ | ⟨-, code', lacks', message', run'⟩
    · rw [run, run']
      exact gentler.gain lacks feature fact
    · rw [run, run']
      exact gentler.lack lacks lacks' rfl

theorem parallel_error (n : Node) (code : DiagnosticCode) (message : String) :
    Parallel Gentler (error n code message) (error n code message) :=
  .modify fun _ _ h => h.report n _

theorem parallel_record (feature fact : String) :
    Parallel Gentler (record feature fact) (record feature fact) :=
  .modify fun _ _ h => h.record feature fact

end Collector

open Collector

/-! ## The built-in platforms -/

theorem Board.gentler_checkMotor (board : Board) (n : Node) (port : String) :
    Parallel Gentler (board.checkMotor n port) (board.checkMotor n port) := by
  have there : Parallel Gentler (board.checkMotorPort n port) (board.checkMotorPort n port) := by
    unfold checkMotorPort
    split
    · exact .pure _
    · exact .bind (parallel_error _ _ _) fun _ => .pure _
  refine .bind there fun found => ?_
  split
  · exact (requires_requireMotor n port).parallel
  · exact .pure _

theorem Board.gentler_checkSensor (board : Board) (n : Node) (sensor port : String) :
    Parallel Gentler (board.checkSensor n sensor port) (board.checkSensor n sensor port) := by
  unfold checkSensor
  split
  · exact parallel_error _ _ _
  · split
    · exact parallel_error _ _ _
    · exact (requires_requireSensor n sensor port).parallel

/-- A platform on which more hardware never hurts. -/
def Platform.Gentle (platform : Platform) : Prop :=
  ∀ (n : Node) (p : Phrase Node), Parallel Gentler (platform.ask n p) (platform.ask n p)

theorem Platform.gentle_default (board : Board) : ({ board } : Platform).Gentle := by
  intro n p
  cases p with
  | motorSetPower port power | motorStop port => exact board.gentler_checkMotor n port
  | sensorSample sensor port => exact board.gentler_checkSensor n sensor port
  | showText text | playTone frequency duration =>
    exact (requires_requireCapability n _ _).parallel
  | extension spec slots => exact .modify fun _ _ h => h.report n _
  | _ => exact .pure _

namespace Boards

theorem gentle_calliope : calliope.Gentle := by
  intro n p
  have plain := Platform.gentle_default calliopeBoard n p
  cases p with
  | motorSetPower port power =>
    refine .bind ?_ fun _ => calliopeBoard.gentler_checkMotor n port
    unfold checkPower
    split
    · split
      · exact .pure _
      · exact parallel_error _ _ _
    · exact .pure _
  | showText text =>
    refine .bind ?_ fun _ => (requires_requireCapability n _ _).parallel
    rw [checkMatrixText_eq]
    split
    · split
      · exact .modify fun _ _ h => h.report n _
      · exact .pure _
    · exact .pure _
  | extension spec slots =>
    change Parallel _ (checkLight _ spec _) (checkLight _ spec _)
    unfold checkLight
    split
    · dsimp only
      split
      · exact (requires_requireCapability n _ _).parallel
      · exact parallel_error _ _ _
    · exact .pure _
  | _ => exact plain

theorem gentle_nxt : nxt.Gentle := by
  intro n p
  have plain := Platform.gentle_default nxt.board n p
  cases p with
  | playTone frequency duration =>
    have play := (requires_requireCapability n Feature.sound "tone").parallel
    change Parallel _ (checkFrequency n frequency) (checkFrequency n frequency)
    unfold checkFrequency
    dsimp only
    split
    · split
      · exact play
      · exact parallel_error _ _ _
    · exact play
  | _ => exact plain

end Boards

theorem Platform.Known.gentle {platform : Platform} (known : platform.Known) :
    platform.Gentle := by
  rcases known with ⟨name, known⟩ | ⟨board, rfl⟩
  · obtain ⟨-, rfl | rfl | rfl⟩ := PlatformRegistry.get_builtin_cases known
    · exact Platform.gentle_default _
    · exact Boards.gentle_calliope
    · exact Boards.gentle_nxt
  · exact Platform.gentle_default board

/-! ## Checks -/

/-- Two states that differ in their collectors only, which are related by `A`. -/
def CheckState.Apart (A : Collector → Collector → Prop) (s t : CheckState) : Prop :=
  ∃ d, A s.collector d ∧ t = { s with collector := d }

namespace Checker

open CheckState

variable {A : Collector → Collector → Prop}

theorem apart_collect {α : Type} {x : Collect α} (h : Parallel A x x) :
    Parallel (Apart A) (collect x) (collect x) := by
  rintro s _ ⟨d, related, rfl⟩
  obtain ⟨same, after⟩ := h s.collector d related
  exact ⟨same, _, after, rfl⟩

/-- A step that neither reads nor writes the collector. -/
theorem apart_modify {f : CheckState → CheckState}
    (blind : ∀ s d, f { s with collector := d } = { f s with collector := d }) :
    Parallel (Apart A) (modify f) (modify f) := by
  refine .modify fun s t apart => ?_
  obtain ⟨d, related, rfl⟩ := apart
  refine ⟨d, ?_, blind s d⟩
  have same : (f s).collector = s.collector := by
    have here : f s = { f s with collector := s.collector } := blind s s.collector
    rw [here]
  rwa [same]

/-- Runs with different collectors go through a program together. -/
theorem congruence_apart :
    Congruence fun α (x y : Check α) => Parallel (Apart A) x y where
  pure := .pure
  bind := .bind
  get same each := by
    refine .get_bind fun s t apart => ?_
    obtain ⟨d, -, rfl⟩ := apart
    rw [← (same s { s with collector := d } rfl rfl rfl).2]
    exact each s
  loopBody inner :=
    .bind (apart_modify fun _ _ => rfl) fun _ => .bind inner fun _ => apart_modify fun _ _ => rfl
  outsideLoops inner := by
    refine .get_bind fun s t apart => ?_
    obtain ⟨d, -, rfl⟩ := apart
    exact .bind (apart_modify fun _ _ => rfl) fun _ => .bind inner fun _ =>
      apart_modify fun _ _ => rfl
  withScope inner := by
    refine .get_bind fun s t apart => ?_
    obtain ⟨d, -, rfl⟩ := apart
    exact .bind inner fun _ => apart_modify fun _ _ => rfl

section Nodes

variable (error : ∀ n code message, Parallel A (Collector.error n code message)
    (Collector.error n code message))
  (record : ∀ feature fact, Parallel A (Collector.record feature fact)
    (Collector.record feature fact))

include error record

theorem nodes_apart (n : Node) :
    Congruence.Nodes (fun α (x y : Check α) => Parallel (Apart A) x y) n n where
  kind := rfl
  error code message _ := apart_collect (error n code message)
  lookup name := by
    refine .get_bind fun s t apart => ?_
    obtain ⟨d, -, rfl⟩ := apart
    dsimp only
    split
    · exact .bind (apart_modify fun _ _ => rfl) fun _ => .pure _
    · exact .bind (apart_collect (error _ _ _)) fun _ => .pure _
  bindName _ name type := apart_modify fun _ _ => rfl
  declare _ name type := by
    refine .get_bind fun s t apart => ?_
    obtain ⟨d, -, rfl⟩ := apart
    dsimp only
    split
    · exact apart_collect (error _ _ _)
    · exact .bind (apart_modify fun _ _ => rfl) fun _ => .bind (apart_modify fun _ _ => rfl)
        fun _ => apart_collect (record _ _)

/-- The checks of a node, in two runs that differ in what they gather. -/
theorem apart_check {platform : Platform}
    (asked : ∀ n p, Parallel A (platform.ask n p) (platform.ask n p)) (n : Node) :
    Parallel (Apart A) (check platform n) (check platform n) := by
  induction n using Node.induction with
  | step n ih =>
    refine congruence_apart.check (nodes_apart error record n)
      (r := n.phrase.map fun c => (c, c)) (n.phrase.map_map_cancel fun c => rfl)
      (n.phrase.map_map_cancel fun c => rfl) rfl ?_ (apart_collect (asked n n.phrase))
    rw [Phrase.children_map, List.forall_mem_map]
    intro c hc
    exact ⟨rfl, fun message => apart_collect (error _ _ _), ih c hc⟩

theorem apart_define (n : Node) (name : String) :
    Parallel (Apart A) (define n name) (define n name) := by
  refine .bind (congruence_apart.checkName (nodes_apart error record n).toPlaces name _)
    fun _ => .get_bind fun s t apart => ?_
  obtain ⟨d, -, rfl⟩ := apart
  dsimp only
  split
  · exact apart_collect (error _ _ _)
  · exact .bind (apart_modify fun _ _ => rfl) fun _ => apart_collect (record _ _)

/-- The runs up to the last step, in which unused variables are reported. -/
theorem apart_run {platform : Platform} (program : Program)
    (asked : ∀ n p, Parallel A (platform.ask n p) (platform.ask n p))
    (warning : ∀ n code message, Parallel A (Collector.warning n code message)
      (Collector.warning n code message)) :
    Parallel (Apart A) (run platform program) (run platform program) := by
  have congr : Congruence fun α (x y : Check α) => Parallel (Apart A) x y := congruence_apart
  have each := apart_check error record asked
  refine .bind (congr.forM fun n _ => ?_) fun _ => .bind (congr.forM fun n _ => ?_) fun _ =>
    .bind (apart_modify fun _ _ => rfl) fun _ => .bind (congr.forM fun i _ => ?_) fun _ =>
      .get_bind fun s t apart => ?_
  · unfold defineIfMethod
    split
    · exact apart_define error record n _
    · exact .pure _
  · unfold checkIfStart
    split
    · exact .discard (each n)
    · exact .pure _
  · exact .discard (each i.body)
  · obtain ⟨d, -, rfl⟩ := apart
    refine congr.forM fun declaration _ => .get_bind fun s t apart => ?_
    obtain ⟨d, -, rfl⟩ := apart
    dsimp only
    split
    · exact apart_collect (warning _ _ _)
    · exact .pure _

end Nodes

end Checker

/-! ## Runs -/

/-- On a gentle platform, more hardware never hurts. -/
theorem Platform.gentler_validate {platform : Platform} (gentle : platform.Gentle)
    (program : Program) {config config' : HardwareConfig} (more : config.Within config') :
    let o := platform.validate program config
    let o' := platform.validate program config'
    o'.errorCount ≤ o.errorCount ∧ o'.diagnostics.others = o.diagnostics.others ∧
      ∀ feature, o.facts.facts feature ⊆ o'.facts.facts feature := by
  have start : Gentler { config } { config := config' } :=
    ⟨more, rfl, le_rfl, fun _ => List.Subset.refl _⟩
  have go := Checker.apart_run parallel_error parallel_record program gentle
    fun _ _ _ => .modify fun _ _ h => h.report _ _
  obtain ⟨-, d, final, e⟩ := go { collector := { config } } _ ⟨_, start, rfl⟩
  intro o o'
  have same : o' = d.finish platform.name := by
    change Collector.finish (CheckState.collector _) _ = _
    rw [e]
  rw [same]
  exact ⟨final.errors, final.others, final.facts⟩

/-- More hardware never hurts: with everything that `config` has and maybe more, a program has no
more errors, the same findings about everything but missing hardware, and all facts that it had. -/
theorem Program.validate_mono (program : Program) {config config' : HardwareConfig}
    (more : config.Within config') {o : ValidationOutcome}
    (validated : validate program config = .ok o) :
    ∃ o', validate program config' = .ok o' ∧ o'.errorCount ≤ o.errorCount ∧
      o'.diagnostics.others = o.diagnostics.others ∧
      ∀ feature, o.facts.facts feature ⊆ o'.facts.facts feature := by
  obtain ⟨platform, known, e⟩ := Except.bind_eq_ok_iff.1 validated
  cases e
  refine ⟨platform.validate program config', ?_, ?_⟩
  · rw [more.robot] at known
    exact Except.bind_eq_ok_iff.2 ⟨platform, known, rfl⟩
  · exact Platform.gentler_validate (Platform.Known.gentle (.inl ⟨_, known⟩)) program more

/-- A robot without components. -/
def noMotor : HardwareConfig := { robot := "ev3" }

theorem Program.validate_mono_hidden :
    ∃ p s' o o', (ofDocument .core hidden).run {} = (.ok p, s') ∧
      validate p noMotor = .ok o ∧ o.errorCount = 1 ∧
      validate p (noMotor.plug "A" ⟨.motor, "large"⟩) = .ok o' ∧ o'.errorCount ≤ o.errorCount ∧
      o'.diagnostics.others = o.diagnostics.others ∧
      ∀ feature, o.facts.facts feature ⊆ o'.facts.facts feature := by
  have computed : ((ofDocument .core hidden).run {}).1.toOption.any (fun p =>
      (validate p noMotor).toOption.any fun o => o.errorCount == 1) = true := by decide +kernel
  obtain ⟨p, s', read, computed⟩ := Except.exists_eq_ok_of_any_fst computed
  obtain ⟨o, validated, one⟩ := Except.exists_eq_ok_of_any computed
  have more : noMotor.Within (noMotor.plug "A" ⟨.motor, "large"⟩) :=
    HardwareConfig.within_plug rfl _
  obtain ⟨o', validated', gentler⟩ := validate_mono p more validated
  exact ⟨p, s', o, o', read, validated, by simpa using one, validated', gentler⟩

end BlockGraph

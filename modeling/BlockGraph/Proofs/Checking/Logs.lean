import BlockGraph.Checking.Outcome
import BlockGraph.Proofs.Diagnostic

/-!
# What a run writes down

The check of a node reads the configuration, the scope, and where the run is. It writes down
findings, facts, and the variables that are declared and used. It never reads what was written
down before: a step comes to a new scope and adds a log, and both follow from the setting.

* `Log`, `CheckState.after`: what a step adds, and the state that it leaves behind.
* `Collector.Writes`: a step of a collector that adds what the configuration calls for.
* `Platform.diagnostics_validate`: what is found on the way, and then the unused variables.
-/

namespace BlockGraph

/-! ## Logs -/

/-- What a step writes down. -/
structure Log where
  findings : List (Node × Diagnostic) := []
  facts : List (String × String) := []
  declared : List (Node × String) := []
  used : List NodeId := []

namespace Log

instance : Append Log where
  append l m := {
    findings := l.findings ++ m.findings
    facts := l.facts ++ m.facts
    declared := l.declared ++ m.declared
    used := l.used ++ m.used }

@[simp] theorem findings_append (l m : Log) : (l ++ m).findings = l.findings ++ m.findings := rfl
@[simp] theorem facts_append (l m : Log) : (l ++ m).facts = l.facts ++ m.facts := rfl
@[simp] theorem declared_append (l m : Log) : (l ++ m).declared = l.declared ++ m.declared := rfl
@[simp] theorem used_append (l m : Log) : (l ++ m).used = l.used ++ m.used := rfl

/-- The findings as they are listed. -/
def reports (l : Log) : List Diagnostic :=
  l.findings.map fun e => { e.2 with location := some e.1.location }

@[simp] theorem reports_append (l m : Log) : (l ++ m).reports = l.reports ++ m.reports :=
  List.map_append

end Log

/-- The facts with others recorded, one after the other. -/
def Facts.recordAll (f : Facts) (facts : List (String × String)) : Facts :=
  facts.foldl (fun f e => f.record e.1 e.2) f

/-- The collector with findings and facts added. -/
def Collector.add (c : Collector) (findings : List (Node × Diagnostic))
    (facts : List (String × String)) : Collector :=
  { c with store := c.store.pushAll findings, facts := c.facts.recordAll facts }

theorem Collector.add_add (c : Collector) (findings findings' : List (Node × Diagnostic))
    (facts facts' : List (String × String)) :
    (c.add findings facts).add findings' facts' =
      c.add (findings ++ findings') (facts ++ facts') := by
  simp only [add, DiagnosticStore.pushAll_append, Facts.recordAll, List.foldl_append]

namespace CheckState

/-- What the check of a node can depend on. -/
structure Setting where
  config : HardwareConfig
  scope : SortedMap String Variable
  methods : SortedSet String
  loopDepth : Nat
  round : Round

def setting (s : CheckState) : Setting :=
  ⟨s.collector.config, s.scope, s.methods, s.loopDepth, s.round⟩

/-- The state after a step that came to the given scope and wrote a log. -/
def after (s : CheckState) (scope : SortedMap String Variable) (log : Log) : CheckState :=
  { s with
    collector := s.collector.add log.findings log.facts
    scope
    declared := s.declared ++ log.declared
    used := log.used.foldl SortedSet.add s.used }

theorem after_nil (s : CheckState) (scope : SortedMap String Variable) :
    s.after scope {} = { s with scope } := by
  simp [after, Collector.add, DiagnosticStore.pushAll, Facts.recordAll]

@[simp] theorem after_scope (s : CheckState) : s.after s.scope {} = s := s.after_nil s.scope

@[simp] theorem after_after (s : CheckState) (scope scope' : SortedMap String Variable)
    (l m : Log) : (s.after scope l).after scope' m = s.after scope' (l ++ m) := by
  simp only [after, Collector.add_add, Log.findings_append, Log.facts_append,
    Log.declared_append, Log.used_append, List.append_assoc, List.foldl_append]

section Steps

variable (s : CheckState) (scope : SortedMap String Variable)

theorem after_finding (n : Node) (d : Diagnostic) :
    s.after s.scope { findings := [(n, d)] } =
      { s with collector := { s.collector with store := s.collector.store.push n d } } := by
  simp [after, Collector.add, DiagnosticStore.pushAll, Facts.recordAll]

theorem after_used (i : NodeId) :
    s.after s.scope { used := [i] } = { s with used := s.used.add i } := by
  simp [after, Collector.add, DiagnosticStore.pushAll, Facts.recordAll]

theorem after_declared (declaration : Node × String) (feature fact : String) :
    s.after scope { declared := [declaration], facts := [(feature, fact)] } = { s with
      collector := { s.collector with facts := s.collector.facts.record feature fact }
      scope
      declared := s.declared ++ [declaration] } := by
  simp [after, Collector.add, DiagnosticStore.pushAll, Facts.recordAll]

end Steps

theorem toList_after (s : CheckState) (scope : SortedMap String Variable) (l : Log) :
    (s.after scope l).collector.store.toList = s.collector.store.toList ++ l.reports :=
  DiagnosticStore.toList_pushAll _ _

theorem setting_after (s : CheckState) (scope : SortedMap String Variable) (log : Log) :
    (s.after scope log).setting = { s.setting with scope } := rfl

end CheckState

/-! ## Steps of collectors -/

namespace Collector

/-- What the step adds is determined by the configuration, and its findings are all `Fine`. -/
def Writes {α : Type} (Fine : Node × Diagnostic → Prop) (x : Collect α) : Prop :=
  ∀ config : HardwareConfig, ∃ a findings facts, (∀ e ∈ findings, Fine e) ∧
    ∀ c : Collector, c.config = config → x.run c = (a, c.add findings facts)

namespace Writes

variable {α β : Type} {Fine : Node × Diagnostic → Prop} {x : Collect α} {n : Node}

protected theorem pure (a : α) : Writes Fine (pure a) :=
  fun _ => ⟨a, [], [], by simp, fun _ _ => rfl⟩

protected theorem bind {f : α → Collect β} (hx : Writes Fine x) (hf : ∀ a, Writes Fine (f a)) :
    Writes Fine (x >>= f) := by
  intro config
  obtain ⟨a, findings, facts, fine, run⟩ := hx config
  obtain ⟨b, findings', facts', fine', run'⟩ := hf a config
  refine ⟨b, findings ++ findings', facts ++ facts', List.forall_mem_append.2 ⟨fine, fine'⟩,
    fun c hc => ?_⟩
  rw [StateT.run_bind, run c hc, ← add_add]
  exact run' _ hc

/-- A step that depends on the configuration only. -/
protected theorem get_bind {f : Collector → Collect β}
    (same : ∀ c d : Collector, c.config = d.config → f c = f d) (each : ∀ c, Writes Fine (f c)) :
    Writes Fine (get >>= f) := by
  intro config
  obtain ⟨a, findings, facts, fine, run⟩ := each { config } config
  refine ⟨a, findings, facts, fine, fun c hc => ?_⟩
  rw [← run c hc, ← same c { config } hc]
  rfl

protected theorem discard (h : Writes Fine x) : Writes Fine (discard x) := by
  intro config
  obtain ⟨a, findings, facts, fine, run⟩ := h config
  refine ⟨(), findings, facts, fine, fun c hc => ?_⟩
  change ((), (x.run c).2) = _
  rw [run c hc]

protected theorem report {d : Diagnostic} (fine : Fine (n, d)) : Writes Fine (report n d) :=
  fun _ => ⟨(), [(n, d)], [], by simpa using fine, fun _ _ => rfl⟩

protected theorem error {code : DiagnosticCode} (fine : ∀ severity message,
    Fine (n, { severity, code, message })) (message : String) :
    Writes Fine (error n code message) := .report (fine _ _)

protected theorem refuse {code : DiagnosticCode} (fine : ∀ severity message,
    Fine (n, { severity, code, message })) (message : String) :
    Writes Fine (refuse n code message) := .bind (.error fine message) fun _ => .pure _

protected theorem record (feature fact : String) : Writes Fine (record feature fact) :=
  fun _ => ⟨(), [], [(feature, fact)], by simp, fun _ _ => rfl⟩

protected theorem grant (feature fact : String) : Writes Fine (grant feature fact) :=
  .bind (.record feature fact) fun _ => .pure _

end Writes

end Collector

/-! ## Runs -/

namespace Checker

/-- The part of a run that goes over the program. -/
def explore (platform : Platform) (program : Program) : Check Unit := do
  (topLevel program).forM defineIfMethod
  (topLevel program).forM (checkIfStart platform)
  modify fun s => { s with round := .chains }
  program.instances.forM fun i => discard (check platform i.body)

/-- The warning of a variable that was declared and never used. -/
def unusedWarning (name : String) : Diagnostic where
  severity := .warning
  code := .unusedVariable
  message := "variable '" ++ name ++ "' is never used"

/-- The declarations that a state warns of. -/
def unused (s : CheckState) : List (Node × String) :=
  s.declared.filter fun d => !s.used.contains d.1.id

theorem run_warnIfUnused (d : Node × String) (s : CheckState) :
    ((warnIfUnused d).run s).2 = s.after s.scope
      { findings := if s.used.contains d.1.id then [] else [(d.1, unusedWarning d.2)] } := by
  unfold warnIfUnused
  rw [StateT.run_bind]
  change ((if (!s.used.contains d.1.id) = true then _ else _ : Check PUnit).run s).2 = _
  cases s.used.contains d.1.id with
  | true => exact s.after_scope.symm
  | false =>
    simp only [CheckState.after, List.append_nil]
    rfl

/-- Warning changes nothing but the list of findings. -/
theorem run_forM_warnIfUnused (declared : List (Node × String)) (s : CheckState) :
    ((declared.forM warnIfUnused).run s).2 = s.after s.scope
      { findings := (declared.filter fun d => !s.used.contains d.1.id).map
          fun d => (d.1, unusedWarning d.2) } := by
  induction declared generalizing s with
  | nil => exact s.after_scope.symm
  | cons d declared ih =>
    change ((declared.forM warnIfUnused).run ((warnIfUnused d).run s).2).2 = _
    rw [run_warnIfUnused, ih, CheckState.after_after]
    refine congrArg (s.after s.scope) ?_
    change Log.mk _ [] [] [] = Log.mk _ [] [] []
    refine congrArg (Log.mk · [] [] []) ?_
    change _ ++ (declared.filter fun e => !s.used.contains e.1.id).map _ = _
    cases used : s.used.contains d.1.id <;> simp [used]

/-- A run goes over the program and then warns of what was declared and never used. -/
theorem run_run (platform : Platform) (program : Program) (s : CheckState) :
    ((run platform program).run s).2 =
      let t := ((explore platform program).run s).2
      t.after t.scope { findings := (unused t).map fun d => (d.1, unusedWarning d.2) } := by
  change ((_ : List (Node × String)).forM warnIfUnused |>.run _).2 = _
  exact run_forM_warnIfUnused _ _

/-- The state of a run when it has gone over the program. -/
def explored (platform : Platform) (program : Program) (config : HardwareConfig) : CheckState :=
  ((explore platform program).run { collector := { config } }).2

end Checker

open Checker

/-- The findings on the way come first, and then the warnings of unused variables. -/
theorem Platform.diagnostics_validate (platform : Platform) (program : Program)
    (config : HardwareConfig) :
    (platform.validate program config).diagnostics.toList =
      (explored platform program config).collector.store.toList ++
        (unused (explored platform program config)).map fun d =>
          { unusedWarning d.2 with location := some d.1.location } := by
  unfold validate Collector.finish
  rw [run_run, CheckState.toList_after, Log.reports, List.map_map]
  rfl

theorem Platform.facts_validate (platform : Platform) (program : Program)
    (config : HardwareConfig) :
    (platform.validate program config).facts =
      (explored platform program config).collector.facts := by
  unfold validate Collector.finish
  rw [run_run]
  rfl

end BlockGraph

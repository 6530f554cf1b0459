import BlockGraph.Proofs.Checking.Congruence
import BlockGraph.Proofs.Checking.Modest

/-!
# What the setting decides

Two steps that start in one setting go the same way if they differ only in what they write down.
They come to the same result and to the same scope, and leave everything else of the setting as it
was.

* `Checker.Logs`: two steps of this kind, with a relation between the logs that they write.
* `Checker.congruence_logs`: they go along with how checks are put together.
* `Checker.logs_check`: the check of a node is such a step, and reports at its tree only.
-/

namespace BlockGraph

/-- A relation between logs that holds of two runs if it holds of their parts. -/
structure Log.Additive (Q : Log → Log → Prop) : Prop where
  nil : Q {} {}
  append : ∀ {l m l' m' : Log}, Q l m → Q l' m' → Q (l ++ l') (m ++ m')

/-- The same log twice, with findings of a certain kind only. -/
def Log.Same (Fine : Node × Diagnostic → Prop) (l m : Log) : Prop :=
  l = m ∧ ∀ e ∈ l.findings, Fine e

namespace Checker

/-- Two steps that have the same result and the same new scope in every setting. They keep the rest
of the setting, and their logs are related by `Q`. -/
def Logs (Q : Log → Log → Prop) (α : Type) (x y : Check α) : Prop :=
  ∀ σ : CheckState.Setting, ∃ a scope l m, Q l m ∧ ∀ s : CheckState, s.setting = σ →
    x.run s = (a, s.after scope l) ∧ y.run s = (a, s.after scope m)

section Logs

variable {Q : Log → Log → Prop} {a b : Node}

theorem Logs.mono {Q' : Log → Log → Prop} {α : Type} {x y : Check α} (h : Logs Q α x y)
    (weaker : ∀ l m, Q l m → Q' l m) : Logs Q' α x y := by
  intro σ
  obtain ⟨r, scope, l, m, related, runs⟩ := h σ
  exact ⟨r, scope, l, m, weaker l m related, runs⟩

theorem scope_eq {s t : CheckState} (same : s.setting = t.setting) : s.scope = t.scope :=
  congrArg CheckState.Setting.scope same

/-- Steps that depend on the setting. -/
theorem logs_get {α : Type} {f g : CheckState → Check α}
    (same : ∀ s t, s.setting = t.setting → f s = f t ∧ g s = g t)
    (each : ∀ s, Logs Q α (f s) (g s)) : Logs Q α (get >>= f) (get >>= g) := by
  intro σ
  let start : CheckState := {
    collector := { config := σ.config }
    scope := σ.scope
    methods := σ.methods
    loopDepth := σ.loopDepth
    round := σ.round }
  obtain ⟨a, scope, l, m, related, runs⟩ := each start σ
  refine ⟨a, scope, l, m, related, fun s here => ?_⟩
  change (f s).run s = _ ∧ (g s).run s = _
  rw [(same s start here).1, (same s start here).2]
  exact runs s here

/-- A step that writes a log and keeps the scope. -/
theorem logs_write {α : Type} {x y : Check α} (a : α) {l m : Log} (related : Q l m)
    (left : ∀ s, x.run s = (a, s.after s.scope l)) (right : ∀ s, y.run s = (a, s.after s.scope m)) :
    Logs Q α x y := by
  refine fun σ => ⟨a, σ.scope, l, m, related, fun s here => ?_⟩
  subst here
  exact ⟨left s, right s⟩

theorem logs_error {code : DiagnosticCode} {message : String}
    (finding : Q { findings := [(a, { severity := .error, code, message })] }
      { findings := [(b, { severity := .error, code, message })] }) :
    Logs Q Unit (error a code message) (error b code message) :=
  logs_write () finding (fun s => by rw [s.after_finding]; rfl)
    (fun s => by rw [s.after_finding]; rfl)

theorem run_loopBody {c : Child} {s : CheckState} {u : Unit} {scope : SortedMap String Variable}
    {l : Log} (inside : (body c).run { s with loopDepth := s.loopDepth + 1 } =
      (u, CheckState.after { s with loopDepth := s.loopDepth + 1 } scope l)) :
    (loopBody c).run s = ((), s.after scope l) := by
  let t := ((body c).run { s with loopDepth := s.loopDepth + 1 }).2
  change ((), { t with loopDepth := t.loopDepth - 1 }) = _
  rw [show t = _ from congrArg Prod.snd inside]
  rfl

section Steps

variable {x : Check Unit} {s : CheckState} {u : Unit} {scope : SortedMap String Variable} {l : Log}

theorem run_outsideLoops (inside : x.run { s with loopDepth := 0 } =
      (u, CheckState.after { s with loopDepth := 0 } scope l)) :
    (outsideLoops x).run s = ((), s.after scope l) := by
  change ((), { (x.run { s with loopDepth := 0 }).2 with loopDepth := s.loopDepth }) = _
  rw [inside]
  rfl

theorem run_withScope (inside : x.run s = (u, s.after scope l)) :
    (withScope x).run s = ((), s.after s.scope l) := by
  change ((), { (x.run s).2 with scope := s.scope }) = _
  rw [inside]
  rfl

end Steps

theorem congruence_logs (additive : Log.Additive Q) : Congruence (Logs Q) where
  pure a := logs_write a additive.nil (fun s => by rw [s.after_scope]; rfl)
    (fun s => by rw [s.after_scope]; rfl)
  bind {α β x y f g} hx hf := by
    intro σ
    obtain ⟨a, scope, l, m, related, runs⟩ := hx σ
    obtain ⟨b, scope', l', m', related', runs'⟩ := hf a { σ with scope }
    refine ⟨b, scope', l ++ l', m ++ m', additive.append related related', fun s here => ?_⟩
    have after (k : Log) := runs' (s.after scope k) (by rw [s.setting_after, here])
    rw [StateT.run_bind, StateT.run_bind, (runs s here).1, (runs s here).2,
      ← s.after_after scope scope', ← s.after_after scope scope']
    exact ⟨(after l).1, (after m).2⟩
  get same each := logs_get (fun s t here => same s t (congrArg CheckState.Setting.methods here)
    (congrArg CheckState.Setting.loopDepth here) (congrArg CheckState.Setting.round here)) each
  loopBody {c d} h := by
    intro σ
    obtain ⟨a, scope, l, m, related, runs⟩ := h { σ with loopDepth := σ.loopDepth + 1 }
    refine ⟨(), scope, l, m, related, fun s here => ?_⟩
    subst here
    obtain ⟨left, right⟩ := runs { s with loopDepth := s.loopDepth + 1 } rfl
    exact ⟨run_loopBody left, run_loopBody right⟩
  outsideLoops {x y} h := by
    intro σ
    obtain ⟨a, scope, l, m, related, runs⟩ := h { σ with loopDepth := 0 }
    refine ⟨(), scope, l, m, related, fun s here => ?_⟩
    subst here
    obtain ⟨left, right⟩ := runs { s with loopDepth := 0 } rfl
    exact ⟨run_outsideLoops left, run_outsideLoops right⟩
  withScope {x y} h := by
    intro σ
    obtain ⟨a, scope, l, m, related, runs⟩ := h σ
    refine ⟨(), σ.scope, l, m, related, fun s here => ?_⟩
    subst here
    exact ⟨run_withScope (runs s rfl).1, run_withScope (runs s rfl).2⟩

theorem logs_bindName (additive : Log.Additive Q) (location : a.location = b.location)
    (name : String) (type : ExprType) :
    Logs Q Unit (Checker.bind a name type) (Checker.bind b name type) := by
  refine fun σ => ⟨(), σ.scope.insert name ⟨type, a.id⟩, {}, {}, additive.nil, fun s here => ?_⟩
  subst here
  have id : a.id = b.id := congrArg Location.node location
  rw [s.after_nil]
  refine ⟨rfl, ?_⟩
  rw [id]
  rfl

/-- The steps of the checks of two nodes at one place, given how findings and declarations are
related. -/
theorem logs_nodes (kind : a.kind = b.kind) (location : a.location = b.location)
    (finding : ∀ (code : DiagnosticCode) (message : String), code ≠ .unusedVariable →
      Q { findings := [(a, { severity := .error, code, message })] }
        { findings := [(b, { severity := .error, code, message })] })
    (used : ∀ i, Q { used := [i] } { used := [i] })
    (additive : Log.Additive Q)
    (declared : a.kind = .varDeclaration → ∀ name facts,
      Q { declared := [(a, name)], facts } { declared := [(b, name)], facts }) :
    Congruence.Nodes (Logs Q) a b where
  kind := kind
  error code message other := logs_error (finding code message other)
  lookup name := by
    have congr := congruence_logs additive
    refine logs_get (fun s t same => by simp only [scope_eq same, and_self]) fun s => ?_
    split
    · next v _ =>
      have use : Logs Q Unit (modify fun s => { s with used := s.used.add v.binder })
          (modify fun s => { s with used := s.used.add v.binder }) :=
        logs_write () (used v.binder) (fun s => by rw [s.after_used]; rfl)
          (fun s => by rw [s.after_used]; rfl)
      exact congr.bind use fun _ => congr.pure _
    · exact congr.bind (logs_error (finding _ _ (by decide))) fun _ => congr.pure _
  bindName _ := logs_bindName additive location
  declare declaration name type := by
    have id : a.id = b.id := congrArg Location.node location
    refine logs_get (fun s t same => by simp only [scope_eq same, and_self]) fun s => ?_
    split
    · exact logs_error (finding _ _ (by decide))
    · refine fun σ => ⟨(), σ.scope.insert name ⟨type, a.id⟩, _, _,
        declared declaration name [(Feature.variableNames, name)], fun s here => ?_⟩
      subst here
      rw [s.after_declared, s.after_declared]
      refine ⟨rfl, ?_⟩
      rw [id]
      rfl

/-- Two steps of a collector that add the same. -/
theorem logs_collect {α : Type} {x : Collect α} {Fine : Node × Diagnostic → Prop}
    (writes : Collector.Writes Fine x)
    (related : ∀ findings facts, (∀ e ∈ findings, Fine e) →
      Q { findings, facts } { findings, facts }) : Logs Q α (collect x) (collect x) := by
  intro σ
  obtain ⟨a, findings, facts, fine, run⟩ := writes σ.config
  refine ⟨a, σ.scope, _, _, related findings facts fine, fun s here => ?_⟩
  subst here
  have step : (collect x).run s = (a, s.after s.scope { findings, facts }) := by
    change ((x.run s.collector).1, { s with collector := (x.run s.collector).2 }) = _
    rw [run s.collector rfl]
    simp [CheckState.after]
  exact ⟨step, step⟩

end Logs

/-! ## Checks of nodes -/

section Check

variable {platform : Platform} {Place : Node → Prop}

/-- A finding at one of certain nodes. Unused variables are found only after the last check. -/
def Found (Place : Node → Prop) (e : Node × Diagnostic) : Prop :=
  Place e.1 ∧ e.2.code ≠ .unusedVariable

theorem additive_same (Fine : Node × Diagnostic → Prop) : Log.Additive (Log.Same Fine) where
  nil := ⟨rfl, by simp⟩
  append first second := by
    obtain ⟨rfl, fine⟩ := first
    obtain ⟨rfl, fine'⟩ := second
    exact ⟨rfl, List.forall_mem_append.2 ⟨fine, fine'⟩⟩

theorem nodes_same {n : Node} (place : Place n) :
    Congruence.Nodes (Logs (Log.Same (Found Place))) n n :=
  logs_nodes rfl rfl (fun _ _ other => ⟨rfl, by simpa using ⟨place, other⟩⟩)
    (fun _ => ⟨rfl, by simp⟩) (additive_same _) fun _ _ _ => ⟨rfl, by simp⟩

theorem ne_unusedVariable_of_hardware {code : DiagnosticCode}
    (hardware : code ∈ DiagnosticCode.hardware) : code ≠ .unusedVariable := by
  rintro rfl
  exact absurd hardware (by decide)

/-- The setting decides what the check of a node writes, and it reports at the tree of the node. -/
theorem logs_check (modest : platform.Modest) {n : Node} (places : ∀ m ∈ n.walk, Place m) :
    Logs (Log.Same (Found Place)) _ (check platform n) (check platform n) := by
  induction n using Node.induction with
  | step n ih =>
    rw [Node.walk_eq, List.forall_mem_cons, List.forall_mem_flatMap] at places
    obtain ⟨here, below⟩ := places
    refine (congruence_logs (additive_same _)).check (nodes_same here)
      (r := n.phrase.map fun c => (c, c)) (n.phrase.map_map_cancel fun c => rfl)
      (n.phrase.map_map_cancel fun c => rfl) rfl ?_ ?_
    · rw [Phrase.children_map, List.forall_mem_map]
      intro c hc
      refine ⟨rfl, fun message => ?_, ih c hc (below c hc)⟩
      exact (nodes_same (below c hc c c.mem_walk_self)).error _ _ (by decide)
    · refine logs_collect (modest.writes n n.phrase) fun findings facts about =>
        ⟨rfl, fun e he => ?_⟩
      obtain ⟨node, hardware⟩ := about e he
      refine ⟨?_, ne_unusedVariable_of_hardware hardware⟩
      rcases List.mem_cons.1 node with same | operand
      · rw [same]
        exact here
      · have child := n.phrase.operands_subset_children operand
        exact below e.1 child e.1 e.1.mem_walk_self

/-- What is found inside of the own body of a method. -/
theorem logs_body (modest : platform.Modest) (n : Node) :
    Logs (Log.Same (Found (· ∈ n.walk))) Unit (body (checked platform n))
      (body (checked platform n)) :=
  (congruence_logs (additive_same _)).discard (logs_check modest fun _ mem => mem)

/-- What is found inside of the own body of a loop over a variable. -/
theorem logs_loop (modest : platform.Modest) (n loop : Node) (var : String) :
    Logs (Log.Same (Found (· ∈ n.walk))) Unit
      (do bind loop var .number; loopBody (checked platform n))
      (do bind loop var .number; loopBody (checked platform n)) :=
  (congruence_logs (additive_same _)).bind (logs_bindName (additive_same _) rfl var _) fun _ =>
    (congruence_logs (additive_same _)).loopBody (logs_body modest n)

end Check

end Checker

end BlockGraph

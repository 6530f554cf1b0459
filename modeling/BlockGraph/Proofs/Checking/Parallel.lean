import BlockGraph.Checking.Outcome
import BlockGraph.Proofs.SortedMap
import Mathlib.Data.List.Forall2
import Mathlib.Logic.Relator

/-!
# Two runs side by side

Two runs may report the same although they work on different nodes: the nodes of a copy carry other
ids, and there is what a run never looks at. Steps of the two runs go in parallel if they have the
same result and keep the two states alike. The ids of the two runs are paired by a relation `R`.

* `ValidationOutcome.gist`: what an outcome tells a user, who knows blocks but no nodes.
* `Collector.Alike`, `CheckState.Alike`: what the two states have in common.
* `Parallel.bind`, `Parallel.forM`: steps one after the other.
* `Parallel.withScope`, `Parallel.lookup`, `Parallel.declare`: the parts of checks.
-/

namespace BlockGraph

/-! ## What a user sees -/

/-- What a finding says, and about which block. -/
def Diagnostic.gist (d : Diagnostic) : Severity × DiagnosticCode × String × Option String :=
  (d.severity, d.code, d.message, d.blockId?)

/-- What an outcome says: the findings in order, and the facts. -/
def ValidationOutcome.gist (o : ValidationOutcome) :
    String × List (Severity × DiagnosticCode × String × Option String) × Facts :=
  (o.platform, o.diagnostics.toList.map Diagnostic.gist, o.facts)

theorem DiagnosticStore.gist_push (s : DiagnosticStore) (n : Node) (d : Diagnostic) :
    (s.push n d).toList.map Diagnostic.gist =
      s.toList.map Diagnostic.gist ++ [(d.severity, d.code, d.message, n.blockId?)] := by
  rw [toList_push, List.map_append]
  rfl

/-! ## Steps -/

/-- Two steps with the same result that lead from alike states to alike states. -/
def Parallel {σ τ α : Type} (A : σ → τ → Prop) (x : StateM σ α) (y : StateM τ α) : Prop :=
  ∀ s t, A s t → (x.run s).1 = (y.run t).1 ∧ A (x.run s).2 (y.run t).2

namespace Parallel

section Steps

variable {σ τ α β : Type} {A : σ → τ → Prop} {x : StateM σ α} {y : StateM τ α}

protected theorem pure (r : α) : Parallel A (pure r) (pure r) := fun _ _ h => ⟨rfl, h⟩

protected theorem bind {f : α → StateM σ β} {g : α → StateM τ β} (hx : Parallel A x y)
    (hf : ∀ r, Parallel A (f r) (g r)) : Parallel A (x >>= f) (y >>= g) := by
  intro s t h
  obtain ⟨same, between⟩ := hx s t h
  have after := hf (x.run s).1 _ _ between
  change ((f (x.run s).1).run (x.run s).2).1 = ((g (y.run t).1).run (y.run t).2).1 ∧
    A ((f (x.run s).1).run (x.run s).2).2 ((g (y.run t).1).run (y.run t).2).2
  rwa [← same]

protected theorem discard (hx : Parallel A x y) : Parallel A (discard x) (discard y) :=
  fun s t h => ⟨rfl, (hx s t h).2⟩

/-- Steps that depend on the states. -/
protected theorem get_bind {f : σ → StateM σ β} {g : τ → StateM τ β}
    (h : ∀ s t, A s t → Parallel A (f s) (g t)) : Parallel A (get >>= f) (get >>= g) :=
  fun s t alike => h s t alike s t alike

protected theorem modify {f : σ → σ} {g : τ → τ} (h : ∀ s t, A s t → A (f s) (g t)) :
    Parallel A (modify f) (modify g) := fun s t alike => ⟨rfl, h s t alike⟩

section Lists

variable {ι κ : Type} {P : ι → κ → Prop} {l : List ι} {m : List κ}

protected theorem forM {f : ι → StateM σ PUnit} {g : κ → StateM τ PUnit}
    (paired : List.Forall₂ P l m) (each : ∀ i j, P i j → Parallel A (f i) (g j)) :
    Parallel A (l.forM f) (m.forM g) := by
  induction paired with
  | nil => exact .pure _
  | cons first _ ih => exact .bind (each _ _ first) fun _ => ih

end Lists

end Steps

end Parallel

/-! ## Collectors -/

/-- Two collectors for one configuration that tell the same. -/
structure Collector.Alike (c d : Collector) : Prop where
  config : c.config = d.config
  findings : c.store.toList.map Diagnostic.gist = d.store.toList.map Diagnostic.gist
  facts : c.facts = d.facts

namespace Parallel

section Collectors

open Collector

variable {a b : Node} (block : a.blockId? = b.blockId?)

include block

/-- Findings are compared by the blocks of their nodes. -/
protected theorem report (d : Diagnostic) : Parallel Alike (report a d) (report b d) := by
  intro c c' h
  refine ⟨rfl, h.config, ?_, h.facts⟩
  change (c.store.push a d).toList.map Diagnostic.gist =
    (c'.store.push b d).toList.map Diagnostic.gist
  rw [DiagnosticStore.gist_push, DiagnosticStore.gist_push, h.findings, block]

protected theorem error (code : DiagnosticCode) (message : String) :
    Parallel Alike (Collector.error a code message) (Collector.error b code message) :=
  .report block _

protected theorem refuse (code : DiagnosticCode) (message : String) :
    Parallel Alike (refuse a code message) (refuse b code message) :=
  .bind (.error block code message) fun _ => .pure _

omit block in
protected theorem record (feature fact : String) :
    Parallel Alike (record feature fact) (record feature fact) := by
  intro c d h
  refine ⟨rfl, h.config, h.findings, ?_⟩
  change c.facts.record feature fact = d.facts.record feature fact
  rw [h.facts]

omit block in
protected theorem grant (feature fact : String) :
    Parallel Alike (grant feature fact) (grant feature fact) :=
  .bind (.record feature fact) fun _ => .pure _

protected theorem requireMotor (port : String) :
    Parallel Alike (requireMotor a port) (requireMotor b port) := by
  refine .get_bind fun c d h => ?_
  rw [h.config]
  split
  · exact .refuse block _ _
  · exact .grant _ _
  · exact .refuse block _ _

protected theorem requireSensor (sensor port : String) :
    Parallel Alike (requireSensor a sensor port) (requireSensor b sensor port) := by
  refine .get_bind fun c d h => ?_
  rw [h.config]
  split
  · exact .refuse block _ _
  · exact .refuse block _ _
  · split
    · exact .grant _ _
    · exact .refuse block _ _

protected theorem requireCapability (capability fact : String) :
    Parallel Alike (requireCapability a capability fact)
      (requireCapability b capability fact) := by
  refine .get_bind fun c d h => ?_
  dsimp only
  rw [h.config]
  split
  · exact .grant _ _
  · exact .refuse block _ _

end Collectors

end Parallel

/-! ## States of the checker -/

/-- Two nodes of one block and one kind, with paired ids. -/
structure Node.Twin (R : NodeId → NodeId → Prop) (a b : Node) : Prop where
  id : R a.id b.id
  block : a.blockId? = b.blockId?
  kind : a.kind = b.kind

/-- Two states in which the checks of twins go the same way. -/
structure CheckState.Alike (R : NodeId → NodeId → Prop) (s t : CheckState) : Prop where
  collector : s.collector.Alike t.collector
  scope : ∀ name, Option.Rel (fun v w => v.type = w.type ∧ R v.binder w.binder)
    (s.scope.get? name) (t.scope.get? name)
  declared : List.Forall₂ (fun d e => d.1.Twin R e.1 ∧ d.2 = e.2) s.declared t.declared
  used : ∀ i j, R i j → s.used.contains i = t.used.contains j
  methods : s.methods = t.methods
  loopDepth : s.loopDepth = t.loopDepth
  round : s.round = t.round

/-- Two children that the check of their parents cannot tell apart. -/
structure Checker.Indistinct (R : NodeId → NodeId → Prop) (c d : Child) : Prop where
  block : c.node.blockId? = d.node.blockId?
  missing : c.node.phrase.isEmptyExpr = d.node.phrase.isEmptyExpr
  result : Parallel (CheckState.Alike R) c.result d.result

namespace Parallel

open Checker CheckState

variable {R : NodeId → NodeId → Prop} {a b : Node} {c d : Child}

protected theorem collect {α : Type} {x y : Collect α} (h : Parallel Collector.Alike x y) :
    Parallel (Alike R) (collect x) (collect y) := by
  intro s t alike
  obtain ⟨same, after⟩ := h s.collector t.collector alike.collector
  exact ⟨same, { alike with collector := after }⟩

/-- A step of the checker that reports an error. -/
protected theorem fault (block : a.blockId? = b.blockId?) (code : DiagnosticCode)
    (message : String) :
    Parallel (Alike R) (Checker.error a code message) (Checker.error b code message) :=
  .collect (.error block code message)

protected theorem loopBody (h : Parallel (Alike R) (body c) (body d)) :
    Parallel (Alike R) (loopBody c) (loopBody d) := by
  refine .bind (.modify fun s t h => ?_) fun _ => .bind h fun _ => .modify fun s t h => ?_
  · exact { h with loopDepth := congrArg (· + 1) h.loopDepth }
  · exact { h with loopDepth := congrArg (· - 1) h.loopDepth }

section Scopes

variable {x y : Check Unit}

protected theorem withScope (h : Parallel (Alike R) x y) :
    Parallel (Alike R) (withScope x) (withScope y) := by
  refine .get_bind fun s t before => .bind h fun _ => .modify fun s' t' after => ?_
  exact { after with scope := before.scope }

protected theorem outsideLoops (h : Parallel (Alike R) x y) :
    Parallel (Alike R) (outsideLoops x) (outsideLoops y) := by
  refine .get_bind fun s t before => .bind (.modify fun s' t' h => ?_) fun _ => .bind h fun _ =>
    .modify fun s' t' after => ?_
  · exact { h with loopDepth := rfl }
  · exact { after with loopDepth := before.loopDepth }

end Scopes

/-- Twins bind the same name. -/
protected theorem bindName (twin : a.Twin R b) (name : String) (type : ExprType) :
    Parallel (Alike R) (Checker.bind a name type) (Checker.bind b name type) := by
  refine .modify fun s t h => { h with scope := fun name' => ?_ }
  rw [SortedMap.get?_insert, SortedMap.get?_insert]
  split
  · exact .some ⟨rfl, twin.id⟩
  · exact h.scope name'

/-- A name that both programs use marks paired binders. -/
protected theorem lookup (unique : Relator.BiUnique R) (block : a.blockId? = b.blockId?)
    (name : String) : Parallel (Alike R) (lookup a name) (lookup b name) := by
  refine .get_bind fun s t before => ?_
  have binders := before.scope name
  revert binders
  cases s.scope.get? name <;> cases t.scope.get? name <;> intro binders
  case none.none => exact .bind (.fault block _ _) fun _ => .pure _
  case none.some => cases binders
  case some.none => cases binders
  case some.some v w =>
    obtain ⟨⟨type, paired⟩⟩ := binders
    refine .bind (.modify fun s' t' h => { h with used := fun i j ij => ?_ }) fun _ => ?_
    · have same : i = v.binder ↔ j = w.binder :=
        ⟨fun e => unique.2 ij (e ▸ paired), fun e => unique.1 ij (e ▸ paired)⟩
      rw [SortedMap.contains, SortedMap.contains, SortedSet.add, SortedSet.add,
        SortedMap.get?_insert, SortedMap.get?_insert]
      simp only [same]
      split
      · rfl
      · exact h.used i j ij
    · rw [type]
      exact .pure _

protected theorem checkName (block : a.blockId? = b.blockId?) (name what : String) :
    Parallel (Alike R) (checkName a name what) (checkName b name what) := by
  unfold checkName
  split
  · exact .pure _
  · exact .fault block _ _

protected theorem declare (twin : a.Twin R b) (name : String) (type : ExprType) :
    Parallel (Alike R) (declare a name type) (declare b name type) := by
  refine .get_bind fun s t before => ?_
  have known : s.scope.contains name = t.scope.contains name := by
    have binders := before.scope name
    unfold SortedMap.contains
    generalize s.scope.get? name = v, t.scope.get? name = w at binders
    cases binders <;> rfl
  rw [known]
  split
  · exact .fault twin.block _ _
  · refine .bind (.bindName twin name type) fun _ => .bind (.modify fun s' t' h => ?_) fun _ =>
      .collect (.record _ _)
    exact { h with declared := List.rel_append h.declared (.cons ⟨twin, rfl⟩ .nil) }

protected theorem define (block : a.blockId? = b.blockId?) (name : String) :
    Parallel (Alike R) (define a name) (define b name) := by
  refine .bind (.checkName block name _) fun _ => .get_bind fun s t before => ?_
  rw [before.methods]
  split
  · exact .fault block _ _
  · refine .bind (.modify fun s' t' h => ?_) fun _ => .collect (.record _ _)
    exact { h with methods := congrArg (SortedSet.add · name) h.methods }

/-- Twins are both used or both not. -/
protected theorem warnIfUnused {d e : Node × String} (twin : d.1.Twin R e.1) (name : d.2 = e.2) :
    Parallel (Alike R) (warnIfUnused d) (warnIfUnused e) := by
  refine .get_bind fun s t h => ?_
  rw [h.used _ _ twin.id, name]
  split
  · exact .collect (.report twin.block _)
  · exact .pure _

end Parallel

end BlockGraph

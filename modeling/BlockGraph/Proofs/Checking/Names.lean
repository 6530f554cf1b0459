import BlockGraph.Proofs.Checking.Scoping
import BlockGraph.Proofs.Checking.Setting

/-!
# Following names

A run keeps one scope, which some steps add to and others put back. It agrees at every step with
what can be seen there according to what was visited before.

* `Checker.Tracks`: the state of a run agrees with what it visited.
* `Checker.Follows`: a step that keeps this up for some visits, with a rule for each part of checks.
* `Checker.follows_check`: the check of a node follows the visits below it.
-/

namespace BlockGraph

/-- The codes of findings about names. -/
def DiagnosticCode.ofNames : List DiagnosticCode :=
  [undeclaredVariable, duplicateVariable, unusedVariable]

/-- What a finding says about the name of a node. -/
def Diagnostic.nameFault? (d : Diagnostic) : Option (DiagnosticCode × Option Location) :=
  if d.code = .undeclaredVariable ∨ d.code = .duplicateVariable then some (d.code, d.location)
  else none

namespace Checker

open Visit

variable {round : Round} {past : List Visit} {inside : List NodeId} {s : CheckState} {n : Node}
  {x : String}

/-! ## States -/

/-- A state in which the names are as the visits before it, latest first, leave them. -/
structure Tracks (round : Round) (past : List Visit) (inside : List NodeId) (s : CheckState) :
    Prop where
  scope : ∀ x, (s.scope.get? x).map (·.binder) = (binder? x past inside).map (·.id)
  faults : s.collector.store.toList.filterMap Diagnostic.nameFault? = gather faults past
  used : ∀ i, s.used.contains i = true ↔ i ∈ gather uses past
  declared : s.declared = gather declares past
  /-- What is never used is told at the end only. -/
  early : ∀ d ∈ s.collector.store.toList, d.code ≠ .unusedVariable
  round : s.round = round
  nested : Nested past
  around : inside ⊆ past.map (·.node.id)

namespace Tracks

/-- Findings that are not about names change nothing. -/
theorem findings (h : Tracks round past inside s) {findings : List (Node × Diagnostic)}
    (other : ∀ e ∈ findings, e.2.code ∉ DiagnosticCode.ofNames) (facts : List (String × String)) :
    Tracks round past inside (s.after s.scope { findings, facts }) where
  scope := h.scope
  faults := by
    have none : (Log.reports { findings, facts }).filterMap Diagnostic.nameFault? = [] := by
      rw [Log.reports, List.filterMap_map, List.filterMap_eq_nil_iff]
      intro e he
      have code := other e he
      simp only [DiagnosticCode.ofNames, List.mem_cons, not_or] at code
      exact if_neg (not_or.2 ⟨code.1, code.2.1⟩)
    rw [s.toList_after, List.filterMap_append, none, List.append_nil, h.faults]
  used := h.used
  declared := (List.append_nil s.declared).trans h.declared
  early := by
    rw [s.toList_after, List.forall_mem_append, Log.reports, List.forall_mem_map]
    refine ⟨h.early, fun e he same => other e he ?_⟩
    rw [show e.2.code = .unusedVariable from same]
    decide
  round := h.round
  nested := h.nested
  around := h.around

/-- A step that writes what a visit calls for. -/
theorem visit (h : Tracks round past inside s) {inside' : List NodeId}
    {scope : SortedMap String Variable} {log : Log}
    (now : ∀ x, (scope.get? x).map (·.binder) =
      (binder? x (⟨n, inside⟩ :: past) inside').map (·.id))
    (faults : log.reports.filterMap Diagnostic.nameFault? = Visit.faults ⟨n, inside⟩ past)
    (used : log.used = uses ⟨n, inside⟩ past) (declared : log.declared = declares ⟨n, inside⟩ past)
    (early : ∀ d ∈ log.reports, d.code ≠ .unusedVariable) (around : inside' ⊆ n.id :: inside) :
    Tracks round (⟨n, inside⟩ :: past) inside' (s.after scope log) where
  scope := now
  faults := by rw [s.toList_after, List.filterMap_append, faults, h.faults, gather]
  used i := by
    change (log.used.foldl SortedSet.add s.used).contains i = true ↔ _
    rw [SortedSet.contains_foldl_add_iff, h.used, used, gather, List.mem_append]
  declared := by
    change s.declared ++ log.declared = _
    rw [h.declared, declared, gather]
  early := by
    rw [s.toList_after, List.forall_mem_append]
    exact ⟨h.early, early⟩
  round := h.round
  nested := ⟨h.around, h.nested⟩
  around := List.Subset.trans around (List.cons_subset_cons _ h.around)

end Tracks

/-! ## Steps -/

/-- A step of a round inside some chains that goes by the given visits. -/
def Follows (round : Round) (inside : List NodeId) {α : Type} (x : Check α) (vs : List Visit) :
    Prop :=
  ∀ past s, ((vs.reverse ++ past).map (·.node.id)).Nodup → Tracks round past inside s →
    Tracks round (vs.reverse ++ past) inside (x.run s).2

namespace Follows

variable {α β ι : Type} {y : Check α} {vs ws : List Visit}

protected theorem pure (a : α) : Follows round inside (pure a) [] := fun _ _ _ h => h

protected theorem bind {f : α → Check β} (first : Follows round inside y vs)
    (second : ∀ a, Follows round inside (f a) ws) : Follows round inside (y >>= f) (vs ++ ws) := by
  intro past s distinct h
  rw [List.reverse_append, List.append_assoc] at distinct ⊢
  have before : ((vs.reverse ++ past).map (·.node.id)).Nodup := by
    rw [List.map_append] at distinct
    exact (List.nodup_append.1 distinct).2.1
  exact second _ _ _ distinct (first past s before h)

protected theorem get_bind {f : CheckState → Check α}
    (each : ∀ s, s.round = round → Follows round inside (f s) vs) :
    Follows round inside (get >>= f) vs := fun past s distinct h => each s h.round past s distinct h

protected theorem map (f : α → β) (h : Follows round inside y vs) :
    Follows round inside (f <$> y) vs := h

protected theorem discard (h : Follows round inside y vs) : Follows round inside (discard y) vs := h

/-- A step that goes by no visits, at the end of some others. -/
protected theorem andThen {f : α → Check β} (h : Follows round inside y vs)
    (quiet : ∀ a, Follows round inside (f a) []) : Follows round inside (y >>= f) vs := by
  have both := h.bind quiet
  rwa [List.append_nil] at both

/-- A step that goes by no visits, before some others. -/
protected theorem after {f : α → Check β} (quiet : Follows round inside y [])
    (h : ∀ a, Follows round inside (f a) vs) : Follows round inside (y >>= f) vs := quiet.bind h

protected theorem forM {l : List ι} {f : ι → Check PUnit} {visits : ι → List Visit}
    (each : ∀ i ∈ l, Follows round inside (f i) (visits i)) :
    Follows round inside (l.forM f) (l.flatMap visits) := by
  induction l with
  | nil => exact .pure _
  | cons i l ih =>
    rw [List.forall_mem_cons] at each
    exact .bind each.1 fun _ => ih each.2

protected theorem mapM {l : List ι} {f : ι → Check α} {visits : ι → List Visit}
    (each : ∀ i ∈ l, Follows round inside (f i) (visits i)) :
    Follows round inside (l.mapM f) (l.flatMap visits) := by
  induction l with
  | nil => exact .pure _
  | cons i l ih =>
    rw [List.forall_mem_cons] at each
    rw [List.mapM_cons]
    exact .bind each.1 fun _ => .andThen (ih each.2) fun _ => .pure _

/-- A step that finds nothing about names. -/
protected theorem findings (run : ∀ s, ∃ findings facts,
      (∀ e ∈ findings, e.2.code ∉ DiagnosticCode.ofNames) ∧
      (y.run s).2 = s.after s.scope { findings, facts }) : Follows round inside y [] := by
  intro past s _ h
  obtain ⟨findings, facts, other, run⟩ := run s
  rw [run]
  exact h.findings other facts

protected theorem error {code : DiagnosticCode} (other : code ∉ DiagnosticCode.ofNames)
    (message : String) : Follows round inside (error n code message) [] :=
  .findings fun s => ⟨[(n, { severity := .error, code, message })], [], by simpa using other,
    (s.after_finding _ _).symm⟩

protected theorem collect {Fine : Node × Diagnostic → Prop} {z : Collect α}
    (writes : Collector.Writes Fine z) (other : ∀ e, Fine e → e.2.code ∉ DiagnosticCode.ofNames) :
    Follows round inside (collect z) [] := by
  refine .findings fun s => ?_
  obtain ⟨a, findings, facts, fine, run⟩ := writes s.collector.config
  refine ⟨findings, facts, fun e he => other e (fine e he), ?_⟩
  change { s with collector := (z.run s.collector).2 } = _
  rw [run s.collector rfl]
  simp [CheckState.after]

protected theorem checkName (name what : String) :
    Follows round inside (checkName n name what) [] := by
  unfold checkName
  split
  · exact .pure _
  · exact .error (by decide) _

/-- The loops around do not matter to names. -/
protected theorem loopBody {c : Child} (h : Follows round inside (body c) vs) :
    Follows round inside (loopBody c) vs := by
  intro past s distinct tracks
  have inner : Tracks round past inside { s with loopDepth := s.loopDepth + 1 } := { tracks with }
  exact { h past _ distinct inner with }

protected theorem outsideLoops {z : Check Unit} (h : Follows round inside z vs) :
    Follows round inside (outsideLoops z) vs := by
  intro past s distinct tracks
  have inner : Tracks round past inside { s with loopDepth := 0 } := { tracks with }
  exact { h past _ distinct inner with }

/-- A variable is used where a visited node uses it. -/
protected theorem lookup {name : String} (used : n.used? = some name)
    (declared : n.declared? = none) (loop : n.loopVar? = none) :
    Follows round inside (lookup n name) [⟨n, inside⟩] := by
  intro past s _ h
  have unbound (x : String) : binder? x (⟨n, inside⟩ :: past) inside = binder? x past inside := by
    refine binder?_cons ?_
    simp [Offers, declared, loop]
  have now (x : String) : (s.scope.get? x).map (·.binder) =
      (binder? x (⟨n, inside⟩ :: past) inside).map (·.id) := by rw [unbound, h.scope]
  have same := h.scope name
  have run : ((lookup n name).run s).2 = s.after s.scope ((s.scope.get? name).elim
      { findings := [(n, {
        severity := .error
        code := .undeclaredVariable
        message := "variable '" ++ name ++ "' is used before it is declared" })] }
      fun v => { used := [v.binder] }) := by
    unfold lookup
    rw [StateT.run_bind, StateT.run_get, pure_bind]
    dsimp only
    cases s.scope.get? name with
    | some v => exact (s.after_used _).symm
    | none => exact (s.after_finding _ _).symm
  rw [run]
  cases found : s.scope.get? name with
  | some v =>
    rw [found] at same
    obtain ⟨b, bound, id⟩ := Option.map_eq_some_iff.1 same.symm
    refine h.visit now ?_ ?_ ?_ (by simp [Log.reports]) (List.subset_cons_self _ _)
    · simp [Log.reports, faults, used, declared, bound]
    · simp [uses, used, bound, id]
    · simp [declares, declared]
  | none =>
    rw [found] at same
    have bound := Option.map_eq_none_iff.1 same.symm
    refine h.visit now ?_ ?_ ?_ ?_ (List.subset_cons_self _ _)
    · simp [Log.reports, faults, used, declared, bound, Diagnostic.nameFault?]
    · simp [uses, used, bound]
    · simp [declares, declared]
    · simp [Log.reports]
      decide

/-- A variable is in scope from the end of its declaration on. -/
protected theorem declare {name : String} (declared : n.declared? = some name)
    (used : n.used? = none) (loop : n.loopVar? = none) (type : ExprType) :
    Follows round inside (declare n name type) [⟨n, inside⟩] := by
  intro past s _ h
  have same := h.scope name
  have run : ((declare n name type).run s).2 =
      if s.scope.contains name then s.after s.scope { findings := [(n, {
        severity := .error
        code := .duplicateVariable
        message := "variable '" ++ name ++ "' is declared more than once" })] }
      else s.after (s.scope.insert name ⟨type, n.id⟩)
        { declared := [(n, name)], facts := [(Feature.variableNames, name)] } := by
    unfold declare
    change ((if s.scope.contains name = true then _ else _ : Check Unit).run s).2 = _
    split
    · exact (s.after_finding _ _).symm
    · exact (s.after_declared _ _ _ _).symm
  have other {x : String} (differ : x ≠ name) :
      binder? x (⟨n, inside⟩ :: past) inside = binder? x past inside := by
    refine binder?_cons ?_
    simp [Offers, declared, loop, Ne.symm differ]
  rw [run, SortedMap.contains, ← Option.isSome_map (f := (·.binder)), same, Option.isSome_map]
  cases bound : binder? name past inside with
  | some b =>
    refine h.visit (fun x => ?_) ?_ ?_ ?_ ?_ (List.subset_cons_self _ _)
    · rw [h.scope]
      by_cases here : x = name
      · subst here
        rw [binder?_cons]
        simp [Offers, loop, bound]
      · rw [other here]
    · simp [Log.reports, faults, used, declared, bound, Diagnostic.nameFault?]
    · simp [uses, used]
    · simp [declares, declared, bound]
    · simp [Log.reports]
      decide
  | none =>
    refine h.visit (fun x => ?_) ?_ ?_ ?_ (by simp [Log.reports]) (List.subset_cons_self _ _)
    · rw [SortedMap.get?_insert]
      by_cases here : x = name
      · subst here
        simp [binder?, declared, bound]
      · rw [if_neg here, other here, h.scope]
    · simp [Log.reports, faults, used, declared, bound]
    · simp [uses, used]
    · simp [declares, declared, bound]

/-- A chain that a node keeps to itself, with the variable of the node if it is a loop. -/
protected theorem withScope {whole chain : Check Unit} (declared : n.declared? = none)
    (used : n.used? = none) (within : ∀ v ∈ vs, n.id ∈ v.inside)
    (enters : ∀ s, ∃ scope, (whole.run s).2 = (chain.run (s.after scope {})).2 ∧
      ∀ x, (scope.get? x).map (·.binder) =
        if n.loopVar? = some x then some n.id else (s.scope.get? x).map (·.binder))
    (follows : Follows round (n.id :: inside) chain vs) :
    Follows round inside (withScope whole) (⟨n, inside⟩ :: vs) := by
  intro past s distinct h
  rw [List.reverse_cons, List.append_assoc, List.singleton_append] at distinct ⊢
  obtain ⟨-, fresh, apart⟩ := List.nodup_append.1 (List.map_append ▸ distinct)
  replace fresh : n.id ∉ past.map (·.node.id) := (List.nodup_cons.1 fresh).1
  obtain ⟨scope, run, bound⟩ := enters s
  have entered : Tracks round (⟨n, inside⟩ :: past) (n.id :: inside) (s.after scope {}) := by
    refine h.visit (fun x => ?_) ?_ ?_ ?_ (by simp [Log.reports]) (List.Subset.refl _)
    · rw [bound]
      split
      · next loop => simp [binder?, loop]
      · next loop =>
        rw [binder?_cons, binder?_enter h.nested fresh, h.scope]
        simp [Offers, declared, loop]
    · simp [Log.reports, faults, used, declared]
    · simp [uses, used]
    · simp [declares, declared]
  have left := follows _ _ distinct entered
  rw [← run] at left
  have outside (x : String) :
      binder? x (vs.reverse ++ ⟨n, inside⟩ :: past) inside = binder? x past inside := by
    rw [binder?_leave (i := n.id), binder?_cons]
    · rintro (⟨declares, -⟩ | ⟨-, loop⟩)
      · rw [declared] at declares
        cases declares
      · exact fresh (h.around loop)
    · exact fun v hv => within v (List.mem_reverse.1 hv)
    · exact fun here => fresh (h.around here)
    · intro v hv here
      exact apart _ (List.mem_map_of_mem hv) _ (List.mem_cons_of_mem _ (h.around here)) rfl
  exact {
    left with
    scope x := (h.scope x).trans (by rw [outside])
    around := List.Subset.trans (List.subset_cons_self _ _) left.around }

/-! ## Parts of checks -/

variable {board : Board} {c : Child}

protected theorem expect {place : Node}
    (child : Follows round inside c.result (c.node.visits board round inside)) (want : ExprType)
    (what : String) :
    Follows round inside (expect place c want what) (c.node.visits board round inside) := by
  unfold Checker.expect
  split
  · next empty =>
    rw [Node.visits_of_isEmptyExpr empty]
    exact .andThen (.error (by decide) _) fun _ => .pure _
  · refine .andThen child fun got => ?_
    dsimp only
    split
    · exact .pure _
    · exact .andThen (.error (by decide) _) fun _ => .pure _

/-- The value of a child is checked for its type and then forgotten. -/
protected theorem operand {place : Node}
    (child : Follows round inside c.result (c.node.visits board round inside)) (want : ExprType)
    (what : String) : Follows round inside (Functor.discard (Checker.expect place c want what))
      (c.node.visits board round inside) := .discard (.expect child want what)

end Follows

/-! ## Checks of nodes -/

section Handler

variable {platform : Platform}

attribute [local simp] Phrase.children Phrase.slots SlotValue.nodes Phrase.route Phrase.before
  Phrase.after Phrase.dealsWithNames Phrase.ownBody?

/-- The check of a node follows the visits below it if those of its children do. -/
theorem follows_handler (modest : platform.Modest) (inside : List NodeId) {p : Phrase Child}
    (shape : n.phrase = p.map (·.node))
    (each : ∀ c ∈ p.children, ∀ inside,
      Follows round inside c.result (c.node.visits platform.board round inside)) :
    Follows round inside (handler platform n p)
      (p.route platform.board round n inside fun c => c.node.visits platform.board round) := by
  have asked : Follows round inside (collect (platform.ask n (p.map (·.node)))) [] := by
    have other : ∀ code ∈ DiagnosticCode.hardware, code ∉ DiagnosticCode.ofNames := by decide
    exact .collect (modest.writes n _) fun e about => other _ about.2
  -- The name that a node deals with is told by its phrase.
  obtain ⟨header, phrase⟩ := n
  obtain rfl : phrase = p.map (·.node) := shape
  cases p with
  | stmtList statements =>
    simp at each ⊢
    exact .andThen (.forM fun c hc => .discard (each c hc inside)) fun _ => .pure _
  | mainTask debug declarations =>
    simp at each ⊢
    refine .get_bind fun s here => ?_
    rw [here]
    split
    · simp
      exact .andThen (.discard (each inside)) fun _ => .pure _
    · exact .pure _
  | varDeclaration var type value =>
    simp at each ⊢
    exact .after (.checkName _ _) fun _ => .bind (.operand (each inside) _ _) fun _ =>
      .andThen (.declare rfl rfl rfl _) fun _ => .pure _
  | ifElse conditions branches otherwise =>
    simp [List.flatMap_assoc] at each ⊢
    refine .bind (.forM fun e he => ?_) fun _ => .andThen ?_ fun _ => .pure _
    · obtain ⟨condition, branch⟩ := List.of_mem_zip he
      exact .bind (.operand (each _ (.inl condition) inside) _ _) fun _ =>
        .discard (each _ (.inr (.inl branch)) inside)
    · cases otherwise with
      | none => exact .pure _
      | some chain =>
        rw [Option.toList_some, List.flatMap_cons, List.flatMap_nil, List.append_nil]
        exact .discard (each chain (.inr (.inr rfl)) inside)
  | repeatTimes times chain | whileUntil _ times chain =>
    simp at each ⊢
    exact .bind (.operand (each.1 inside) _ _) fun _ =>
      .andThen (.loopBody (.discard (each.2 inside))) fun _ => .pure _
  | forLoop var start stop step chain =>
    simp at each ⊢
    obtain ⟨eachStart, eachStop, eachStep, eachChain⟩ := each
    refine .after (.checkName _ _) fun _ => .bind (.operand (eachStart inside) _ _) fun _ =>
      .bind (.operand (eachStop inside) _ _) fun _ =>
      .bind (.operand (eachStep inside) _ _) fun _ => .andThen ?_ fun _ => .pure _
    refine .withScope rfl rfl
      (fun v hv => Node.inside_subset_of_visits hv List.mem_cons_self) (fun s => ?_)
      (.loopBody (.discard (eachChain _)))
    refine ⟨s.scope.insert var ⟨.number, header.id⟩, ?_, fun x => ?_⟩
    · rw [s.after_nil]
      rfl
    · rw [SortedMap.get?_insert]
      by_cases here : x = var <;> simp [Node.loopVar?, Node.id, Phrase.map, here, Ne.symm]
  | flowControl flow =>
    simp
    refine .get_bind fun s _ => ?_
    split
    · exact .andThen (.error (by decide) _) fun _ => .pure _
    · exact .pure _
  | assign var value =>
    simp at each ⊢
    exact .bind (.lookup rfl rfl rfl) fun _ =>
      .andThen (.operand (each inside) _ _) fun _ => .pure _
  | waitTime value | negate value =>
    simp at each ⊢
    exact .andThen (.operand (each inside) _ _) fun _ => .pure _
  | methodDef var chain =>
    simp at each ⊢
    refine .andThen (.outsideLoops (.withScope rfl rfl
      (fun v hv => Node.inside_subset_of_visits hv List.mem_cons_self) (fun s => ?_)
      (.discard (each _)))) fun _ => .pure _
    refine ⟨s.scope, ?_, fun x => (if_neg (Option.some_ne_none x).symm).symm⟩
    rw [s.after_scope]
    rfl
  | methodCall var =>
    simp
    refine .get_bind fun s _ => ?_
    split
    · exact .andThen (.error (by decide) _) fun _ => .pure _
    · exact .pure _
  | numConst text =>
    simp
    rw [handler]
    split
    · exact .pure _
    · exact .andThen (.error (by decide) _) fun _ => .pure _
  | boolConst | stringConst | emptyExpr => exact .pure _
  | varRef var => exact .lookup rfl rfl rfl
  | arithmetic op left right | logic op left right =>
    simp at each ⊢
    exact .bind (.operand (each.1 inside) _ _) fun _ =>
      .andThen (.operand (each.2 inside) _ _) fun _ => .pure _
  | compare op left right =>
    simp at each ⊢
    refine .bind (.expect (each.1 inside) _ _) fun a =>
      .andThen (.expect (each.2 inside) _ _) fun b => ?_
    dsimp only
    split
    · exact .andThen (.error (by decide) _) fun _ => .pure _
    · exact .pure _
  | motorSetPower port power =>
    simp at each ⊢
    exact .andThen (.operand (each inside) _ _) fun _ => .andThen asked fun _ => .pure _
  | motorStop port | sensorSample _ port => exact .andThen asked fun _ => .pure _
  | showText text =>
    simp at each ⊢
    exact .andThen (.operand (each inside) _ _) fun _ => .andThen asked fun _ => .pure _
  | playTone frequency duration =>
    simp at each ⊢
    exact .bind (.operand (each.1 inside) _ _) fun _ =>
      .andThen (.operand (each.2 inside) _ _) fun _ => .andThen asked fun _ => .pure _
  | extension spec slots =>
    rw [handler]
    split
    · next listed =>
      have children : Follows round inside (discard (Node.acceptChildren (.extension spec slots)))
          ((Phrase.extension spec slots).children.flatMap
            (·.node.visits platform.board round inside)) :=
        .andThen (.mapM fun c hc => each c hc inside) fun _ => .pure _
      rw [Phrase.route, Phrase.after, if_pos listed]
      simp only [Phrase.before, Phrase.dealsWithNames, Phrase.ownBody?, List.flatMap_nil,
        List.nil_append, Option.toList_none, List.append_nil, Bool.false_eq_true, if_false]
      refine .andThen children fun _ => .andThen ?_ fun _ => .pure _
      simpa only [Phrase.map, Platform.ask] using asked
    · next unlisted =>
      rw [Phrase.route, Phrase.after, if_neg unlisted]
      exact .andThen (.error (by decide) _) fun _ => .pure _

end Handler

theorem follows_check {platform : Platform} (modest : platform.Modest) (n : Node)
    (inside : List NodeId) :
    Follows round inside (check platform n) (n.visits platform.board round inside) := by
  induction n using Node.induction generalizing inside with
  | step n ih =>
    rw [check_eq, Node.visits_eq]
    split
    swap
    · exact .pure none
    have shape : n.phrase = (n.phrase.map (checked platform)).map (·.node) :=
      (n.phrase.map_map_cancel fun c => rfl).symm
    have each : ∀ c ∈ (n.phrase.map (checked platform)).children, ∀ inside,
        Follows round inside c.result (c.node.visits platform.board round inside) := by
      rw [Phrase.children_map, List.forall_mem_map]
      exact fun c hc inside => ih c hc inside
    have handled := follows_handler modest inside shape each
    rw [Phrase.route_map] at handled
    exact .map some handled

end Checker

end BlockGraph

import BlockGraph.Proofs.Checking.Parallel
import BlockGraph.Proofs.Checking.Setting
import BlockGraph.Proofs.Checking.Visits
import BlockGraph.Proofs.Node.Bodies

/-!
# Chains anywhere on the canvas

Where a chain is on the canvas does not matter to a run, as long as there is one start block at
most, the methods have different names, and what is declared outside of the start block stays inside
a method or a loop over a variable. Then every chain starts in one setting and leaves it as it was,
so the logs of the chains come together in any order.

* `CheckState.Shuffled`: two states with the same findings in any order.
* `Checker.keeps_check`: a chain that declares nothing outside of such bodies keeps the setting.
* `Program.Movable`: what is asked of a program.
* `Program.perm_validate_of_perm`: the outcome for the chains in another order.
-/

namespace BlockGraph

/-! ## Logs in any order -/

theorem Facts.record_right_comm (f : Facts) (feature fact feature' fact' : String) :
    (f.record feature fact).record feature' fact' =
      (f.record feature' fact').record feature fact := by
  refine congrArg Facts.mk (SortedMap.ext_get? fun k => ?_)
  simp only [record, SortedMap.get?_insert]
  by_cases same : feature = feature'
  · subst same
    by_cases here : k = feature <;> simp [here, SortedSet.add_right_comm]
  · by_cases here : k = feature <;> by_cases there : k = feature' <;>
      simp_all [Ne.symm same]

theorem Facts.recordAll_perm {facts facts' : List (String × String)} (perm : facts.Perm facts')
    (f : Facts) : f.recordAll facts = f.recordAll facts' :=
  perm.foldl_eq' (fun d _ e _ f => f.record_right_comm d.1 d.2 e.1 e.2) f

/-- The same log in any order. -/
structure Log.Shuffled (l m : Log) : Prop where
  findings : l.findings.Perm m.findings
  facts : l.facts.Perm m.facts
  declared : l.declared.Perm m.declared
  used : l.used.Perm m.used

/-- Several logs, one after the other. -/
def Log.join (logs : List Log) : Log := logs.foldr (· ++ ·) {}

namespace Log

@[simp] theorem join_cons (l : Log) (logs : List Log) : join (l :: logs) = l ++ join logs := rfl

theorem shuffled_join {logs logs' : List Log} (perm : logs.Perm logs') :
    (join logs).Shuffled (join logs') := by
  have parts (ls : List Log) : join ls = {
      findings := ls.flatMap (·.findings)
      facts := ls.flatMap (·.facts)
      declared := ls.flatMap (·.declared)
      used := ls.flatMap (·.used) } := by
    induction ls with
    | nil => rfl
    | cons l ls ih => rw [join_cons, ih]; rfl
  rw [parts, parts]
  exact ⟨perm.flatMap_right _, perm.flatMap_right _, perm.flatMap_right _, perm.flatMap_right _⟩

end Log

/-- Two states of one setting with the same findings, facts and names, in any order. -/
structure CheckState.Shuffled (s t : CheckState) : Prop where
  setting : s.setting = t.setting
  findings : s.collector.store.toList.Perm t.collector.store.toList
  facts : s.collector.facts = t.collector.facts
  declared : s.declared.Perm t.declared
  used : s.used = t.used

theorem CheckState.Shuffled.after {s t : CheckState} (h : s.Shuffled t) {l m : Log}
    (logs : l.Shuffled m) (scope : SortedMap String Variable) :
    (s.after scope l).Shuffled (t.after scope m) where
  setting := by rw [s.setting_after, t.setting_after, h.setting]
  findings := by
    rw [s.toList_after, t.toList_after]
    exact h.findings.append (logs.findings.map _)
  facts := by
    change s.collector.facts.recordAll l.facts = t.collector.facts.recordAll m.facts
    rw [h.facts, Facts.recordAll_perm logs.facts]
  declared := h.declared.append logs.declared
  used := by
    change l.used.foldl SortedSet.add s.used = m.used.foldl SortedSet.add t.used
    rw [h.used]
    exact logs.used.foldl_eq' (fun i _ j _ s => s.add_right_comm i j) _

/-! ## Chains that keep the scope -/

/-- Whether all declarations that the second round visits below a node are in chains that methods
and loops keep to themselves. -/
def Node.Confined (board : Board) (n : Node) : Prop :=
  ∀ m, n.Leads board .chains m → m.kind = .varDeclaration → ∃ k ∈ n.walk, k.Encloses m

namespace Node

variable {board : Board} {n : Node} (distinct : n.ids.Nodup) (confined : n.Confined board)
  (active : n.isActive = true)

include distinct confined active

/-- A declaration that is confined is below another node. -/
theorem Confined.kind_ne : n.kind ≠ .varDeclaration := by
  intro declaration
  obtain ⟨k, mem, body, own, inside⟩ := confined n (leads_iff.2 ⟨active, .inl rfl⟩) declaration
  exact id_notMem_ids_ownBody distinct mem own (id_mem_ids inside)

/-- What is confined below a node is confined below those of its children that are not its own
body. -/
theorem Confined.child (opens : n.phrase.Opens board .chains) {c : Node} (child : c ∈ n.children)
    (apart : ∀ body, n.ownBody? = some body → ∀ i ∈ c.ids, i ∉ body.ids) : c.Confined board := by
  intro m leads declaration
  have inside := leads.mem_walk
  obtain ⟨k, mem, body, own, here⟩ :=
    confined m (leads_iff.2 ⟨active, .inr ⟨opens, c, child, leads⟩⟩) declaration
  rcases mem_walk_iff.1 mem with rfl | ⟨d, hd, below⟩
  · exact absurd (id_mem_ids here) (apart body own _ (id_mem_ids inside))
  · have up := walk_subset below
      (walk_subset (mem_walk_of_mem_children (Phrase.mem_children_of_ownBody? own)) here)
    obtain rfl := eq_of_mem_ids distinct child hd (id_mem_ids inside) (id_mem_ids up)
    exact ⟨k, below, body, own, here⟩

end Node

/-- The name of a method. -/
def Node.methodName? (n : Node) : Option String :=
  match n.phrase with
  | .methodDef name _ => some name
  | _ => none

namespace Checker

variable {platform : Platform} {n : Node}

/-- A step of the second round that keeps the scope, and with it the setting. -/
def Keeps {α : Type} (x : Check α) : Prop :=
  ∀ s : CheckState, s.round = .chains → ∃ a l, x.run s = (a, s.after s.scope l)

namespace Keeps

variable {α β : Type} {x : Check α}

protected theorem pure (a : α) : Keeps (pure a) := fun s _ => ⟨a, {}, by rw [s.after_scope]; rfl⟩

protected theorem bind {f : α → Check β} (hx : Keeps x) (hf : ∀ a, Keeps (f a)) :
    Keeps (x >>= f) := by
  intro s chains
  obtain ⟨a, l, first⟩ := hx s chains
  obtain ⟨b, m, second⟩ := hf a (s.after s.scope l) chains
  refine ⟨b, l ++ m, ?_⟩
  rw [StateT.run_bind, first, ← s.after_after]
  exact second

protected theorem get_bind {f : CheckState → Check α}
    (each : ∀ s, s.round = .chains → Keeps (f s)) :
    Keeps (get >>= f) := fun s chains => each s chains s chains

protected theorem error (code : DiagnosticCode) (message : String) :
    Keeps (error n code message) := fun s _ =>
  ⟨(), { findings := [(n, { severity := .error, code, message })] }, by rw [s.after_finding]; rfl⟩

protected theorem lookup (name : String) : Keeps (lookup n name) := by
  refine .get_bind fun s _ => ?_
  split
  · next v _ =>
    have use : Keeps (modify fun s => { s with used := s.used.add v.binder }) :=
      fun s _ => ⟨(), { used := [v.binder] }, by rw [s.after_used]; rfl⟩
    exact .bind use fun _ => .pure _
  · exact .bind (.error _ _) fun _ => .pure _

/-- Whatever happens in a scope of its own, the scope is as before. -/
protected theorem withScope {Q : Log → Log → Prop} {x : Check Unit} (logs : Logs Q Unit x x) :
    Keeps (withScope x) := by
  intro s _
  obtain ⟨u, scope, l, _, -, runs⟩ := logs s.setting
  exact ⟨(), l, run_withScope (runs s rfl).1⟩

protected theorem outsideLoops {x : Check Unit} (h : Keeps x) : Keeps (outsideLoops x) := by
  intro s chains
  obtain ⟨u, l, run⟩ := h { s with loopDepth := 0 } chains
  exact ⟨(), l, run_outsideLoops run⟩

/-- Keeping the scope goes along with how checks are put together. -/
theorem congruence : Congruence fun _ x _ => Keeps x where
  pure := .pure
  bind := .bind
  get _ each := .get_bind fun s _ => each s
  loopBody {c d} h := by
    intro s chains
    obtain ⟨u, l, run⟩ := h { s with loopDepth := s.loopDepth + 1 } chains
    exact ⟨(), l, run_loopBody run⟩
  outsideLoops := .outsideLoops
  withScope {x y} h := by
    intro s chains
    obtain ⟨u, l, run⟩ := h s chains
    exact ⟨(), l, run_withScope run⟩

protected theorem map (f : α → β) (h : Keeps x) : Keeps (f <$> x) :=
  congruence.map (y := x) f h

protected theorem collect {Fine : Node × Diagnostic → Prop} {x : Collect α}
    (writes : Collector.Writes Fine x) : Keeps (collect x) := by
  intro s _
  obtain ⟨a, findings, facts, -, run⟩ := writes s.collector.config
  refine ⟨a, { findings, facts }, ?_⟩
  change ((x.run s.collector).1, { s with collector := (x.run s.collector).2 }) = _
  rw [run s.collector rfl]
  simp [CheckState.after]

theorem places (n : Node) : Congruence.Places (fun _ x _ => Keeps x) n n where
  kind := rfl
  error code message _ := .error code message

/-- The steps of a node that brings no variables into scope. -/
theorem nodes (loop : n.kind ≠ .forLoop) (declaration : n.kind ≠ .varDeclaration) :
    Congruence.Nodes (fun _ x _ => Keeps x) n n where
  toPlaces := places n
  lookup := .lookup
  bindName h := absurd h loop
  declare h := absurd h declaration

/-- The second round passes by what it does not open. -/
theorem handler_of_closed {p : Phrase Child} (closed : ¬ p.Opens platform.board .chains) :
    Keeps (handler platform n p) := by
  cases p with
  | mainTask debug declarations =>
    refine .get_bind fun s chains => ?_
    rw [chains]
    exact .pure _
  | extension spec slots =>
    rw [handler]
    split
    · next listed => exact absurd ⟨List.contains_iff_mem.1 listed, fun h => by cases h⟩ closed
    · exact .bind (.error _ _) fun _ => .pure _
  | _ => exact absurd ⟨trivial, fun h => by cases h⟩ closed

end Keeps

/-- A chain whose declarations are confined keeps the setting. -/
theorem keeps_check (modest : platform.Modest) (distinct : n.ids.Nodup)
    (confined : n.Confined platform.board) : Keeps (check platform n) := by
  induction n using Node.induction with
  | step n ih =>
    have child {c : Node} (hc : c ∈ n.children) (active : n.isActive = true)
        (opens : n.phrase.Opens platform.board .chains)
        (apart : ∀ body, n.ownBody? = some body → ∀ i ∈ c.ids, i ∉ body.ids) :
        Congruence.Children (fun _ x _ => Keeps x) (checked platform c) (checked platform c) :=
      ⟨rfl, fun _ => .error _ _, ih c hc (Node.nodup_ids_of_mem_children distinct hc)
        (Node.Confined.child distinct confined active opens hc apart)⟩
    rw [check_eq]
    split
    swap
    · exact .pure none
    next active =>
    refine .map some ?_
    by_cases opens : n.phrase.Opens platform.board .chains
    swap
    · exact .handler_of_closed fun h => opens ((Phrase.opens_map_iff _ _ _ _).1 h)
    cases own : n.ownBody? with
    | some body =>
      refine Keeps.congruence.handler_withBody (Keeps.places n) own body (fun c operand => ?_)
        (.withScope (logs_body modest body)) fun var => .withScope (logs_loop modest body n var)
      refine child (n.phrase.operands_subset_children operand) active opens fun b hb i hi => ?_
      exact Node.notMem_ids_ownBody_of_operand distinct hb operand hi
    | none =>
      have loop : n.kind ≠ .forLoop := by
        intro kind
        rw [Node.ownBody?] at own
        cases phrase : n.phrase <;> rw [Node.kind, phrase] at kind <;> cases kind
        rw [phrase] at own
        cases own
      let r := n.phrase.map fun c => (checked platform c, checked platform c)
      have handled : Keeps (handler platform n (r.map Prod.fst)) := by
        refine Keeps.congruence.handler (r := r)
          (Keeps.nodes loop (Node.Confined.kind_ne distinct confined active)) ?_ ?_ ?_
        · rw [Phrase.kind_map]
          rfl
        · rw [Phrase.children_map, List.forall_mem_map]
          exact fun c hc => child hc active opens fun b hb => by rw [own] at hb; cases hb
        · rw [Phrase.map_map]
          exact .collect (modest.writes n _)
      rwa [Phrase.map_map] at handled

/-! ## Methods in any order -/

/-- What is written of a method that is defined. -/
def defining (n : Node) : Log :=
  match n.phrase with
  | .methodDef name _ => {
    findings := if isIdentifier name then [] else
      [(n, {
        severity := .error
        code := .invalidName
        message := "'" ++ name ++ "' is not a valid " ++ "method" ++ " name" })]
    facts := [(Feature.methodNames, name)] }
  | _ => {}

theorem run_define {name : String} {chain : Node} (method : n.phrase = .methodDef name chain)
    {s : CheckState} (fresh : s.methods.contains name = false) :
    ((define n name).run s).2 =
      { s.after s.scope (defining n) with methods := s.methods.add name } := by
  have named : ((checkName n name "method").run s).2 =
      s.after s.scope { (defining n) with facts := [] } := by
    unfold checkName defining
    rw [method]
    dsimp only
    split
    · exact s.after_scope.symm
    · exact (s.after_finding _ _).symm
  have new : ((checkName n name "method").run s).2.methods.contains name = false := by
    rw [named]
    exact fresh
  change ((if ((checkName n name "method").run s).2.methods.contains name = true then _ else _ :
    Check Unit).run ((checkName n name "method").run s).2).2 = _
  rw [if_neg (by rw [new]; decide), named]
  unfold defining
  rw [method]
  rfl

/-- Methods of different names are all defined. -/
theorem run_forM_defineIfMethod {l : List Node} (distinct : (l.filterMap Node.methodName?).Nodup)
    {s : CheckState}
    (fresh : ∀ name ∈ l.filterMap Node.methodName?, s.methods.contains name = false) :
    ((l.forM defineIfMethod).run s).2 = { s.after s.scope (.join (l.map defining)) with
      methods := (l.filterMap Node.methodName?).foldl SortedSet.add s.methods } := by
  induction l generalizing s with
  | nil => exact s.after_scope.symm
  | cons n l ih =>
    change ((l.forM defineIfMethod).run ((defineIfMethod n).run s).2).2 = _
    cases phrase : n.phrase with
    | methodDef name chain =>
      have named : n.methodName? = some name := by rw [Node.methodName?, phrase]
      rw [List.filterMap_cons_some named] at distinct fresh ⊢
      rw [List.nodup_cons] at distinct
      rw [List.forall_mem_cons] at fresh
      have step : ((defineIfMethod n).run s).2 =
          { s.after s.scope (defining n) with methods := s.methods.add name } := by
        unfold defineIfMethod
        rw [phrase]
        exact run_define phrase fresh.1
      have rest : ∀ other ∈ l.filterMap Node.methodName?,
          (s.methods.add name).contains other = false := by
        intro other mem
        have differ : other ≠ name := fun same => distinct.1 (same ▸ mem)
        rw [SortedMap.contains, SortedSet.add, SortedMap.get?_insert, if_neg differ]
        exact fresh.2 other mem
      rw [step, List.map_cons, Log.join_cons, ← s.after_after s.scope s.scope]
      exact ih distinct.2 rest
    | _ =>
      have unnamed : n.methodName? = none := by rw [Node.methodName?, phrase]
      have idle : defineIfMethod n = pure () := by unfold defineIfMethod; rw [phrase]
      have silent : defining n = {} := by unfold defining; rw [phrase]
      rw [List.filterMap_cons_none unnamed] at distinct fresh ⊢
      rw [idle, List.map_cons, silent]
      exact ih distinct fresh

/-- Methods of different names are defined in any order. -/
theorem shuffled_defineIfMethod {l m : List Node} (perm : l.Perm m)
    (distinct : (m.filterMap Node.methodName?).Nodup) (s : CheckState) (none : s.methods = .empty) :
    ((l.forM defineIfMethod).run s).2.Shuffled ((m.forM defineIfMethod).run s).2 := by
  have names := perm.filterMap Node.methodName?
  have methods : (l.filterMap Node.methodName?).foldl SortedSet.add s.methods =
      (m.filterMap Node.methodName?).foldl SortedSet.add s.methods :=
    names.foldl_eq' (fun a _ b _ s => s.add_right_comm a b) _
  have logs := Log.shuffled_join (perm.map defining)
  have same : (s.after s.scope (.join (l.map defining))).Shuffled
      (s.after s.scope (.join (m.map defining))) :=
    .after ⟨rfl, .refl _, rfl, .refl _, rfl⟩ logs _
  rw [run_forM_defineIfMethod (names.nodup_iff.2 distinct) fun _ _ => by rw [none]; rfl,
    run_forM_defineIfMethod distinct fun _ _ => by rw [none]; rfl, methods]
  exact ⟨rfl, same.findings, same.facts, same.declared, same.used⟩

/-! ## Chains in any order -/

/-- The setting decides what the check of a chain that keeps it writes. -/
theorem exists_log (modest : platform.Modest) (keeps : Keeps (check platform n)) {s : CheckState}
    (chains : s.round = .chains) : ∃ log : Log, ∀ t : CheckState, t.setting = s.setting →
      ((discard (check platform n)).run t).2 = t.after t.scope log := by
  obtain ⟨a, l, kept⟩ := keeps s chains
  obtain ⟨b, scope, log, _, -, runs⟩ := logs_check modest (n := n) (fun _ mem => mem) s.setting
  have same : s.scope = scope := by
    have before := kept.symm.trans (runs s rfl).1
    exact congrArg (fun r => r.2.scope) before
  refine ⟨log, fun t setting => ?_⟩
  change ((check platform n).run t).2 = _
  rw [(runs t setting).1, scope_eq setting, same]

/-- Chains that keep the setting are checked in any order. -/
theorem shuffled_chains {l m : List Node} (modest : platform.Modest) (perm : l.Perm m)
    (keeps : ∀ n ∈ m, Keeps (check platform n)) {s t : CheckState} (chains : s.round = .chains)
    (shuffled : s.Shuffled t) :
    ((l.forM fun n => discard (check platform n)).run s).2.Shuffled
      ((m.forM fun n => discard (check platform n)).run t).2 := by
  have each : ∀ n, ∃ log, n ∈ m → ∀ u : CheckState, u.setting = s.setting →
      ((discard (check platform n)).run u).2 = u.after u.scope log := by
    intro n
    by_cases mem : n ∈ m
    · obtain ⟨log, run⟩ := exists_log modest (keeps n mem) chains
      exact ⟨log, fun _ => run⟩
    · exact ⟨{}, fun h => absurd h mem⟩
  obtain ⟨log, each⟩ := Classical.skolem.1 each
  have runs (k : List Node) (sub : k ⊆ m) (u : CheckState) (same : u.setting = s.setting) :
      ((k.forM fun n => discard (check platform n)).run u).2 =
        u.after u.scope (.join (k.map log)) := by
    induction k generalizing u with
    | nil => exact u.after_scope.symm
    | cons n k ih =>
      rw [List.cons_subset] at sub
      change ((k.forM fun n => discard (check platform n)).run
        ((discard (check platform n)).run u).2).2 = _
      rw [each n sub.1 u same, List.map_cons, Log.join_cons, ← u.after_after u.scope u.scope]
      exact ih sub.2 _ same
  rw [runs l perm.subset s rfl, runs m (List.Subset.refl m) t shuffled.setting.symm,
    scope_eq shuffled.setting]
  exact shuffled.after (Log.shuffled_join (perm.map log)) _

/-! ## Runs -/

/-- A step that the setting decides keeps two states alike. -/
theorem shuffled_of_logs {Fine : Node × Diagnostic → Prop} {α : Type} {x : Check α}
    (logs : Logs (Log.Same Fine) α x x) : Parallel CheckState.Shuffled x x := by
  intro s t h
  obtain ⟨a, scope, l, _, -, runs⟩ := logs s.setting
  rw [(runs s rfl).1, (runs t h.setting.symm).1]
  exact ⟨rfl, h.after ⟨.refl _, .refl _, .refl _, .refl _⟩ scope⟩

/-- A single start block is checked in one way, wherever its chain is. -/
theorem shuffled_checkIfStart (modest : platform.Modest) {l m : List Node} (perm : l.Perm m)
    (single : (m.filter (·.kind = .mainTask)).length ≤ 1) :
    Parallel CheckState.Shuffled (l.forM (checkIfStart platform))
      (m.forM (checkIfStart platform)) := by
  have starts := perm.filter (·.kind = .mainTask)
  rw [forM_checkIfStart, forM_checkIfStart]
  match found : m.filter (·.kind = .mainTask) with
  | [] =>
    rw [found, List.perm_nil] at starts
    rw [starts, found]
    exact .pure _
  | [n] =>
    rw [found, List.perm_singleton] at starts
    rw [starts, found]
    exact .bind (shuffled_of_logs ((congruence_logs (additive_same _)).discard
      (logs_check modest fun _ mem => mem))) fun _ => .pure _
  | _ :: _ :: _ =>
    rw [found] at single
    exact absurd single (by simp)

end Checker

/-! ## Programs -/

/-- What is asked of a program so that its chains may be anywhere. -/
structure Program.Movable (board : Board) (p : Program) : Prop where
  /-- There is one start block on the canvas at most. -/
  start : ((Checker.topLevel p).filter (·.kind = .mainTask)).length ≤ 1
  methods : ((Checker.topLevel p).filterMap Node.methodName?).Nodup
  /-- What the second round visits does not declare variables for other chains. -/
  confined : ∀ i ∈ p.instances, ∀ n, i.body.Leads board .chains n → n.kind = .varDeclaration →
    ∃ m ∈ p.walk, m.Encloses n

/-- In a movable program every chain is confined. -/
theorem Program.Movable.confined_body {board : Board} {p : Program} (movable : p.Movable board)
    (distinct : p.ids.Nodup) {i : Instance} (mem : i ∈ p.instances) : i.body.Confined board := by
  intro n leads declaration
  obtain ⟨m, hm, body, own, inside⟩ := movable.confined i mem n leads declaration
  obtain ⟨j, hj, below⟩ := List.mem_flatMap.1 hm
  have child := Node.mem_walk_of_mem_children (Phrase.mem_children_of_ownBody? own)
  have there := Node.walk_subset below (Node.walk_subset child inside)
  rw [ids_eq] at distinct
  obtain rfl := eq_of_nodup_flatMap distinct mem hj (Node.id_mem_ids leads.mem_walk)
    (Node.id_mem_ids there)
  exact ⟨m, below, body, own, inside⟩

/-- Chains in another order on the canvas lead to the same findings in another order, and to the
same facts. -/
theorem Program.perm_validate_of_perm {registry : KindRegistry} {d : Document} {p : Program}
    {s s' : Supply} (read : (ofDocument registry d).run s = (.ok p, s')) {platform : Platform}
    (known : platform.Known) (movable : p.Movable platform.board) {instances : List Instance}
    (perm : instances.Perm p.instances) (config : HardwareConfig) :
    (platform.validate { p with instances } config).facts = (platform.validate p config).facts ∧
      (platform.validate { p with instances } config).diagnostics.toList.Perm
        (platform.validate p config).diagnostics.toList := by
  have distinct := (ids_of_ofDocument read).2.1
  have shuffled : (Checker.explored platform { p with instances } config).Shuffled
      (Checker.explored platform p config) := by
    have canvas : (Checker.topLevel { p with instances }).Perm (Checker.topLevel p) :=
      (perm.flatMap_right _).filter _
    have bodies (is : List Instance) : (is.forM fun i => discard (Checker.check platform i.body)) =
        (is.map (·.body)).forM fun n => discard (Checker.check platform n) := by
      rw [List.forM_eq_forM, List.forM_eq_forM, List.forM_map]
    have defined := Checker.shuffled_defineIfMethod canvas movable.methods
      { collector := { config } } rfl
    have started := (Checker.shuffled_checkIfStart known.modest canvas movable.start _ _ defined).2
    unfold Checker.explored Checker.explore
    rw [bodies, bodies]
    refine Checker.shuffled_chains known.modest (perm.map _) ?_ rfl
      ⟨?_, started.findings, started.facts, started.declared, started.used⟩
    · rw [List.forall_mem_map]
      intro i hi
      refine Checker.keeps_check known.modest ?_ (movable.confined_body distinct hi)
      rw [ids_eq] at distinct
      exact (List.nodup_flatMap.1 distinct).1 i hi
    · exact congrArg (fun σ => { σ with round := .chains }) started.setting
  rw [Platform.facts_validate, Platform.facts_validate, Platform.diagnostics_validate,
    Platform.diagnostics_validate]
  refine ⟨shuffled.facts, shuffled.findings.append (.map _ ?_)⟩
  unfold Checker.unused
  rw [shuffled.used]
  exact shuffled.declared.filter _

def declaringNothing (id name : String) : Block := .mk {
  id := id, type := "robGlobalVariables_declare"
  fields := [⟨"VAR", name⟩, ⟨"TYPE", "Number"⟩] }

/-- A method and a start block in chains of their own, each with a variable that has no value. -/
def scattered : Document where
  formatVersion := "3.1"
  instances := [
    { blocks := [.mk {
      id := "a", type := "robProcedures_defnoreturn", fields := [⟨"NAME", "m"⟩]
      statements := [⟨"STACK", [declaringNothing "b" "x"]⟩] }] },
    { blocks := [.mk {
      id := "c", type := "robControls_start", fields := [⟨"DEBUG", "FALSE"⟩]
      statements := [⟨"ST", [declaringNothing "d" "y"]⟩] }] }]

/-- A chain of one declaration. -/
def declaringChain (next : Nat) (id name : String) : Node :=
  .mk { id := ⟨next + 2⟩, sealed := true } (.stmtList [
    .mk { id := ⟨next + 1⟩, sealed := true, blockId := id } (.varDeclaration name .number
      (.mk { id := ⟨next⟩, sealed := true } .emptyExpr))])

def scatteredMethod : Node :=
  .mk { id := ⟨4⟩, sealed := true, blockId := "a" } (.methodDef "m" (declaringChain 1 "b" "x"))

def scatteredStart : Node :=
  .mk { id := ⟨9⟩, sealed := true, blockId := "c" } (.mainTask false (declaringChain 6 "d" "y"))

/-- What is read from the document. -/
def scatteredProgram : Program where
  formatVersion := "3.1"
  instances := [
    ⟨0, 0, .mk { id := ⟨5⟩, sealed := true } (.stmtList [scatteredMethod])⟩,
    ⟨0, 0, .mk { id := ⟨10⟩, sealed := true } (.stmtList [scatteredStart])⟩]

theorem ofDocument_scattered :
    (Program.ofDocument .core scattered).run {} = (.ok scatteredProgram, { next := 11 }) := by
  cbv

theorem movable_scattered (board : Board) : scatteredProgram.Movable board where
  start := by decide
  methods := by decide
  confined := by
    intro i hi n leads declaration
    have kind {m : Node} (other : m.kind ≠ .varDeclaration) : n ≠ m := fun same =>
      other (same ▸ declaration)
    simp only [scatteredProgram, List.mem_cons, List.not_mem_nil, or_false] at hi
    obtain ⟨-, same | ⟨-, c, hc, leads⟩⟩ := Node.leads_iff.1 leads
    · rcases hi with rfl | rfl <;> exact absurd same (kind (by decide))
    rcases hi with rfl | rfl
    · obtain rfl := List.mem_singleton.1 hc
      obtain ⟨-, same | ⟨-, c, hc, leads⟩⟩ := Node.leads_iff.1 leads
      · exact absurd same (kind (by decide))
      · obtain rfl := List.mem_singleton.1 hc
        exact ⟨scatteredMethod, List.mem_cons_of_mem _ List.mem_cons_self, _, rfl, leads.mem_walk⟩
    · obtain rfl := List.mem_singleton.1 hc
      obtain ⟨-, same | ⟨opens, -⟩⟩ := Node.leads_iff.1 leads
      · exact absurd same (kind (by decide))
      · exact absurd (opens.2 rfl) (by decide)

/-- The start block and the method change places. -/
theorem Program.perm_validate_scattered :
    (ofDocument .core scattered).run {} = (.ok scatteredProgram, { next := 11 }) ∧
      let swapped := { scatteredProgram with instances := scatteredProgram.instances.reverse }
      (Boards.ev3.validate swapped { robot := "ev3" }).facts =
          (Boards.ev3.validate scatteredProgram { robot := "ev3" }).facts ∧
        (Boards.ev3.validate swapped { robot := "ev3" }).diagnostics.toList.Perm
          (Boards.ev3.validate scatteredProgram { robot := "ev3" }).diagnostics.toList :=
  ⟨ofDocument_scattered, perm_validate_of_perm ofDocument_scattered (.inl ⟨"ev3", rfl⟩)
    (movable_scattered _) (List.reverse_perm _) { robot := "ev3" }⟩

end BlockGraph

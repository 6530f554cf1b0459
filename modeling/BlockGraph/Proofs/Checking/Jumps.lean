import BlockGraph.Proofs.Checking.Logs
import BlockGraph.Proofs.Checking.Loops
import BlockGraph.Proofs.Checking.Modest
import BlockGraph.Proofs.Checking.Rounds

/-!
# Findings about jumps

A run counts the loops around the node that it checks. Every check gives back the count with which
it began, and so the jumps that are reported are those that the tree has outside of loops.

* `Checker.Restores`, `Checker.restores_check`: every check gives back the number of loops.
* `Checker.Judges`, `Checker.judges_check`: a check reports the jumps outside of loops, and
  otherwise only what the checks of the platform report.
* `Program.jumps_validate`: a jump is reported once if it is in no loop.
-/

namespace BlockGraph

/-! ## The number of loops -/

namespace Checker

/-- A step that gives back the number of loops with which it began. -/
def Restores {α : Type} (x : Check α) : Prop := ∀ s, (x.run s).2.loopDepth = s.loopDepth

namespace Restores

variable {α β : Type} {x : Check α}

protected theorem pure (a : α) : Restores (pure a) := fun _ => rfl

protected theorem collect (x : Collect α) : Restores (collect x) := fun _ => rfl

protected theorem modify {f : CheckState → CheckState}
    (same : ∀ s, (f s).loopDepth = s.loopDepth) : Restores (modify f) := same

protected theorem bind {f : α → Check β} (first : Restores x) (second : ∀ a, Restores (f a)) :
    Restores (x >>= f) := by
  intro s
  have rest := second (x.run s).1 (x.run s).2
  rw [first] at rest
  exact rest

protected theorem get_bind {f : CheckState → Check β} (each : ∀ s, Restores (f s)) :
    Restores (get >>= f) := fun s => each s s

end Restores

/-- In the body of a loop one more loop is counted, up to the moment when it is taken back. -/
theorem run_counted {x : Check Unit} (h : Restores x) (s : CheckState) :
    ((do modify fun s => { s with loopDepth := s.loopDepth + 1 }; x : Check Unit).run s).2.loopDepth
      = s.loopDepth + 1 := h { s with loopDepth := s.loopDepth + 1 }

theorem congruence_restores : Congruence fun α (x _ : Check α) => Restores x where
  pure _ := .pure _
  bind := .bind
  get _ each := .get_bind each
  loopBody {c _} inner s := by
    change ((body c).run { s with loopDepth := s.loopDepth + 1 }).2.loopDepth - 1 = s.loopDepth
    rw [inner, Nat.add_sub_cancel]
  outsideLoops _ _ := rfl
  withScope inner s := inner s

theorem nodes_restores (n : Node) :
    Congruence.Nodes (fun α (x _ : Check α) => Restores x) n n where
  kind := rfl
  error _ _ _ := .collect _
  lookup name := by
    refine .get_bind fun s => ?_
    split
    · exact .bind (.modify fun _ => rfl) fun _ => .pure _
    · exact .bind (.collect _) fun _ => .pure _
  bindName _ _ _ := .modify fun _ => rfl
  declare _ name type := by
    refine .get_bind fun s => ?_
    split
    · exact .collect _
    · exact .bind (.modify fun _ => rfl) fun _ => .bind (.modify fun _ => rfl) fun _ => .collect _

/-- Every check of a node gives back the number of loops with which it began. -/
theorem restores_check (platform : Platform) (n : Node) : Restores (check platform n) := by
  induction n using Node.induction with
  | step n ih =>
    refine congruence_restores.check (nodes_restores n) (r := n.phrase.map fun c => (c, c))
      (n.phrase.map_map_cancel fun c => rfl) (n.phrase.map_map_cancel fun c => rfl) rfl ?_
      (.collect _)
    rw [Phrase.children_map, List.forall_mem_map]
    intro c hc
    exact ⟨rfl, fun _ => .collect _, ih c hc⟩

end Checker

/-! ## Findings -/

/-- What is reported of a jump outside of loops. -/
def Diagnostic.stray (e : Node × Flow) : Diagnostic where
  severity := .error
  code := .flowOutsideLoop
  message := Spelled.spell e.2 ++ " is only allowed inside a loop"
  location := some e.1.location

/-- The findings about jumps outside of loops. -/
def Diagnostic.strays (found : List Diagnostic) : List Diagnostic :=
  found.filter (·.code = .flowOutsideLoop)

/-- Jumps that were reported one after the other, among other findings about jumps. -/
theorem Diagnostic.strays_append {found found' own own' : List Diagnostic}
    {l l' : List (Node × Flow)} (h : (strays found).Perm (l.map stray ++ own))
    (h' : (strays found').Perm (l'.map stray ++ own')) :
    (strays (found ++ found')).Perm ((l ++ l').map stray ++ (own ++ own')) := by
  rw [strays, List.filter_append, List.map_append, List.append_assoc]
  refine (h.append h').trans ?_
  rw [List.append_assoc]
  exact (List.perm_append_comm_assoc _ _ _).append_left _

namespace Checker

/-! ## Steps -/

variable {Own : Diagnostic → Prop} {round : Round}

/-- In the given round, a step reports certain jumps, given whether it starts outside of loops.
Otherwise it reports of jumps only what a platform adds. -/
def Judges (Own : Diagnostic → Prop) (round : Round) {α : Type} (x : Check α)
    (strays : Bool → List (Node × Flow)) : Prop :=
  ∀ s : CheckState, s.round = round →
    (x.run s).2.round = round ∧ (x.run s).2.loopDepth = s.loopDepth ∧
      ∃ found own, (x.run s).2.collector.store.toList = s.collector.store.toList ++ found ∧
        (Diagnostic.strays found).Perm ((strays (s.loopDepth = 0)).map .stray ++ own) ∧
          ∀ d ∈ own, Own d

namespace Judges

variable {α β ι : Type} {x : Check α} {strays strays' : Bool → List (Node × Flow)}

/-- A step that changes nothing of what matters to jumps. -/
theorem idle (same : ∀ s, (x.run s).2.round = s.round ∧ (x.run s).2.loopDepth = s.loopDepth ∧
    (x.run s).2.collector = s.collector) : Judges Own round x fun _ => [] := by
  intro s here
  obtain ⟨rounds, depth, collector⟩ := same s
  refine ⟨rounds.trans here, depth, [], [], ?_, .refl _, by simp⟩
  rw [collector, List.append_nil]

protected theorem pure (a : α) : Judges Own round (pure a) fun _ => [] :=
  idle fun _ => ⟨rfl, rfl, rfl⟩

protected theorem modify {f : CheckState → CheckState}
    (same : ∀ s, (f s).round = s.round ∧ (f s).loopDepth = s.loopDepth ∧
      (f s).collector = s.collector) : Judges Own round (modify f) fun _ => [] := idle same

protected theorem bind {f : α → Check β} (first : Judges Own round x strays)
    (second : ∀ a, Judges Own round (f a) strays') :
    Judges Own round (x >>= f) fun free => strays free ++ strays' free := by
  intro s here
  obtain ⟨rounds, depth, found, own, list, judged, added⟩ := first s here
  obtain ⟨rounds', depth', found', own', list', judged', added'⟩ := second _ _ rounds
  rw [depth] at depth' judged'
  refine ⟨rounds', depth', found ++ found', own ++ own', ?_,
    Diagnostic.strays_append judged judged', List.forall_mem_append.2 ⟨added, added'⟩⟩
  rw [← List.append_assoc, ← list]
  exact list'

/-- A step after one that has nothing to do with jumps. -/
protected theorem after {f : α → Check β} (quiet : Judges Own round x fun _ => [])
    (h : ∀ a, Judges Own round (f a) strays) : Judges Own round (x >>= f) strays := quiet.bind h

/-- A step before one that has nothing to do with jumps. -/
protected theorem andThen {f : α → Check β} (h : Judges Own round x strays)
    (quiet : ∀ a, Judges Own round (f a) fun _ => []) : Judges Own round (x >>= f) strays := by
  have both := h.bind quiet
  simpa only [List.append_nil] using both

protected theorem get_bind {f : CheckState → Check α}
    (each : ∀ s, s.round = round → Judges Own round (f s) strays) :
    Judges Own round (get >>= f) strays := fun s here => each s here s here

protected theorem map (f : α → β) (h : Judges Own round x strays) :
    Judges Own round (f <$> x) strays := h

protected theorem discard (h : Judges Own round x strays) :
    Judges Own round (discard x) strays := h

protected theorem forM {l : List ι} {f : ι → Check PUnit} {each : ι → Bool → List (Node × Flow)}
    (h : ∀ i ∈ l, Judges Own round (f i) (each i)) :
    Judges Own round (l.forM f) fun free => l.flatMap (each · free) := by
  induction l with
  | nil => exact .pure _
  | cons i l ih =>
    rw [List.forall_mem_cons] at h
    exact .bind h.1 fun _ => ih h.2

/-- A step of the collector that leaves the jumps to the platform. -/
protected theorem collect {y : Collect α} (adds : ∀ c, ∃ found,
    (y.run c).2.store.toList = c.store.toList ++ found ∧
      ∀ d ∈ found, d.code = .flowOutsideLoop → Own d) :
    Judges Own round (collect y) fun _ => [] := by
  intro s here
  obtain ⟨found, list, own⟩ := adds s.collector
  refine ⟨here, rfl, found, Diagnostic.strays found, list, .refl _, fun d hd => ?_⟩
  obtain ⟨mem, code⟩ := List.mem_filter.1 hd
  exact own d mem (of_decide_eq_true code)

protected theorem error {n : Node} {code : DiagnosticCode} (other : code ≠ .flowOutsideLoop)
    (message : String) : Judges Own round (error n code message) fun _ => [] := by
  refine .collect fun c => ⟨_, DiagnosticStore.toList_push _ _ _, fun d hd same => ?_⟩
  obtain rfl := List.mem_singleton.1 hd
  exact absurd same other

protected theorem record (feature fact : String) :
    Judges Own round (Checker.collect (Collector.record feature fact)) fun _ => [] :=
  .collect fun c => ⟨[], (List.append_nil _).symm, by simp⟩

/-! ### Parts of checks -/

variable {n : Node}

protected theorem checkName (name what : String) :
    Judges Own round (checkName n name what) fun _ => [] := by
  unfold checkName
  split
  · exact .pure _
  · exact .error (by decide) _

protected theorem lookup (name : String) : Judges Own round (lookup n name) fun _ => [] := by
  refine .get_bind fun s _ => ?_
  split
  · exact .after (.modify fun _ => ⟨rfl, rfl, rfl⟩) fun _ => .pure _
  · exact .after (.error (by decide) _) fun _ => .pure _

protected theorem declare (name : String) (type : ExprType) :
    Judges Own round (declare n name type) fun _ => [] := by
  refine .get_bind fun s _ => ?_
  split
  · exact .error (by decide) _
  · exact .after (.modify fun _ => ⟨rfl, rfl, rfl⟩) fun _ =>
      .after (.modify fun _ => ⟨rfl, rfl, rfl⟩) fun _ => .record _ _

protected theorem withScope {y : Check Unit} (h : Judges Own round y strays) :
    Judges Own round (withScope y) strays :=
  .get_bind fun _ _ => .andThen h fun _ => .modify fun _ => ⟨rfl, rfl, rfl⟩

/-- Nothing in the body of a loop is outside of loops. -/
protected theorem loopBody {c : Child} (h : Judges Own round (body c) strays) :
    Judges Own round (loopBody c) fun _ => strays false := by
  intro s here
  obtain ⟨rounds, depth, found, own, list, judged, added⟩ :=
    h { s with loopDepth := s.loopDepth + 1 } here
  refine ⟨rounds, ?_, found, own, list, ?_, added⟩
  · change ((body c).run { s with loopDepth := s.loopDepth + 1 }).2.loopDepth - 1 = s.loopDepth
    rw [depth, Nat.add_sub_cancel]
  · simpa using judged

/-- The body of a method starts outside of loops. -/
protected theorem outsideLoops {y : Check Unit} (h : Judges Own round y strays) :
    Judges Own round (outsideLoops y) fun _ => strays true := by
  intro s here
  obtain ⟨rounds, -, found, own, list, judged, added⟩ := h { s with loopDepth := 0 } here
  exact ⟨rounds, rfl, found, own, list, by simpa using judged, added⟩

variable {board : Board} {c : Child}

protected theorem expect (child : Judges Own round c.result (c.node.strays board round))
    (want : ExprType) (what : String) :
    Judges Own round (expect n c want what) (c.node.strays board round) := by
  unfold Checker.expect
  split
  · next empty =>
    rw [funext (Node.strays_of_isEmptyExpr empty)]
    exact .after (.error (by decide) _) fun _ => .pure _
  · refine .andThen child fun got => ?_
    dsimp only
    split
    · exact .pure _
    · exact .after (.error (by decide) _) fun _ => .pure _

/-- The value of a child is checked for its type and then forgotten. -/
protected theorem operand (child : Judges Own round c.result (c.node.strays board round))
    (want : ExprType) (what : String) :
    Judges Own round (Functor.discard (Checker.expect n c want what)) (c.node.strays board round) :=
  .discard (.expect child want what)

end Judges

/-! ## Checks of nodes -/

section Handler

variable {n : Node} {platform : Platform}

attribute [local simp] Phrase.children Phrase.slots SlotValue.nodes Phrase.ways Phrase.before
  Phrase.after Phrase.jump? Way.free

/-- A jump is reported if it is outside of loops. -/
theorem judges_flowControl (flow : Flow) :
    Judges Own round (handler platform n (.flowControl flow))
      fun free => if free then [(n, flow)] else [] := by
  intro s here
  have run : ((handler platform n (.flowControl flow)).run s).2 =
      if s.loopDepth = 0 then
        let store := s.collector.store.push n (.stray (n, flow))
        { s with collector := { s.collector with store } }
      else s := by
    change ((if s.loopDepth = 0 then _ else _ : Check ExprType).run s).2 = _
    split <;> rfl
  rw [run]
  by_cases outside : s.loopDepth = 0
  · rw [if_pos outside]
    refine ⟨here, rfl, _, [], DiagnosticStore.toList_push _ _ _, ?_, by simp⟩
    simp [outside, Diagnostic.strays, Diagnostic.stray]
  · rw [if_neg outside]
    exact ⟨here, rfl, [], [], (List.append_nil _).symm, by simp [outside, Diagnostic.strays],
      by simp⟩

/-- The check of a node reports the jumps that are outside of loops if those of its children do. -/
theorem judges_handler (adds : platform.Adds Own) {p : Phrase Child}
    (shape : n.phrase = p.map (·.node))
    (each : ∀ c ∈ p.children,
      Judges Own round c.result (c.node.strays platform.board round)) :
    Judges Own round (handler platform n p) fun free =>
      (p.jump?.toList.filter fun _ => free).map (n, ·) ++
        (p.ways platform.board round).flatMap fun e =>
          e.2.node.strays platform.board round (e.1.free free) := by
  have asked : Judges Own round (collect (platform.ask n (p.map (·.node)))) fun _ => [] := by
    refine .collect fun c => ?_
    obtain ⟨found, list, own⟩ := adds n (p.map (·.node)) c
    exact ⟨found, list, fun d hd _ => own d hd⟩
  cases p with
  | stmtList statements =>
    simp [List.flatMap_map] at each ⊢
    exact .andThen (.forM fun c hc => .discard (each c hc)) fun _ => .pure _
  | mainTask debug declarations =>
    simp at each ⊢
    refine .get_bind fun s here => ?_
    rw [here]
    split
    · simp
      exact .andThen (.discard each) fun _ => .pure _
    · exact .pure _
  | varDeclaration var type value =>
    simp at each ⊢
    exact .after (.checkName _ _) fun _ => .andThen (.operand each _ _) fun _ =>
      .after (.declare _ _) fun _ => .pure _
  | ifElse conditions branches otherwise =>
    simp [List.flatMap_assoc, List.flatMap_map] at each ⊢
    refine .bind (.forM fun e he => ?_) fun _ => .andThen ?_ fun _ => .pure _
    · obtain ⟨condition, branch⟩ := List.of_mem_zip he
      exact .bind (.operand (each _ (.inl condition)) _ _) fun _ =>
        .discard (each _ (.inr (.inl branch)))
    · cases otherwise with
      | none => exact .pure _
      | some chain =>
        simp
        exact .discard (each chain (.inr (.inr rfl)))
  | repeatTimes times chain | whileUntil _ times chain =>
    simp at each ⊢
    exact .bind (.operand each.1 _ _) fun _ =>
      .andThen (.loopBody (.discard each.2)) fun _ => .pure _
  | forLoop var start stop step chain =>
    simp at each ⊢
    obtain ⟨eachStart, eachStop, eachStep, eachChain⟩ := each
    exact .after (.checkName _ _) fun _ => .bind (.operand eachStart _ _) fun _ =>
      .bind (.operand eachStop _ _) fun _ => .bind (.operand eachStep _ _) fun _ =>
      .andThen (.withScope (.after (.modify fun _ => ⟨rfl, rfl, rfl⟩) fun _ =>
        .loopBody (.discard eachChain))) fun _ => .pure _
  | flowControl flow =>
    have jump (free : Bool) : (([flow].filter fun _ => free).map (n, ·)) =
        if free then [(n, flow)] else [] := by cases free <;> rfl
    simp [jump]
    exact judges_flowControl flow
  | assign var value =>
    simp at each ⊢
    exact .after (.lookup _) fun _ => .andThen (.operand each _ _) fun _ => .pure _
  | waitTime value | negate value =>
    simp at each ⊢
    exact .andThen (.operand each _ _) fun _ => .pure _
  | methodDef var chain =>
    simp at each ⊢
    exact .andThen (.outsideLoops (.withScope (.discard each))) fun _ => .pure _
  | methodCall var =>
    simp
    refine .get_bind fun s _ => ?_
    split
    · exact .after (.error (by decide) _) fun _ => .pure _
    · exact .pure _
  | numConst text =>
    simp
    rw [handler]
    split
    · exact .pure _
    · exact .after (.error (by decide) _) fun _ => .pure _
  | boolConst | stringConst | emptyExpr => exact .pure _
  | varRef var => exact .lookup _
  | arithmetic op left right | logic op left right =>
    simp at each ⊢
    exact .bind (.operand each.1 _ _) fun _ => .andThen (.operand each.2 _ _) fun _ => .pure _
  | compare op left right =>
    simp at each ⊢
    refine .bind (.expect each.1 _ _) fun a => .andThen (.expect each.2 _ _) fun b => ?_
    dsimp only
    split
    · exact .after (.error (by decide) _) fun _ => .pure _
    · exact .pure _
  | motorSetPower port power =>
    simp at each ⊢
    exact .andThen (.operand each _ _) fun _ => .after asked fun _ => .pure _
  | motorStop port | sensorSample _ port => exact .after asked fun _ => .pure _
  | showText text =>
    simp at each ⊢
    exact .andThen (.operand each _ _) fun _ => .after asked fun _ => .pure _
  | playTone frequency duration =>
    simp at each ⊢
    exact .bind (.operand each.1 _ _) fun _ => .andThen (.operand each.2 _ _) fun _ =>
      .after asked fun _ => .pure _
  | extension spec slots =>
    rw [handler]
    split
    · next listed =>
      have children : Judges Own round (discard (Node.acceptChildren (.extension spec slots)))
          fun free => (Phrase.extension spec slots).children.flatMap
            (·.node.strays platform.board round free) := by
        rw [discard_acceptChildren]
        exact .forM fun c hc => .discard (each c hc)
      have ways : (Phrase.extension spec slots).ways platform.board round =
          (Phrase.extension spec slots).children.map (.straight, ·) :=
        congrArg (List.map (Way.straight, ·)) (if_pos listed)
      simp only [ways, Phrase.jump?, Option.toList_none, List.filter_nil, List.map_nil,
        List.nil_append, List.flatMap_map, Way.free]
      refine .andThen children fun _ => .after ?_ fun _ => .pure _
      simpa only [Phrase.map, Platform.ask] using asked
    · next unlisted =>
      have ways : (Phrase.extension spec slots).ways platform.board round = [] :=
        congrArg (List.map (Way.straight, ·)) (if_neg unlisted)
      rw [ways]
      exact .after (.error (by decide) _) fun _ => .pure _

end Handler

/-- The check of a node reports the jumps at and below it that are outside of loops. -/
theorem judges_check {platform : Platform} (adds : platform.Adds Own) (n : Node) :
    Judges Own round (check platform n) (n.strays platform.board round) := by
  induction n using Node.induction with
  | step n ih =>
    rw [check_eq, funext (Node.strays_eq platform.board round n)]
    split
    swap
    · exact .pure none
    have shape : n.phrase = (n.phrase.map (checked platform)).map (·.node) :=
      (n.phrase.map_map_cancel fun c => rfl).symm
    have each : ∀ c ∈ (n.phrase.map (checked platform)).children,
        Judges Own round c.result (c.node.strays platform.board round) := by
      rw [Phrase.children_map, List.forall_mem_map]
      exact ih
    have handled := judges_handler adds shape each
    rw [Phrase.jump?_map, Phrase.ways_map] at handled
    simp only [List.flatMap_map] at handled
    exact .map some handled

/-- Defining the methods has nothing to do with jumps. -/
theorem judges_defineIfMethod (n : Node) : Judges Own round (defineIfMethod n) fun _ => [] := by
  unfold defineIfMethod
  split
  swap
  · exact .pure _
  refine .after (.checkName _ _) fun _ => .get_bind fun s _ => ?_
  split
  · exact .error (by decide) _
  · exact .after (.modify fun _ => ⟨rfl, rfl, rfl⟩) fun _ => .record _ _

end Checker

/-! ## Programs -/

namespace Program

/-- The jumps outside of loops that a run comes to. -/
def strays (board : Board) (p : Program) : List (Node × Flow) :=
  p.inRounds fun round n => n.strays board round true

/-- Whether a node is in the body of a loop, with no method between. -/
def InLoop (p : Program) (n : Node) : Prop :=
  ∃ m ∈ p.walk, ∃ body ancestors, m.phrase.loopBody? = some body ∧ body.Below ancestors n ∧
    ∀ k ∈ ancestors, k.kind ≠ .methodDef

end Program

namespace Program.Laid

variable {p : Program} (laid : p.Laid) {board : Board} {n : Node} {flow : Flow}

include laid

/-- The loops around a node are below the statement that the node is in. -/
theorem loops_iff {root t : Node} (ht : t ∈ p.statements) (mem : n ∈ t.walk)
    (up : t.walk ⊆ root.walk) (down : root.walk ⊆ p.walk) : root.Loops n ↔ p.InLoop n := by
  constructor
  · rintro ⟨m, hm, rest⟩
    exact ⟨m, down hm, rest⟩
  · rintro ⟨m, hm, body, ancestors, loop, below, between⟩
    have child := Phrase.mem_children_of_loopBody? loop
    have other : m.kind ≠ .stmtList := (Phrase.kind_ne_of_loopBody? loop).2
    exact ⟨m, up (laid.mem_walk_of_child hm child below.mem_walk other ht mem), body, ancestors,
      loop, below, between⟩

/-- The jumps outside of loops at a statement or in a chain on the canvas. -/
theorem mem_strays_root_iff {round : Round} {root : Node} (down : root.walk ⊆ p.walk)
    (distinct : root.ids.Nodup)
    (statement : n ∈ root.walk → n.phrase = .flowControl flow →
      ∃ t ∈ p.statements, n ∈ t.walk ∧ t.walk ⊆ root.walk) :
    (n, flow) ∈ root.strays board round true ↔
      root.Leads board round n ∧ n.phrase = .flowControl flow ∧ ¬ p.InLoop n := by
  rw [Node.mem_strays_iff distinct fun k hk => laid.paired k (down hk)]
  refine and_congr_right fun leads => and_congr_right fun jump => ?_
  obtain ⟨t, ht, mem, up⟩ := statement leads.mem_walk jump
  rw [laid.loops_iff ht mem up down]
  simp

/-- The jumps that a run comes to outside of loops are those that it checks in no loop. -/
theorem mem_strays_iff : (n, flow) ∈ p.strays board ↔
    Checker.Checked board p n ∧ n.phrase = .flowControl flow ∧ ¬ p.InLoop n := by
  apply laid.mem_inRounds_iff
  · intro t top
    have ht : t ∈ p.statements := List.mem_of_mem_filter top
    exact laid.mem_strays_root_iff (laid.walk_subset ht)
      ((List.nodup_flatMap.1 laid.nodup_statements).1 t ht)
      fun mem _ => ⟨t, ht, mem, List.Subset.refl _⟩
  · intro i hi
    have distinct := laid.distinct
    rw [Program.ids_eq] at distinct
    apply laid.mem_strays_root_iff (Program.body_walk_subset hi)
      ((List.nodup_flatMap.1 distinct).1 i hi)
    intro mem jump
    -- the chain itself is no jump
    rcases Node.mem_walk_iff.1 mem with rfl | ⟨t, child, mem⟩
    · obtain ⟨statements, phrase⟩ := (laid.chain i hi).2
      rw [phrase] at jump
      cases jump
    · refine ⟨t, ?_, mem, Node.walk_subset (Node.mem_walk_of_mem_children child)⟩
      rw [laid.children_eq hi] at child
      exact List.mem_flatMap.2 ⟨i, hi, child⟩

/-- A run comes to no jump twice. -/
theorem nodup_strays (board : Board) : ((p.strays board).map (·.1.id)).Nodup := by
  rw [Program.strays, Program.map_inRounds]
  refine laid.nodup_inRounds (fun i hi => ?_) (fun n kind => ?_)
    fun round n => n.subperm_ids_strays board round true
  · obtain ⟨active, statements, phrase⟩ := laid.chain i hi
    rw [Node.strays_eq, if_pos active, Instance.statements, Node.statements, phrase]
    simp [Phrase.jump?, Phrase.ways, Phrase.before, Phrase.after, Phrase.children, Way.free,
      List.flatMap_map, List.map_flatMap]
  · rw [Node.strays_eq]
    cases phrase : n.phrase with
    | mainTask => simp [Phrase.jump?, Phrase.ways, Phrase.before, Phrase.after]
    | _ => rw [Node.kind, phrase] at kind; cases kind

end Program.Laid

/-! ## Runs -/

/-- The findings at a node about a jump outside of loops. -/
def Node.jumpFindings (n : Node) (found : List Diagnostic) : List Diagnostic :=
  (Diagnostic.strays found).filter (·.location = some n.location)

namespace Checker

variable {Own : Diagnostic → Prop} {platform : Platform} {p : Program}

/-- A program that has been gone over has the findings about its jumps outside of loops. -/
theorem strays_explored (adds : platform.Adds Own) (p : Program) (config : HardwareConfig) :
    ∃ own, (Diagnostic.strays (explored platform p config).collector.store.toList).Perm
      ((p.strays platform.board).map .stray ++ own) ∧ ∀ d ∈ own, Own d := by
  let starts := (topLevel p).filter (·.kind = .mainTask)
  have methods : Judges Own .declarations ((topLevel p).forM defineIfMethod) fun _ => [] := by
    have each : Judges Own .declarations ((topLevel p).forM defineIfMethod)
        fun _ => (topLevel p).flatMap fun _ => [] := .forM fun n _ => judges_defineIfMethod n
    rwa [List.flatMap_eq_nil_iff.2 fun _ _ => rfl] at each
  have declarations : Judges Own .declarations ((topLevel p).forM (checkIfStart platform))
      fun free => starts.flatMap (·.strays platform.board .declarations free) := by
    rw [forM_checkIfStart]
    exact .forM fun n _ => .discard (judges_check adds n)
  have chains : Judges Own .chains (p.instances.forM fun i => discard (check platform i.body))
      fun free => p.instances.flatMap (·.body.strays platform.board .chains free) :=
    .forM fun i _ => .discard (judges_check adds i.body)
  obtain ⟨-, depth, found, own, list, judged, added⟩ :=
    methods.after (fun _ => declarations) { collector := { config } } rfl
  obtain ⟨-, -, found', own', list', judged', added'⟩ :=
    chains { (((topLevel p).forM defineIfMethod >>= fun _ =>
      (topLevel p).forM (checkIfStart platform)).run { collector := { config } }).2 with
        round := .chains } rfl
  rw [depth] at judged'
  refine ⟨own ++ own', ?_, List.forall_mem_append.2 ⟨added, added'⟩⟩
  have all : (explored platform p config).collector.store.toList = found ++ found' := by
    rw [list] at list'
    exact list'
  rw [all]
  exact Diagnostic.strays_append judged judged'

end Checker

namespace Program

/-- The findings of a run tell which jumps are outside of loops. What a platform adds is its own. -/
structure Judged (board : Board) (p : Program) (found : List Diagnostic)
    (Own : Diagnostic → Prop) : Prop where
  /-- In a loop nothing is reported of a jump. -/
  inside : ∀ n flow, Checker.Checked board p n → n.phrase = .flowControl flow → p.InLoop n →
    ∀ d ∈ n.jumpFindings found, Own d
  /-- Outside of loops a jump is reported once. -/
  outside : ∀ n flow, Checker.Checked board p n → n.phrase = .flowControl flow → ¬ p.InLoop n →
    ∃ own, (n.jumpFindings found).Perm (.stray (n, flow) :: own) ∧ ∀ d ∈ own, Own d
  /-- If the platform leaves the jumps alone, there is nothing else. -/
  only : (∀ d, Own d → d.code ≠ .flowOutsideLoop) → ∀ n flow, Checker.Checked board p n →
    n.phrase = .flowControl flow →
      (p.InLoop n → n.jumpFindings found = []) ∧
        (¬ p.InLoop n → n.jumpFindings found = [.stray (n, flow)])

/-- The findings at a jump are the one about it if it is outside of loops, and what the platform
adds. -/
theorem exists_jumpFindings {platform : Platform} {p : Program} (laid : p.Laid)
    {Own : Diagnostic → Prop} (adds : platform.Adds Own) (config : HardwareConfig) {n : Node}
    {flow : Flow} (checked : Checker.Checked platform.board p n)
    (jump : n.phrase = .flowControl flow) : ∃ l own,
      (n.jumpFindings (platform.validate p config).diagnostics.toList).Perm
        (l.map .stray ++ own) ∧ (∀ d ∈ own, Own d) ∧
          (p.InLoop n → l = []) ∧ (¬ p.InLoop n → l = [(n, flow)]) := by
  have walk {m : Node} (checked : Checker.Checked platform.board p m) : m ∈ p.walk := by
    obtain ⟨i, hi, ancestors, below, -⟩ := checked
    exact List.mem_flatMap.2 ⟨i, hi, below.mem_walk⟩
  let here (e : Node × Flow) : Bool := e.1.location = n.location
  have mem (e : Node × Flow) :
      e ∈ (p.strays platform.board).filter here ↔ e = (n, flow) ∧ ¬ p.InLoop n := by
    obtain ⟨m, flow'⟩ := e
    rw [List.mem_filter, laid.mem_strays_iff]
    constructor
    · rintro ⟨⟨visited, jump', outside⟩, same⟩
      obtain rfl := laid.eq_of_id (walk visited) (walk checked)
        (congrArg Location.node (of_decide_eq_true same))
      obtain rfl : flow' = flow := by
        rw [jump] at jump'
        exact (Phrase.flowControl.inj jump').symm
      exact ⟨rfl, outside⟩
    · rintro ⟨same, outside⟩
      cases same
      exact ⟨⟨checked, jump, outside⟩, decide_eq_true rfl⟩
  obtain ⟨own, judged, added⟩ := Checker.strays_explored adds p config
  refine ⟨(p.strays platform.board).filter here, own.filter (·.location = some n.location), ?_,
    fun d hd => added d (List.mem_of_mem_filter hd), fun loop => ?_, fun outside => ?_⟩
  · have unused : ((Checker.unused (Checker.explored platform p config)).map fun d =>
        { Checker.unusedWarning d.2 with location := some d.1.location }).filter
          (·.code = .flowOutsideLoop) = [] := by
      have differ : DiagnosticCode.unusedVariable ≠ .flowOutsideLoop := by decide
      rw [List.filter_eq_nil_iff, List.forall_mem_map]
      simp [Checker.unusedWarning, differ]
    rw [Node.jumpFindings, Platform.diagnostics_validate, Diagnostic.strays, List.filter_append,
      unused, List.append_nil]
    refine (judged.filter _).trans ?_
    rw [List.filter_append, List.filter_map]
    simp [here, Diagnostic.stray, Function.comp_def]
  · rw [List.eq_nil_iff_forall_not_mem]
    exact fun e he => ((mem e).1 he).2 loop
  · have once : ((p.strays platform.board).filter here).Nodup :=
      (laid.nodup_strays platform.board).of_map.filter _
    refine List.perm_singleton.1 ((List.perm_ext_iff_of_nodup once (List.nodup_singleton _)).2 ?_)
    intro e
    rw [mem, and_iff_left outside, List.mem_singleton]

/-- A jump is reported once if it is in no loop, and no check changes the number of loops. -/
theorem jumps_validate {registry : KindRegistry} {d : Document} {p : Program} {s s' : Supply}
    (read : (ofDocument registry d).run s = (.ok p, s')) {platform : Platform}
    {Own : Diagnostic → Prop} (adds : platform.Adds Own) (config : HardwareConfig) :
    p.Judged platform.board (platform.validate p config).diagnostics.toList Own ∧
      ∀ (n : Node) (t : CheckState),
        ((Checker.check platform n).run t).2.loopDepth = t.loopDepth ∧
          ((do modify fun t => { t with loopDepth := t.loopDepth + 1 }
               Checker.body (Checker.checked platform n) : Check Unit).run t).2.loopDepth =
            t.loopDepth + 1 := by
  have laid := laid_of_ofDocument read
  refine ⟨⟨?_, ?_, ?_⟩, fun n t => ?_⟩
  · intro n flow checked jump loop d hd
    obtain ⟨l, own, findings, added, none, -⟩ := exists_jumpFindings laid adds config checked jump
    rw [none loop] at findings
    exact added d (findings.subset hd)
  · intro n flow checked jump outside
    obtain ⟨l, own, findings, added, -, one⟩ := exists_jumpFindings laid adds config checked jump
    rw [one outside] at findings
    exact ⟨own, findings, added⟩
  · intro quiet n flow checked jump
    obtain ⟨l, own, findings, added, none, one⟩ :=
      exists_jumpFindings laid adds config checked jump
    obtain rfl : own = [] := by
      rw [List.eq_nil_iff_forall_not_mem]
      intro d hd
      have mem := List.mem_of_mem_filter (findings.symm.subset (List.mem_append_right _ hd))
      exact quiet d (added d hd) (of_decide_eq_true (List.mem_filter.1 mem).2)
    rw [List.append_nil] at findings
    constructor
    · intro loop
      rw [none loop] at findings
      exact findings.eq_nil
    · intro outside
      rw [one outside] at findings
      exact List.perm_singleton.1 findings
  · have restores := Checker.restores_check platform n
    exact ⟨restores t, Checker.run_counted (x := Checker.body (Checker.checked platform n))
      (fun s => restores s) t⟩

end Program

/-- A jump in a loop, and another one in a method in the loop. -/
def interrupted : Document where
  formatVersion := "3.1"
  instances := [{ blocks := [
    .mk {
      id := "a", type := "controls_repeat_ext"
      statements := [⟨"DO", [
        .mk { id := "b", type := "controls_flow_statements", fields := [⟨"FLOW", "BREAK"⟩] },
        .mk {
          id := "c", type := "robProcedures_defnoreturn", fields := [⟨"NAME", "halt"⟩]
          statements := [⟨"STACK", [.mk {
            id := "d", type := "controls_flow_statements"
            fields := [⟨"FLOW", "CONTINUE"⟩] }]⟩] }]⟩] }] }]

theorem Program.jumps_validate_interrupted :
    ∃ p s', (ofDocument .core interrupted).run {} = (.ok p, s') ∧
      (Diagnostic.strays (Boards.ev3.validate p oneMotor).diagnostics.toList).map
        (fun d => d.location.bind (·.blockId)) = [some "d"] ∧
      p.Judged Boards.ev3.board (Boards.ev3.validate p oneMotor).diagnostics.toList
        (·.code ∈ DiagnosticCode.hardware) ∧
      ∀ (n : Node) (t : CheckState),
        ((Checker.check Boards.ev3 n).run t).2.loopDepth = t.loopDepth ∧
          ((do modify fun t => { t with loopDepth := t.loopDepth + 1 }
               Checker.body (Checker.checked Boards.ev3 n) : Check Unit).run t).2.loopDepth =
            t.loopDepth + 1 := by
  have computed : ((ofDocument .core interrupted).run {}).1.toOption.any (fun p =>
      (Diagnostic.strays (Boards.ev3.validate p oneMotor).diagnostics.toList).map
        (fun d => d.location.bind (·.blockId)) = [some "d"]) = true := by decide +kernel
  obtain ⟨p, s', read, computed⟩ := Except.exists_eq_ok_of_any_fst computed
  have known : Platform.Known Boards.ev3 := .inl ⟨"ev3", rfl⟩
  exact ⟨p, s', read, of_decide_eq_true computed, jumps_validate read known.modest.adds oneMotor⟩

end BlockGraph

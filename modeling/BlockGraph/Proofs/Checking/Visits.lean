import BlockGraph.Checking.Outcome
import BlockGraph.Proofs.Checking.Steps

/-!
# What a run visits

A check goes down from active nodes to their children. It does not go into extensions that the
board does not have, and the second round does not go into start blocks.

* `Node.Leads`: the nodes that a round visits below and including a node.
* `Checker.checks_handler`, `Checker.checks_check`: checking a node stands for checking the nodes
  that it leads to.
* `Checker.gains_run`: what a run stands for.
-/

namespace BlockGraph

/-! ## Paths -/

/-- Whether a round of a run goes on to the children of a phrase. -/
def Phrase.Opens {α : Type} (board : Board) (round : Round) (p : Phrase α) : Prop :=
  p.Listed board ∧ (p.kind = .mainTask → round = .declarations)

theorem Phrase.opens_map_iff {α β : Type} (f : α → β) (board : Board) (round : Round)
    (p : Phrase α) : (p.map f).Opens board round ↔ p.Opens board round := by
  rw [Opens, Opens, listed_map_iff, kind_map]

/-- A node below a root, with the nodes on the way to it. -/
inductive Node.Below : Node → List Node → Node → Prop
  | refl (n : Node) : Below n [] n
  | child {root c n : Node} {ancestors : List Node} (mem : c ∈ root.children)
    (below : Below c ancestors n) : Below root (root :: ancestors) n

/-- A round that comes to `root` visits `n`. -/
def Node.Leads (board : Board) (round : Round) (root n : Node) : Prop :=
  ∃ ancestors, root.Below ancestors n ∧ (∀ m ∈ n :: ancestors, m.isActive = true) ∧
    ∀ m ∈ ancestors, m.phrase.Opens board round

namespace Node

theorem Below.eq_of_cons {root m n : Node} {ancestors : List Node}
    (h : root.Below (m :: ancestors) n) : m = root := by
  cases h
  rfl

theorem Below.mem_walk {root n : Node} {ancestors : List Node} (h : root.Below ancestors n) :
    n ∈ root.walk := by
  induction h with
  | refl => exact mem_walk_self _
  | child mem _ ih =>
    rw [walk_eq]
    exact List.mem_cons_of_mem _ (List.mem_flatMap.2 ⟨_, mem, ih⟩)

/-- A path through a node is a path to the node and one from there. -/
theorem below_append_iff {root m n : Node} {before after : List Node} :
    root.Below (before ++ m :: after) n ↔ root.Below before m ∧ m.Below (m :: after) n := by
  induction before generalizing root with
  | nil =>
    refine ⟨fun h => ?_, fun h => ?_⟩
    · obtain rfl := Below.eq_of_cons h
      exact ⟨.refl m, h⟩
    · obtain ⟨first, second⟩ := h
      cases first
      exact second
  | cons a before ih =>
    refine ⟨fun h => ?_, fun h => ?_⟩
    · rw [List.cons_append] at h
      cases h with
      | child mem below =>
        obtain ⟨first, second⟩ := ih.1 below
        exact ⟨.child mem first, second⟩
    · obtain ⟨first, second⟩ := h
      cases first with
      | child mem below => exact .child mem (ih.2 ⟨below, second⟩)

variable {board : Board} {round : Round}

theorem Leads.mem_walk {root n : Node} (h : root.Leads board round n) : n ∈ root.walk := by
  obtain ⟨_, below, -⟩ := h
  exact below.mem_walk

/-- A round visits a node and goes on to its children. -/
theorem leads_iff {root n : Node} : root.Leads board round n ↔ root.isActive = true ∧
    (n = root ∨ root.phrase.Opens board round ∧ ∃ c ∈ root.children, c.Leads board round n) := by
  refine ⟨fun h => ?_, fun h => ?_⟩
  · obtain ⟨ancestors, below, active, opens⟩ := h
    cases below with
    | refl => exact ⟨active _ List.mem_cons_self, .inl rfl⟩
    | @child _ c _ ancestors mem below =>
      rw [List.forall_mem_cons] at opens
      rw [List.forall_mem_cons, List.forall_mem_cons] at active
      refine ⟨active.2.1, .inr ⟨opens.1, c, mem, ancestors, below, ?_, opens.2⟩⟩
      exact List.forall_mem_cons.2 ⟨active.1, active.2.2⟩
  · obtain ⟨active, rfl | ⟨opens, c, mem, ancestors, below, inside, open'⟩⟩ := h
    · exact ⟨[], .refl n, by simpa using active, by simp⟩
    · rw [List.forall_mem_cons] at inside
      refine ⟨root :: ancestors, .child mem below, ?_, List.forall_mem_cons.2 ⟨opens, open'⟩⟩
      exact List.forall_mem_cons.2 ⟨inside.1, List.forall_mem_cons.2 ⟨active, inside.2⟩⟩

end Node

namespace Checker

open Collector

/-! ## Checking nodes -/

theorem exists_mem_zip_iff {α : Type} {l m : List α} (length : l.length = m.length)
    {P : α → Prop} : (∃ e ∈ l.zip m, P e.1 ∨ P e.2) ↔ ∃ a ∈ l ++ m, P a := by
  induction l generalizing m with
  | nil =>
    obtain rfl := List.length_eq_zero_iff.1 length.symm
    simp
  | cons a l ih =>
    cases m with
    | nil => cases length
    | cons b m =>
      have rest := ih (Nat.succ.inj length)
      simp only [List.mem_append, or_and_right, exists_or] at rest
      simp only [List.zip_cons_cons, List.cons_append, List.mem_cons, List.mem_append,
        or_and_right, exists_or, exists_eq_left, rest]
      rw [or_or_or_comm, or_assoc]

variable {platform : Platform} {f : Frame} {round : Round} {n : Node}

section Handler

attribute [local simp] Phrase.Opens Phrase.Listed Phrase.kind Phrase.children Phrase.slots
  Phrase.operands SlotValue.nodes SlotValue.operand

/-- What the handler of a phrase stands for, given what the checks of its children stand for. -/
@[local simp]
def Made (board : Board) (round : Round) (n : Node) (made : Node → Deed → Prop) (p : Phrase Child)
    (deed : Deed) : Prop :=
  deed = .check n ∨ p.Opens board round ∧ ∃ c ∈ p.children, made c.node deed

/-- The handler runs the checks of all children if the round goes on to them, and asks the platform
about hardware that the node itself uses. -/
theorem checks_handler (orderly : platform.Orderly f) (admits : f.Admits n) {p : Phrase Child}
    (shape : n.phrase = p.map (·.node)) {made : Node → Deed → Prop}
    (inside : ∀ c ∈ p.children, Stands f round c (made c.node)) :
    Checks f round (handler platform n p) (Made platform.board round n made p) := by
  have paired : p.Paired := by
    have := admits.paired
    rwa [shape, Phrase.paired_map_iff] at this
  have place : p.kind.blockType.isSome → f.Place n := fun block =>
    admits.place shape (by rwa [Phrase.kind_map])
  have operand : ∀ o ∈ p.operands, o.node.phrase.isEmptyExpr = false → f.Place o.node := by
    have := admits.operand
    rwa [shape, Phrase.operands_map, List.forall_mem_map] at this
  have idle (unused : p.use? f.display = none) (listed : p.Listed platform.board)
      (quiet : p.called? = none) :
      (Deed.check n).Idle f.board f.display := by
    rw [Deed.Idle, shape, Phrase.use?_map, Phrase.listed_map_iff, Phrase.called?_map, orderly.board]
    exact ⟨unused, listed, quiet⟩
  cases p with
  | stmtList statements =>
    refine .congr (.also (.before (.forM fun c hc => .body (inside c hc)) fun _ => .pure _)
      (idle rfl trivial rfl)) fun deed => ?_
    simp
  | mainTask debug declarations =>
    simp at inside
    refine .congr (.also ?_ (idle rfl trivial rfl)) fun deed => Iff.rfl
    refine .get_bind fun s hs => ?_
    rw [hs.round]
    cases round with
    | declarations =>
      refine .congr (.before (.body inside) fun _ => .pure _) fun deed => ?_
      simp
    | chains =>
      refine .congr (.pure _) fun deed => ?_
      simp
  | varDeclaration name type value =>
    simp at inside operand
    have place := place rfl
    refine .congr (.also (.after (.checkName place name _) fun _ => .before (.discard
      (.expect place inside operand _ _)) fun _ => .after (.declare place name _) fun _ => .pure _)
        (idle rfl trivial rfl)) fun deed => ?_
    simp
  | ifElse conditions branches otherwise =>
    have place := place rfl
    have last : Checks f round (otherwise.forM body) fun deed =>
        ∃ c ∈ otherwise, made c.node deed := by
      cases otherwise with
      | none => exact .congr (.pure _) fun deed => by simp
      | some chain =>
        refine .congr (.body (inside chain ?_)) fun deed => ?_
        · simp
        · simp
    have pairs : Checks f round ((conditions.zip branches).forM fun c => do
        discard (expect n c.1 .boolean "condition")
        body c.2) fun deed => ∃ c ∈ conditions ++ branches, made c.node deed := by
      refine .congr (.forM fun c hc => ?_) fun deed => exists_mem_zip_iff paired
      obtain ⟨first, second⟩ := List.of_mem_zip hc
      refine .bind (.discard (.expect place (inside c.1 ?_) (operand c.1 first) _ _)) fun _ =>
        .body (inside c.2 ?_)
      · simp [first]
      · simp [second]
    refine .congr (.also (.bind pairs fun _ => .before last fun _ => .pure _)
      (idle rfl trivial rfl)) fun deed => ?_
    simp [or_and_right, exists_or, or_assoc]
  | repeatTimes times chain | whileUntil _ times chain =>
    simp at inside operand
    refine .congr (.also (.bind (.discard (.expect (place rfl) inside.1 operand _ _)) fun _ =>
      .before (.loopBody inside.2) fun _ => .pure _) (idle rfl trivial rfl)) fun deed => ?_
    simp
  | forLoop var start stop step chain =>
    simp at inside operand
    have place := place rfl
    refine .congr (.also (.after (.checkName place var _) fun _ =>
      .bind (.discard (.expect place inside.1 operand.1 _ _)) fun _ =>
        .bind (.discard (.expect place inside.2.1 operand.2.1 _ _)) fun _ =>
          .bind (.discard (.expect place inside.2.2.1 operand.2.2 _ _)) fun _ =>
            .before (.withScope (.after (.bindName var _) fun _ => .loopBody inside.2.2.2))
              fun _ => .pure _) (idle rfl trivial rfl)) fun deed => ?_
    simp
  | flowControl flow =>
    refine .congr (.also (?_ : Checks f round _ fun _ => False) (idle rfl trivial rfl)) fun deed => ?_
    · refine .get_bind fun s _ => ?_
      split
      · exact .after (.error (place rfl) _ _) fun _ => .pure _
      · exact .pure _
    · simp
  | assign name value =>
    simp at inside operand
    have place := place rfl
    refine .congr (.also (.after (.lookup place name) fun _ => .before
      (.discard (.expect place inside operand _ _)) fun _ => .pure _) (idle rfl trivial rfl))
        fun deed => ?_
    simp
  | waitTime value | negate value =>
    simp at inside operand
    refine .congr (.also (.before (.discard (.expect (place rfl) inside operand _ _))
      fun _ => .pure _) (idle rfl trivial rfl)) fun deed => ?_
    simp
  | methodDef name chain =>
    simp at inside
    refine .congr (.also (.before (.outsideLoops (.withScope (.body inside))) fun _ => .pure _)
      (idle rfl trivial rfl)) fun deed => ?_
    simp
  | methodCall name =>
    have called : Checks f round (handler platform n (.methodCall name)) (· = .check n) := by
      refine .get_bind_here fun s hs => ?_
      split
      · refine Checks.before (.collect fun c => .blame List.mem_cons_self (place rfl)
          (fun r required => ?_) rfl) (fun _ => .pure _) s hs
        rw [n.requirement?_of_phrase shape] at required
        cases required
      · next known => exact ⟨hs, .call shape (hs.methods name (by simpa using known))⟩
    refine called.congr fun deed => ?_
    simp
  | numConst text =>
    refine .congr (.also (?_ : Checks f round _ fun _ => False) (idle rfl trivial rfl)) fun deed => ?_
    · rw [handler]
      split
      · exact .pure _
      · exact .after (.error (place rfl) _ _) fun _ => .pure _
    · simp
  | boolConst | stringConst | emptyExpr =>
    refine .congr (.also (.pure _) (idle rfl trivial rfl)) fun deed => ?_
    simp
  | varRef name =>
    refine .congr (.also (.lookup (place rfl) name) (idle rfl trivial rfl)) fun deed => ?_
    simp
  | arithmetic op left right | logic op left right =>
    simp at inside operand
    have place := place rfl
    refine .congr (.also (.bind (.discard (.expect place inside.1 operand.1 _ _)) fun _ =>
      .before (.discard (.expect place inside.2 operand.2 _ _)) fun _ => .pure _)
        (idle rfl trivial rfl)) fun deed => ?_
    simp
  | compare op left right =>
    simp at inside operand
    have place := place rfl
    refine .congr (.also (.bind (.expect place inside.1 operand.1 _ _) fun a => .before
      (.expect place inside.2 operand.2 _ _) fun b => ?_) (idle rfl trivial rfl)) fun deed => ?_
    · dsimp only
      split
      · exact .after (.error place _ _) fun _ => .pure _
      · exact .pure _
    · simp
  | motorSetPower port power =>
    simp at inside operand
    refine .congr (.bind (.discard (.expect (place rfl) inside operand _ _)) fun _ => .before
      (.collect (orderly.motor n port power.node shape admits)) fun _ => .pure _) fun deed => ?_
    simp [or_comm]
  | motorStop port =>
    refine .congr (.before (.collect (orderly.motorStop n port shape admits)) fun _ => .pure _)
      fun deed => ?_
    simp
  | sensorSample type port =>
    refine .congr (.before (.collect (orderly.sensor n type port shape admits)) fun _ => .pure _)
      fun deed => ?_
    simp
  | showText text =>
    simp at inside operand
    refine .congr (.bind (.discard (.expect (place rfl) inside operand _ _)) fun _ => .before
      (.collect (orderly.showText n text.node shape admits)) fun _ => .pure _) fun deed => ?_
    simp [or_comm]
  | playTone frequency duration =>
    simp at inside operand
    have place := place rfl
    refine .congr (.bind (.discard (.expect place inside.1 operand.1 _ _)) fun _ => .bind
      (.discard (.expect place inside.2 operand.2 _ _)) fun _ => .before
        (.collect (orderly.tone n frequency.node duration.node shape admits)) fun _ => .pure _)
          fun deed => ?_
    simpa using or_rotate.symm
  | extension spec slots =>
    rw [handler]
    split
    · next listed =>
      have children : Checks f round (discard (Node.acceptChildren (.extension spec slots)))
          fun deed => ∃ c ∈ (Phrase.extension spec slots).children, made c.node deed :=
        .discard (.before (.mapM fun c hc => (inside c hc).result) fun _ => .pure _)
      have member : spec ∈ platform.board.extensionKinds := List.contains_iff_mem.1 listed
      refine .congr (.bind children fun _ => .before (.collect (orderly.extension n spec _ shape
        ?_ admits)) fun _ => .pure _) fun deed => ?_
      · rw [shape]
        exact member
      · simp [member, or_comm]
    · next unlisted =>
      have outside : spec ∉ platform.board.extensionKinds := fun h =>
        unlisted (List.contains_iff_mem.2 h)
      refine .congr (.before (.collect fun c => .blame List.mem_cons_self (place rfl)
        (fun r required => ?_) rfl) fun _ => .pure _) fun deed => ?_
      · rw [n.requirement?_of_phrase shape] at required
        cases required
      · simp [outside]

end Handler

/-- The deeds of checking what a node leads to. -/
def Tour (board : Board) (round : Round) (n : Node) (deed : Deed) : Prop :=
  ∃ m, n.Leads board round m ∧ deed = .check m

/-- An active node is checked itself, then the tour goes on to its children. -/
theorem made_tour_iff (active : n.isActive = true) {board : Board}
    {result : Node → Check (Option ExprType)} {deed : Deed} :
    Made board round n (Tour board round) (n.phrase.map fun c => ⟨c, result c⟩) deed ↔
      Tour board round n deed := by
  simp only [Made, Tour, Phrase.opens_map_iff, Phrase.children_map, List.mem_map,
    @Node.leads_iff board round n, active, true_and]
  refine ⟨fun h => ?_, fun h => ?_⟩
  · rcases h with rfl | ⟨opens, _, ⟨c, mem, rfl⟩, m, leads, rfl⟩
    · exact ⟨n, .inl rfl, rfl⟩
    · exact ⟨m, .inr ⟨opens, c, mem, leads⟩, rfl⟩
  · obtain ⟨m, rfl | ⟨opens, c, mem, leads⟩, rfl⟩ := h
    · exact .inl rfl
    · exact .inr ⟨opens, _, ⟨c, mem, rfl⟩, m, leads, rfl⟩

theorem not_tour_of_inactive (inactive : n.isActive ≠ true) {board : Board} {deed : Deed} :
    ¬ Tour board round n deed := by
  intro h
  obtain ⟨m, leads, -⟩ := h
  exact inactive (Node.leads_iff.1 leads).1

/-- Nothing follows from checking an empty expression. -/
theorem idle_of_tour {board : Board} {display : String} (empty : n.phrase.isEmptyExpr = true)
    {deed : Deed} (h : Tour board round n deed) : deed.Idle board display := by
  have phrase : n.phrase = .emptyExpr := by
    cases e : n.phrase <;> rw [e] at empty <;> first | rfl | cases empty
  obtain ⟨m, leads, rfl⟩ := h
  obtain ⟨-, rfl | ⟨-, c, mem, -⟩⟩ := Node.leads_iff.1 leads
  · rw [Deed.Idle, phrase]
    exact ⟨rfl, trivial, rfl⟩
  · rw [Node.children, phrase] at mem
    cases mem

/-- Checking a node stands for checking the nodes that it leads to. -/
theorem checks_check (orderly : platform.Orderly f) (admits : ∀ m ∈ n.walk, f.Admits m) :
    Checks f round (check platform n) (Tour platform.board round n) := by
  induction n using Node.induction with
  | step n ih =>
    rw [Node.walk_eq, List.forall_mem_cons, List.forall_mem_flatMap] at admits
    have shape : n.phrase =
        (n.phrase.map fun c => (⟨c, check platform c⟩ : Child)).map (·.node) :=
      (n.phrase.map_map_cancel fun c => rfl).symm
    have inside : ∀ c ∈ (n.phrase.map fun c => (⟨c, check platform c⟩ : Child)).children,
        Stands f round c (Tour platform.board round c.node) := by
      rw [Phrase.children_map, List.forall_mem_map]
      intro c hc
      refine ⟨ih c hc (admits.2 c hc), fun empty deed h => ?_⟩
      rw [orderly.board]
      exact idle_of_tour empty h
    have handled := checks_handler orderly admits.1 shape inside
    unfold check
    rw [Node.accept_eq]
    split
    · next active => exact (handled.map some).congr fun _ => made_tour_iff active
    · next inactive =>
      exact (Checks.pure none).congr fun _ =>
        iff_of_false not_false (not_tour_of_inactive inactive)

/-! ## Runs -/

/-- What a run does: it defines the methods on the canvas, goes through the start blocks there in
the first round, and through all chains in the second. -/
def Does (board : Board) (program : Program) (deed : Deed) : Prop :=
  (∃ n ∈ topLevel program, deed = .define n) ∨
    (∃ n ∈ topLevel program, n.kind = .mainTask ∧ Tour board .declarations n deed) ∨
      ∃ i ∈ program.instances, Tour board .chains i.body deed

theorem checks_defineIfMethod (admits : f.Admits n) :
    Checks f round (defineIfMethod n) (· = .define n) := by
  unfold defineIfMethod
  split
  · next name body method => exact .define method (admits.place method rfl)
  · next other =>
    refine .idle () fun deed h => ?_
    subst h
    intro kind
    cases method : n.phrase with
    | methodDef name body => exact other name body method
    | _ => rw [Node.kind, method] at kind; cases kind

theorem checks_checkIfStart (orderly : platform.Orderly f) (admits : ∀ m ∈ n.walk, f.Admits m) :
    Checks f .declarations (checkIfStart platform n) fun deed =>
      n.kind = .mainTask ∧ Tour platform.board .declarations n deed := by
  unfold checkIfStart
  split
  · next start =>
    have kind : n.kind = .mainTask := by rw [Node.kind, start]; rfl
    exact (checks_check orderly admits).discard.congr fun _ => (and_iff_right kind).symm
  · next other =>
    refine (Checks.pure _).congr fun _ => iff_of_false not_false fun h => ?_
    have kind : n.phrase.kind = .mainTask := h.1
    cases start : n.phrase with
    | mainTask debug declarations => exact other debug declarations start
    | _ => rw [start] at kind; cases kind

theorem checks_warnIfUnused {declaration : Node × String} (place : f.Place declaration.1) :
    Checks f round (warnIfUnused declaration) fun _ => False := by
  refine .get_bind fun s _ => ?_
  split
  · exact .collect (.report place _)
  · exact .pure _

theorem walk_subset_of_mem_topLevel {program : Program} {n : Node} (h : n ∈ topLevel program) :
    n.walk ⊆ program.walk := by
  obtain ⟨i, hi, hn⟩ := List.mem_flatMap.1 (List.mem_of_mem_filter h)
  refine fun m hm => List.mem_flatMap.2 ⟨i, hi, ?_⟩
  rw [Node.walk_eq]
  refine List.mem_cons_of_mem _ (List.mem_flatMap.2 ⟨n, ?_, hm⟩)
  rw [Instance.statements, Node.statements] at hn
  rw [Node.children]
  split at hn
  · next chain => rwa [chain]
  · cases hn

/-- What a run does once the methods are defined. -/
def goOn (platform : Platform) (program : Program) : Check Unit := do
  (topLevel program).forM (checkIfStart platform)
  modify fun s => { s with round := .chains }
  program.instances.forM fun i => discard (check platform i.body)
  (← get).declared.forM warnIfUnused

/-- On a fresh state, the methods are defined. -/
theorem run_methods {program : Program} (admits : ∀ n ∈ program.walk, f.Admits n) (c : Collector) :
    let s := (((topLevel program).forM defineIfMethod).run { collector := c }).2
    s.Fit f .declarations ∧
      c.Gains f (fun deed => ∃ n ∈ topLevel program, deed = .define n) s.collector := by
  have each : Checks f .declarations ((topLevel program).forM defineIfMethod) _ :=
    .forM fun n hn => checks_defineIfMethod
      (admits n (walk_subset_of_mem_topLevel hn n.mem_walk_self))
  exact each { collector := c } ⟨rfl, by simp, by simp [SortedMap.contains]⟩

section Runs

variable (orderly : platform.Orderly f) {program : Program}
  (admits : ∀ n ∈ program.walk, f.Admits n)
include orderly admits

theorem gains_goOn {s : CheckState} (fit : s.Fit f .declarations) :
    s.collector.Gains f (fun deed =>
      (∃ n ∈ topLevel program, n.kind = .mainTask ∧ Tour platform.board .declarations n deed) ∨
        ∃ i ∈ program.instances, Tour platform.board .chains i.body deed)
      ((goOn platform program).run s).2.collector := by
  have first : Checks f .declarations ((topLevel program).forM (checkIfStart platform)) _ :=
    .forM fun n hn => checks_checkIfStart orderly fun m hm =>
      admits m (walk_subset_of_mem_topLevel hn hm)
  have second : Checks f .chains
      (do program.instances.forM fun i => discard (check platform i.body)
          (← get).declared.forM warnIfUnused) _ :=
    .before (.forM fun i hi => .discard (checks_check orderly fun m hm =>
      admits m (List.mem_flatMap.2 ⟨i, hi, hm⟩))) fun _ => .get_bind fun s hs =>
        .forM_silent fun d hd => checks_warnIfUnused (hs.declared d hd)
  obtain ⟨between, before⟩ := first s fit
  obtain ⟨-, after⟩ := second { (Id.run (StateT.run
    ((topLevel program).forM (checkIfStart platform)) s)).2 with
      round := .chains } ⟨rfl, between.declared, between.methods⟩
  exact before.trans after

/-- A run does what it stands for, on a fresh state. -/
theorem gains_run (c : Collector) :
    c.Gains f (Does platform.board program)
      ((run platform program).run { collector := c }).2.collector := by
  obtain ⟨fit, before⟩ := run_methods admits c
  exact before.trans (gains_goOn orderly admits fit)

/-- What is found when the methods are defined is found at the end of the run. -/
theorem findings_methods_subset (c : Collector) :
    (((topLevel program).forM defineIfMethod).run { collector := c }).2.collector.store.toList ⊆
      ((run platform program).run { collector := c }).2.collector.store.toList :=
  (gains_goOn orderly admits (run_methods admits c).1).findings_subset

end Runs

end Checker

end BlockGraph

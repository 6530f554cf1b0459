import BlockGraph.Proofs.Checking.Names
import BlockGraph.Proofs.Checking.Rounds

/-!
# Name resolution

What a run finds out about names follows a rule that speaks of the program alone. A name belongs to
the latest binder that can be seen: a declaration that repeats no name, from its end on and until a
chain with it is left that a method or a loop keeps to itself, or the innermost loop over the
variable. A name that belongs to nothing is undeclared, a declaration where its name belongs to
something is a repetition, and a declaration to which no name belongs is unused.

* `Program.itinerary`: the nodes that deal with names, in the order in which a run comes to them.
* `Program.Visible`, `Program.Binds`: the rule.
* `Program.resolved_validate`: the findings of a run follow it.
-/

namespace BlockGraph

open Visit

/-- The nodes that deal with names, in the order in which a run comes to them: a declaration after
its initial value, a loop over a variable before its chain. -/
def Program.itinerary (board : Board) (p : Program) : List Node := (p.visits board).map (·.node)

/-! ## Visits of programs that are laid out -/

namespace Program.Laid

variable {p : Program} (laid : p.Laid) {board : Board}

include laid

theorem visits_body {i : Instance} (hi : i ∈ p.instances) :
    i.body.visits board .chains [] = i.statements.flatMap (·.visits board .chains []) := by
  obtain ⟨active, statements, phrase⟩ := laid.chain i hi
  rw [Node.visits_eq, if_pos active, Instance.statements, Node.statements, phrase]
  exact List.append_nil _

theorem visits_eq : p.visits board =
    (p.statements.filter fun n => n.kind = .mainTask && n.isActive).flatMap
        (·.visits board .declarations []) ++
      p.statements.flatMap (·.visits board .chains []) :=
  Program.inRounds_eq (f := fun round n => n.visits board round []) fun _ hi => laid.visits_body hi

omit laid in
/-- The second round does not go into start blocks. -/
theorem visits_of_start {n : Node} (start : n.kind = .mainTask) :
    n.visits board .chains [] = [] := by
  rw [Node.visits_eq]
  rw [Node.kind] at start
  cases phrase : n.phrase <;> rw [phrase] at start <;> cases start
  exact ite_self _

/-- A run comes to every node once at most. -/
theorem nodup_visits (board : Board) : ((p.visits board).map (·.node.id)).Nodup := by
  have apart := laid.nodup_inRounds (f := fun round n => (n.visits board round []).map (·.node.id))
    (fun i hi => by rw [laid.visits_body hi, List.map_flatMap])
    (fun n start => by rw [visits_of_start start]; rfl)
    fun round n => n.subperm_ids_visits board round []
  rwa [← Program.map_inRounds] at apart

theorem exists_statement {v : Visit} (mem : v ∈ p.visits board) :
    ∃ n ∈ p.statements, ∃ round, v ∈ n.visits board round [] := by
  rw [laid.visits_eq, List.mem_append, List.mem_flatMap, List.mem_flatMap] at mem
  rcases mem with ⟨n, hn, mem⟩ | ⟨n, hn, mem⟩
  · exact ⟨n, List.mem_of_mem_filter hn, _, mem⟩
  · exact ⟨n, hn, _, mem⟩

theorem mem_walk_of_visits {v : Visit} (mem : v ∈ p.visits board) : v.node ∈ p.walk := by
  obtain ⟨n, hn, round, mem⟩ := laid.exists_statement mem
  exact laid.walk_subset hn (Node.mem_walk_of_visits mem)

/-- The chains that a visited node is in are those of the tree. -/
theorem mem_inside_iff {v : Visit} (mem : v ∈ p.visits board) {i : NodeId} :
    i ∈ v.inside ↔ ∃ m ∈ p.walk, m.id = i ∧ m.Encloses v.node := by
  obtain ⟨n, hn, round, mem⟩ := laid.exists_statement mem
  have distinct : n.ids.Nodup := (List.nodup_flatMap.1 laid.nodup_statements).1 n hn
  rw [Node.mem_inside_iff distinct mem, or_iff_right List.not_mem_nil]
  refine ⟨?_, ?_⟩
  · rintro ⟨m, hm, id, encloses⟩
    exact ⟨m, laid.walk_subset hn hm, id, encloses⟩
  · rintro ⟨m, hm, id, encloses⟩
    obtain ⟨body, own, inside⟩ := encloses
    have other : m.kind ≠ .stmtList := Phrase.kind_ne_of_ownBody? own
    have child := Phrase.mem_children_of_ownBody? own
    exact ⟨m, laid.mem_walk_of_child hm child inside other hn (Node.mem_walk_of_visits mem), id,
      body, own, inside⟩

theorem id_mem_inside_iff {v : Visit} (mem : v ∈ p.visits board) {m : Node} (hm : m ∈ p.walk) :
    m.id ∈ v.inside ↔ m.Encloses v.node := by
  rw [laid.mem_inside_iff mem]
  refine ⟨?_, fun encloses => ⟨m, hm, rfl, encloses⟩⟩
  rintro ⟨n, hn, same, encloses⟩
  rwa [← laid.eq_of_id hn hm same]

/-- A run comes to the nodes that deal with names among those that it checks. -/
theorem mem_itinerary_iff (n : Node) : n ∈ p.itinerary board ↔
    n.phrase.dealsWithNames = true ∧ Checker.Checked board p n := by
  have visited {t : Node} (sub : t.walk ⊆ p.walk) (round : Round) :
      n ∈ (t.visits board round []).map (·.node) ↔
        t.Leads board round n ∧ n.phrase.dealsWithNames = true := by
    rw [List.mem_map, and_comm]
    exact Node.exists_visit_iff fun k hk => laid.paired k (sub hk)
  have rounds : p.itinerary board =
      p.inRounds fun round t => (t.visits board round []).map (·.node) :=
    Program.map_inRounds Visit.node p fun round t => t.visits board round []
  rw [rounds, and_comm]
  apply laid.mem_inRounds_iff
  · exact fun t top => visited (Checker.walk_subset_of_mem_topLevel top) _
  · exact fun i hi => visited (Program.body_walk_subset hi) _

end Program.Laid

/-! ## Runs -/

namespace Checker

variable {round : Round} {platform : Platform} {p : Program}

/-- Methods are defined before any name is looked at. -/
theorem follows_defineIfMethod (n : Node) : Follows round [] (defineIfMethod n) [] := by
  have recorded (name : String) :
      Collector.Writes (fun _ => False) (Collector.record Feature.methodNames name) := .record _ _
  unfold defineIfMethod
  split
  swap
  · exact .pure _
  refine .after (.checkName _ _) fun _ => .get_bind fun s _ => ?_
  split
  · exact .error (by decide) _
  · exact .after (fun past s _ h => { h with }) fun _ =>
      .collect (recorded _) fun _ impossible => impossible.elim

/-- The names of a program that has been gone over are as the visits leave them. -/
theorem tracks_explored (modest : platform.Modest) (laid : p.Laid) (config : HardwareConfig) :
    Tracks .chains (p.visits platform.board).reverse [] (explored platform p config) := by
  let starts := (topLevel p).filter (·.kind = .mainTask)
  have methods : Follows .declarations [] ((topLevel p).forM defineIfMethod) [] := by
    have each : Follows .declarations [] ((topLevel p).forM defineIfMethod)
        ((topLevel p).flatMap fun _ => []) := .forM fun n _ => follows_defineIfMethod n
    rwa [List.flatMap_eq_nil_iff.2 fun _ _ => rfl] at each
  have declarations : Follows .declarations [] ((topLevel p).forM (checkIfStart platform))
      (starts.flatMap (·.visits platform.board .declarations [])) := by
    rw [forM_checkIfStart]
    exact .forM fun n _ => .discard (follows_check modest n [])
  have chains : Follows .chains [] (p.instances.forM fun i => discard (check platform i.body))
      (p.instances.flatMap (·.body.visits platform.board .chains [])) :=
    .forM fun i _ => .discard (follows_check modest i.body [])
  have beginning : Tracks .declarations [] [] { collector := { config } } := {
    scope _ := rfl
    faults := rfl
    used i := by simp [gather, SortedMap.contains]
    declared := rfl
    early d hd := by cases hd
    round := rfl
    nested := trivial
    around := List.nil_subset _ }
  have distinct := laid.nodup_visits platform.board
  rw [← List.nodup_reverse, ← List.map_reverse, Program.visits, List.reverse_append] at distinct
  rw [Program.visits, List.reverse_append]
  have before : ((starts.flatMap (·.visits platform.board .declarations [])).reverse.map
      (·.node.id)).Nodup := by
    rw [List.map_append] at distinct
    exact (List.nodup_append.1 distinct).2.1
  have declared := methods.after (fun _ => declarations) [] _ (by rwa [List.append_nil]) beginning
  rw [List.append_nil] at declared
  exact chains _ _ distinct { declared with round := rfl }

end Checker

/-! ## The scoping rule -/

/-- Whether a node got a finding of the given code. -/
def Node.Gets (n : Node) (code : DiagnosticCode) (found : List Diagnostic) : Prop :=
  ∃ d ∈ found, d.code = code ∧ d.location = some n.location

namespace Program

/-- Whether a run comes to a node right after some others. -/
def Reaches (board : Board) (p : Program) (before : List Node) (n : Node) : Prop :=
  before ++ [n] <+: p.itinerary board

/-- Whether the binder `b` of `x` is visible at `n`, which a run comes to after some other nodes. A
declaration that repeats no name is visible as long as its chains are not left, and a loop over a
variable in its chain. -/
def Visible (p : Program) (found : List Diagnostic) (before : List Node) (n : Node) (x : String)
    (b : Node) : Prop :=
  (b ∈ before ∧ b.declared? = some x ∧ ¬ b.Gets .duplicateVariable found ∧
      ∀ m ∈ p.walk, m.Encloses b → m.Encloses n) ∨
    (b ∈ p.walk ∧ b.loopVar? = some x ∧ b.Encloses n)

/-- Whether `b` is the latest binder of `x` that is visible at `n`. -/
def Binds (p : Program) (found : List Diagnostic) (before : List Node) (n : Node) (x : String)
    (b : Node) : Prop :=
  ∃ earlier later, before = earlier ++ b :: later ∧ p.Visible found before n x b ∧
    ∀ c ∈ later, ¬ p.Visible found before n x c

/-- The findings of a run tell what each name belongs to. -/
structure Resolved (board : Board) (p : Program) (found : List Diagnostic) : Prop where
  /-- A run comes to what it checks. -/
  visited : ∀ n, n ∈ p.itinerary board ↔
    n.phrase.dealsWithNames = true ∧ Checker.Checked board p n
  once : ((p.itinerary board).map Node.id).Nodup
  undeclared : ∀ before n x, p.Reaches board before n → n.used? = some x →
    (n.Gets .undeclaredVariable found ↔ ¬ ∃ b, p.Visible found before n x b)
  duplicate : ∀ before n x, p.Reaches board before n → n.declared? = some x →
    (n.Gets .duplicateVariable found ↔ ∃ b, p.Visible found before n x b)
  /-- Warnings of unused variables come last, in the order of their declarations. -/
  unused : ∃ (others : List Diagnostic) (unused : List (Node × String)),
    found = others ++ unused.map (fun d =>
      { Checker.unusedWarning d.2 with location := some d.1.location }) ∧
    (∀ d ∈ others, d.code ≠ .unusedVariable) ∧
    (unused.map Prod.fst).Sublist (p.itinerary board) ∧
    ∀ n x, (n, x) ∈ unused ↔ n ∈ p.itinerary board ∧ n.declared? = some x ∧
      ¬ n.Gets .duplicateVariable found ∧
      ∀ before m, p.Reaches board before m → m.used? = some x → ¬ p.Binds found before m x n

/-- What is known of the findings of a run: they are told by the visits. -/
structure Traced (board : Board) (p : Program) (found : List Diagnostic) : Prop where
  laid : p.Laid
  nested : Nested (p.visits board).reverse
  faults : ∀ code ∈ [DiagnosticCode.undeclaredVariable, .duplicateVariable], ∀ n : Node,
    n.Gets code found ↔ (code, some n.location) ∈ gather Visit.faults (p.visits board).reverse

namespace Traced

variable {board : Board} {p : Program} {found : List Diagnostic} (h : p.Traced board found)
  {pre : List Visit} {v : Visit} {x : String}

include h

/-- There is one moment at which a run comes to a node. -/
theorem eq_of_prefix {pre' : List Visit} {v' : Visit} (here : pre ++ [v] <+: p.visits board)
    (there : pre' ++ [v'] <+: p.visits board) (same : v.node.id = v'.node.id) :
    pre = pre' ∧ v = v' := by
  have distinct := h.laid.nodup_visits board
  have hv : v ∈ p.visits board := here.subset (by simp)
  have hv' : v' ∈ p.visits board := there.subset (by simp)
  obtain rfl := List.inj_on_of_nodup_map distinct hv hv' same
  obtain ⟨post, split⟩ := here
  obtain ⟨post', split'⟩ := there
  rw [List.append_assoc, List.singleton_append] at split split'
  have once := distinct.of_map
  rw [← split', List.nodup_middle, List.nodup_cons, List.mem_append, not_or] at once
  have parts := split'.trans split.symm
  exact ⟨((List.append_cons_inj_of_notMem once.1.1 once.1.2).1 parts).1.symm, rfl⟩

omit h in
theorem suffix_iff {older : List Visit} :
    v :: older <:+ (p.visits board).reverse ↔ older.reverse ++ [v] <+: p.visits board := by
  rw [← List.reverse_suffix, List.reverse_append, List.reverse_reverse]
  rfl

omit h in
theorem location_of_mem_faults {code : DiagnosticCode} {location : Location}
    (mem : (code, some location) ∈ Visit.faults v pre) : location = v.node.location := by
  rw [Visit.faults, List.mem_append, List.mem_map, List.mem_map] at mem
  rcases mem with ⟨_, -, same⟩ | ⟨_, -, same⟩
  · exact (Option.some.inj (Prod.mk.inj same).2).symm
  · exact (Option.some.inj (Prod.mk.inj same).2).symm

theorem gets_iff {code : DiagnosticCode}
    (name : code ∈ [DiagnosticCode.undeclaredVariable, .duplicateVariable])
    (here : pre ++ [v] <+: p.visits board) :
    v.node.Gets code found ↔ (code, some v.node.location) ∈ Visit.faults v pre.reverse := by
  rw [h.faults code name, mem_gather_iff]
  refine ⟨?_, fun mem => ⟨v, pre.reverse, ?_, mem⟩⟩
  · rintro ⟨u, older, suffix, mem⟩
    have id := congrArg Location.node (location_of_mem_faults mem)
    obtain ⟨rfl, rfl⟩ := h.eq_of_prefix here (suffix_iff.1 suffix) id
    rwa [List.reverse_reverse]
  · rwa [suffix_iff, List.reverse_reverse]

theorem gets_undeclared (here : pre ++ [v] <+: p.visits board) (used : v.node.used? = some x) :
    v.node.Gets .undeclaredVariable found ↔ binder? x pre.reverse v.inside = none := by
  rw [h.gets_iff (by simp) here]
  have differ : DiagnosticCode.undeclaredVariable ≠ .duplicateVariable := by decide
  simp [Visit.faults, used, differ]

theorem gets_duplicate (here : pre ++ [v] <+: p.visits board)
    (declared : v.node.declared? = some x) :
    v.node.Gets .duplicateVariable found ↔ ¬ binder? x pre.reverse v.inside = none := by
  rw [h.gets_iff (by simp) here]
  have differ : DiagnosticCode.duplicateVariable ≠ .undeclaredVariable := by decide
  simp [Visit.faults, declared, differ, Option.isSome_iff_ne_none]

/-- What a name can belong to is what is visible. -/
theorem offers_iff (here : pre ++ [v] <+: p.visits board) {u : Visit} {older : List Visit}
    (earlier : u :: older <:+ pre.reverse) : Offers x v.inside u older ↔
      p.Visible found (pre.map (·.node)) v.node x u.node := by
  have laid := h.laid
  have there : older.reverse ++ [u] <+: p.visits board := by
    rw [← suffix_iff]
    exact earlier.trans (List.reverse_suffix.2 ((List.prefix_append _ _).trans here))
  have mem : u ∈ pre := List.mem_reverse.1 (earlier.subset List.mem_cons_self)
  have hu : u ∈ p.visits board := there.subset (by simp)
  have hv : v ∈ p.visits board := here.subset (by simp)
  have walk := laid.mem_walk_of_visits hu
  have chains : (∀ i ∈ u.inside, i ∈ v.inside) ↔
      ∀ m ∈ p.walk, m.Encloses u.node → m.Encloses v.node := by
    refine ⟨fun sub m hm encloses => ?_, fun all i hi => ?_⟩
    · exact (laid.id_mem_inside_iff hv hm).1 (sub _ ((laid.id_mem_inside_iff hu hm).2 encloses))
    · obtain ⟨m, hm, rfl, encloses⟩ := (laid.mem_inside_iff hu).1 hi
      exact (laid.id_mem_inside_iff hv hm).2 (all m hm encloses)
  refine or_congr ⟨?_, ?_⟩ ?_
  · rintro ⟨declared, sub, fresh⟩
    refine ⟨List.mem_map_of_mem mem, declared, ?_, chains.1 sub⟩
    rw [h.gets_duplicate there declared, List.reverse_reverse, not_not]
    exact Option.isNone_iff_eq_none.1 fresh
  · rintro ⟨-, declared, fresh, all⟩
    rw [h.gets_duplicate there declared, List.reverse_reverse, not_not] at fresh
    exact ⟨declared, chains.2 all, Option.isNone_iff_eq_none.2 fresh⟩
  · rw [laid.id_mem_inside_iff hv walk, and_iff_right walk]

/-- What is visible was visited. -/
theorem exists_of_visible (here : pre ++ [v] <+: p.visits board) {b : Node}
    (visible : p.Visible found (pre.map (·.node)) v.node x b) : ∃ u ∈ pre, u.node = b := by
  rcases visible with ⟨before, -⟩ | ⟨walk, -, encloses⟩
  · exact List.mem_map.1 before
  · have inside := (h.laid.id_mem_inside_iff (here.subset (by simp)) walk).2 encloses
    have suffix : v :: pre.reverse <:+ (p.visits board).reverse := by
      rwa [suffix_iff, List.reverse_reverse]
    obtain ⟨u, hu, same⟩ := List.mem_map.1 (h.nested.inside_subset suffix inside)
    rw [List.mem_reverse] at hu
    have visited := (List.prefix_append pre [v]).trans here
    exact ⟨u, hu, h.laid.eq_of_id (h.laid.mem_walk_of_visits (visited.subset hu)) walk same⟩

theorem binder_eq_none_iff (here : pre ++ [v] <+: p.visits board) :
    binder? x pre.reverse v.inside = none ↔
      ¬ ∃ b, p.Visible found (pre.map (·.node)) v.node x b := by
  rw [binder?_eq_none_iff]
  refine ⟨?_, fun hidden u older earlier offers => ?_⟩
  · rintro none ⟨b, visible⟩
    obtain ⟨u, hu, rfl⟩ := h.exists_of_visible here visible
    obtain ⟨older, newer, split⟩ := List.append_of_mem hu
    have earlier : u :: older.reverse <:+ pre.reverse := by
      rw [split, List.reverse_append, List.reverse_cons, List.append_assoc]
      exact List.suffix_append _ _
    exact none u _ earlier ((h.offers_iff here earlier).2 visible)
  · exact hidden ⟨u.node, (h.offers_iff here earlier).1 offers⟩

/-- The nodes between two visits hide nothing if none of them is visible. -/
theorem latest_iff (here : pre ++ [v] <+: p.visits board) {u : Visit} {older newer : List Visit}
    (split : pre.reverse = newer ++ u :: older) :
    (∀ w mid, w :: mid <:+ newer → ¬ Offers x v.inside w (mid ++ u :: older)) ↔
      ∀ w ∈ newer, ¬ p.Visible found (pre.map (·.node)) v.node x w.node := by
  have within {w : Visit} {mid : List Visit} (suffix : w :: mid <:+ newer) :
      w :: (mid ++ u :: older) <:+ pre.reverse := by
    obtain ⟨front, rfl⟩ := suffix
    rw [split, List.append_assoc]
    exact List.suffix_append _ _
  refine ⟨fun none w hw => ?_, fun none w mid suffix => ?_⟩
  · obtain ⟨front, mid, rfl⟩ := List.append_of_mem hw
    have suffix : w :: mid <:+ front ++ w :: mid := List.suffix_append _ _
    rw [← h.offers_iff here (within suffix)]
    exact none w mid suffix
  · rw [h.offers_iff here (within suffix)]
    exact none w (suffix.subset List.mem_cons_self)

theorem binder_eq_some_iff (here : pre ++ [v] <+: p.visits board) {b : Node} :
    binder? x pre.reverse v.inside = some b ↔
      p.Binds found (pre.map (·.node)) v.node x b := by
  rw [binder?_eq_some_iff]
  refine ⟨?_, ?_⟩
  · rintro ⟨newer, u, older, split, rfl, offers, latest⟩
    have order : pre = older.reverse ++ u :: newer.reverse := by
      rw [← List.reverse_reverse pre, split]
      simp
    have earlier : u :: older <:+ pre.reverse := split ▸ List.suffix_append _ _
    refine ⟨older.reverse.map (·.node), newer.reverse.map (·.node), ?_,
      (h.offers_iff here earlier).1 offers, ?_⟩
    · rw [order, List.map_append, List.map_cons]
    · rw [List.forall_mem_map]
      exact fun w hw => (h.latest_iff here split).1 latest w (List.mem_reverse.1 hw)
  · rintro ⟨earlier, later, split, visible, latest⟩
    obtain ⟨l, r, rfl, rfl, rest⟩ := List.map_eq_append_iff.1 split
    obtain ⟨u, r, rfl, rfl, rfl⟩ := List.map_eq_cons_iff.1 rest
    have order : (l ++ u :: r).reverse = r.reverse ++ u :: l.reverse := by simp
    refine ⟨r.reverse, u, l.reverse, order, rfl, ?_, ?_⟩
    · rwa [h.offers_iff here (order ▸ List.suffix_append _ _)]
    · rw [List.forall_mem_map] at latest
      exact (h.latest_iff here order).2 fun w hw => latest w (List.mem_reverse.1 hw)

omit h in
theorem reaches_iff {before : List Node} {n : Node} : p.Reaches board before n ↔
    ∃ pre v, pre ++ [v] <+: p.visits board ∧ pre.map (·.node) = before ∧ v.node = n := by
  refine ⟨?_, ?_⟩
  · rintro ⟨rest, split⟩
    rw [itinerary, List.append_assoc, eq_comm, List.map_eq_append_iff] at split
    obtain ⟨pre, post, visits, rfl, split⟩ := split
    obtain ⟨v, post, rfl, rfl, -⟩ := List.map_eq_cons_iff.1 split
    exact ⟨pre, v, ⟨post, by rw [visits, List.append_assoc]; rfl⟩, rfl, rfl⟩
  · rintro ⟨pre, v, here, rfl, rfl⟩
    have nodes := here.map (·.node)
    rwa [List.map_append] at nodes

/-- A visited declaration brings its name into scope if it repeats none. -/
theorem mem_declares_iff {n : Node} :
    (n, x) ∈ gather declares (p.visits board).reverse ↔
      n ∈ p.itinerary board ∧ n.declared? = some x ∧ ¬ n.Gets .duplicateVariable found := by
  have step {u : Visit} {older : List Visit} : (n, x) ∈ declares u older ↔
      u.node = n ∧ n.declared? = some x ∧ binder? x older u.inside = none := by
    simp only [declares, List.mem_map, List.mem_filter, Option.mem_toList,
      Option.isNone_iff_eq_none, Prod.mk.injEq]
    refine ⟨?_, ?_⟩
    · rintro ⟨y, ⟨declared, fresh⟩, rfl, rfl⟩
      exact ⟨rfl, declared, fresh⟩
    · rintro ⟨rfl, declared, fresh⟩
      exact ⟨x, ⟨declared, fresh⟩, rfl, rfl⟩
  simp only [mem_gather_iff, step]
  refine ⟨?_, ?_⟩
  · rintro ⟨u, older, suffix, rfl, declared, fresh⟩
    have here := suffix_iff.1 suffix
    refine ⟨List.mem_map_of_mem (here.subset (by simp)), declared, ?_⟩
    rwa [h.gets_duplicate here declared, not_not, List.reverse_reverse]
  · rintro ⟨visited, declared, once⟩
    obtain ⟨u, hu, rfl⟩ := List.mem_map.1 visited
    obtain ⟨pre, post, split⟩ := List.append_of_mem hu
    have here : pre ++ [u] <+: p.visits board := ⟨post, by rw [split, List.append_assoc]; rfl⟩
    rw [h.gets_duplicate here declared, not_not] at once
    exact ⟨u, pre.reverse, by rwa [suffix_iff, List.reverse_reverse], rfl, declared, once⟩

/-- A declaration is used where its name belongs to it. -/
theorem mem_uses_iff {n : Node} (visited : n ∈ p.itinerary board)
    (declared : n.declared? = some x) :
    n.id ∈ gather uses (p.visits board).reverse ↔
      ∃ before m, p.Reaches board before m ∧ m.used? = some x ∧ p.Binds found before m x n := by
  have step {u : Visit} {older : List Visit} : n.id ∈ uses u older ↔
      ∃ y b, u.node.used? = some y ∧ binder? y older u.inside = some b ∧ b.id = n.id := by
    simp [uses]
  simp only [mem_gather_iff, step]
  refine ⟨?_, ?_⟩
  · rintro ⟨u, older, suffix, y, b, used, bound, same⟩
    have here := suffix_iff.1 suffix
    rw [← List.reverse_reverse older, h.binder_eq_some_iff here] at bound
    obtain ⟨earlier, later, split, visible, latest⟩ := bound
    obtain ⟨w, hw, rfl⟩ := h.exists_of_visible here visible
    obtain ⟨v, hv, rfl⟩ := List.mem_map.1 visited
    have before := (List.prefix_append older.reverse [u]).trans here
    have node := h.laid.eq_of_id (h.laid.mem_walk_of_visits (before.subset hw))
      (h.laid.mem_walk_of_visits hv) same
    rw [node] at visible split
    -- the name that is used is the one that is declared
    have name : y = x := by
      rcases visible with ⟨-, declares, -⟩ | ⟨-, loop, -⟩
      · exact Option.some.inj (declares.symm.trans declared)
      · rw [v.node.loopVar?_of_declared? declared] at loop
        cases loop
    subst name
    exact ⟨_, u.node, reaches_iff.2 ⟨_, u, here, rfl, rfl⟩, used, earlier, later, split, visible,
      latest⟩
  · rintro ⟨before, m, reaches, used, binds⟩
    obtain ⟨pre, v, here, rfl, rfl⟩ := reaches_iff.1 reaches
    exact ⟨v, pre.reverse, by rwa [suffix_iff, List.reverse_reverse], x, n, used,
      (h.binder_eq_some_iff here).2 binds, rfl⟩

end Traced

/-- The findings of a run on a program that was read are told by its visits. -/
theorem traced_validate {registry : KindRegistry} {d : Document} {p : Program} {s s' : Supply}
    (read : (ofDocument registry d).run s = (.ok p, s')) {platform : Platform}
    (known : platform.Known) (config : HardwareConfig) :
    p.Traced platform.board (platform.validate p config).diagnostics.toList := by
  have laid := laid_of_ofDocument read
  have tracks := Checker.tracks_explored known.modest laid config
  refine ⟨laid, tracks.nested, fun code name n => ?_⟩
  rw [← tracks.faults, List.mem_filterMap, Platform.diagnostics_validate]
  simp only [List.mem_cons, List.not_mem_nil, or_false] at name
  have told (d : Diagnostic) : d.nameFault? = some (code, some n.location) ↔
      d.code = code ∧ d.location = some n.location := by
    unfold Diagnostic.nameFault?
    split
    · rw [Option.some.injEq, Prod.mk.injEq]
    · next other =>
      refine ⟨fun same => absurd same.symm (Option.some_ne_none _), fun same => ?_⟩
      rw [same.1] at other
      exact absurd name other
  simp only [told]
  refine exists_congr fun d => ?_
  rw [List.mem_append, and_congr_left]
  rintro ⟨same, -⟩
  refine or_iff_left fun mem => ?_
  obtain ⟨declaration, -, rfl⟩ := List.mem_map.1 mem
  rw [← same] at name
  exact absurd name (by simp [Checker.unusedWarning]; decide)

/-- Names are resolved by the scoping rule. -/
theorem resolved_validate {registry : KindRegistry} {d : Document} {p : Program} {s s' : Supply}
    (read : (ofDocument registry d).run s = (.ok p, s')) {platform : Platform}
    (known : platform.Known) (config : HardwareConfig) :
    p.Resolved platform.board (platform.validate p config).diagnostics.toList := by
  have traced := traced_validate read known config
  have tracks := Checker.tracks_explored known.modest traced.laid config
  refine ⟨traced.laid.mem_itinerary_iff, ?_, ?_, ?_, ?_⟩
  · rw [itinerary, List.map_map]
    exact traced.laid.nodup_visits _
  · intro before n x reaches used
    obtain ⟨pre, v, here, rfl, rfl⟩ := Traced.reaches_iff.1 reaches
    rw [traced.gets_undeclared here used, traced.binder_eq_none_iff here]
  · intro before n x reaches declared
    obtain ⟨pre, v, here, rfl, rfl⟩ := Traced.reaches_iff.1 reaches
    rw [traced.gets_duplicate here declared, traced.binder_eq_none_iff here, not_not]
  · refine ⟨_, _, Platform.diagnostics_validate platform p config, tracks.early, ?_, fun n x => ?_⟩
    · have order := Visit.sublist_declares (p.visits platform.board).reverse
      rw [List.reverse_reverse, ← tracks.declared] at order
      exact (List.filter_sublist.map Prod.fst).trans order
    · rw [Checker.unused, List.mem_filter, tracks.declared, traced.mem_declares_iff, and_assoc,
        and_assoc]
      refine and_congr_right fun visited => and_congr_right fun declared =>
        and_congr_right fun _ => ?_
      rw [Bool.not_eq_true', ← Bool.not_eq_true, tracks.used, traced.mem_uses_iff visited declared]
      simp only [not_exists, not_and]

end Program

/-- A start block with a variable, and a loop that sets the variable to nothing. -/
def looping : Document where
  formatVersion := "3.1"
  instances := [{ blocks := [
    .mk {
      id := "a", type := "robControls_start", fields := [⟨"DEBUG", "FALSE"⟩]
      statements := [⟨"ST", [.mk {
        id := "b", type := "robGlobalVariables_declare"
        fields := [⟨"VAR", "x"⟩, ⟨"TYPE", "Number"⟩] }]⟩] },
    .mk {
      id := "c", type := "controls_for", fields := [⟨"VAR", "i"⟩]
      statements := [⟨"DO", [.mk {
        id := "d", type := "variables_set", fields := [⟨"VAR", "x"⟩] }]⟩] }] }]

/-- What is read of a slot without a block. -/
def nothingAt (number : Nat) : Node := .mk { id := ⟨number⟩, sealed := true } .emptyExpr

def chainAt (number : Nat) (statements : List Node) : Node :=
  .mk { id := ⟨number⟩, sealed := true } (.stmtList statements)

def blockAt (number : Nat) (blockId : String) (phrase : Phrase Node) : Node :=
  .mk { id := ⟨number⟩, sealed := true, blockId := blockId } phrase

/-- What is read from the document. -/
def loopingProgram : Program where
  formatVersion := "3.1"
  instances := [⟨0, 0, chainAt 12 [
    blockAt 4 "a" (.mainTask false
      (chainAt 3 [blockAt 2 "b" (.varDeclaration "x" .number (nothingAt 1))])),
    blockAt 11 "c" (.forLoop "i" (nothingAt 5) (nothingAt 6) (nothingAt 7)
      (chainAt 10 [blockAt 9 "d" (.assign "x" (nothingAt 8))]))]⟩]

theorem ofDocument_looping :
    (Program.ofDocument .core looping).run {} = (.ok loopingProgram, { next := 13 }) := by
  cbv

theorem Program.resolved_validate_looping :
    (ofDocument .core looping).run {} = (.ok loopingProgram, { next := 13 }) ∧
      loopingProgram.Resolved Boards.ev3.board
        (Boards.ev3.validate loopingProgram { robot := "ev3" }).diagnostics.toList :=
  ⟨ofDocument_looping, resolved_validate ofDocument_looping (.inl ⟨"ev3", rfl⟩) { robot := "ev3" }⟩

end BlockGraph

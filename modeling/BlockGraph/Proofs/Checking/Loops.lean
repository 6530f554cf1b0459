import BlockGraph.Proofs.Checking.Scoping

/-!
# Jumps outside of loops

A jump belongs to the innermost loop around it, as long as there is no method between them. A check
comes to the children of a node straight on, through the body of a loop or through that of a method,
and this tells which jumps are outside of loops.

* `Node.strays`: the jumps below a node that are outside of loops, as a round comes to them.
* `Node.Loops`, `Node.Shields`: the loops around a node and the methods between, told by the paths
  in the tree.
* `Node.mem_strays_iff`: both agree.
-/

namespace BlockGraph

/-! ## Ways down -/

/-- How a check comes from a node to one of its children. -/
inductive Way where
  | straight
  /-- Through the body of a loop. -/
  | loop
  /-- Through the body of a method. -/
  | method
  deriving DecidableEq

/-- Whether one is outside of loops after a way, given whether one was before. -/
def Way.free : Way → Bool → Bool
  | straight, free => free
  | loop, _ => false
  | method, _ => true

namespace Phrase

variable {α β : Type} {board : Board} {round : Round}

/-- The body of a loop. -/
def loopBody? : Phrase α → Option α
  | repeatTimes _ body | whileUntil _ _ body | forLoop _ _ _ _ body => some body
  | _ => none

/-- The jump of a phrase. -/
def jump? : Phrase α → Option Flow
  | flowControl flow => some flow
  | _ => none

/-- The children that a check comes to in a round, with the ways there. -/
def ways (board : Board) (round : Round) : Phrase α → List (Way × α)
  | repeatTimes times body => [(.straight, times), (.loop, body)]
  | whileUntil _ condition body => [(.straight, condition), (.loop, body)]
  | forLoop _ start stop step body =>
    [(.straight, start), (.straight, stop), (.straight, step), (.loop, body)]
  | methodDef _ body => [(.method, body)]
  | p => (p.before ++ p.after board round).map (.straight, ·)

theorem jump?_eq_some_iff {p : Phrase α} {flow : Flow} :
    p.jump? = some flow ↔ p = .flowControl flow := by
  cases p <;> simp [jump?]

theorem jump?_map (f : α → β) (p : Phrase α) : (p.map f).jump? = p.jump? := by
  cases p <;> rfl

theorem ways_map (f : α → β) (p : Phrase α) :
    (p.map f).ways board round = (p.ways board round).map (Prod.map id f) := by
  have rest (q : Phrase α) :
      ((q.map f).before ++ (q.map f).after board round).map (Way.straight, ·) =
        ((q.before ++ q.after board round).map (Way.straight, ·)).map (Prod.map id f) := by
    rw [before_map, after_map, ← List.map_append, List.map_map, List.map_map]
    rfl
  cases p with
  | repeatTimes | whileUntil | forLoop | methodDef => rfl
  | _ => exact rest _

/-- A check comes to the children that it comes to when it deals with names. -/
theorem map_snd_ways (p : Phrase α) :
    (p.ways board round).map Prod.snd = p.before ++ p.after board round ++ p.ownBody?.toList := by
  have rest (q : Phrase α) :
      ((q.before ++ q.after board round).map (Way.straight, ·)).map Prod.snd =
        q.before ++ q.after board round := by
    rw [List.map_map]
    exact List.map_id _
  cases p with
  | repeatTimes | whileUntil | forLoop | methodDef => rfl
  | _ => exact (rest _).trans (List.append_nil _).symm

/-- A check comes to the children that its round goes on to. -/
theorem exists_way_iff {p : Phrase α} (paired : p.Paired) {c : α} :
    (∃ way, (way, c) ∈ p.ways board round) ↔ p.Opens board round ∧ c ∈ p.children := by
  rw [← mem_visited_iff paired, ← map_snd_ways, List.mem_map]
  simp

theorem way_loop_iff {p : Phrase α} {c : α} :
    (Way.loop, c) ∈ p.ways board round ↔ p.loopBody? = some c := by
  cases p <;> simp [ways, loopBody?, eq_comm]

theorem way_method {p : Phrase α} {c : α} (way : (Way.method, c) ∈ p.ways board round) :
    p.kind = .methodDef := by
  cases p with
  | methodDef => rfl
  | _ => simp [ways] at way

theorem kind_ne_of_way {p : Phrase α} {way : Way} {c : α} (mem : (way, c) ∈ p.ways board round)
    (other : way ≠ .method) : p.kind ≠ .methodDef := by
  cases p with
  | methodDef name body =>
    obtain ⟨rfl, -⟩ := Prod.mk.inj (List.mem_singleton.1 mem)
    exact absurd rfl other
  | _ => exact Kind.noConfusion

theorem kind_ne_of_loopBody? {p : Phrase α} {c : α} (body : p.loopBody? = some c) :
    p.kind ≠ .methodDef ∧ p.kind ≠ .stmtList := by
  cases p with
  | methodDef | stmtList => cases body
  | _ => exact ⟨Kind.noConfusion, Kind.noConfusion⟩

theorem mem_children_of_loopBody? {p : Phrase α} {c : α} (body : p.loopBody? = some c) :
    c ∈ p.children := by
  cases p <;> cases body <;> simp [children, slots, SlotValue.nodes]

theorem mem_children_of_way {p : Phrase α} {way : Way} {c : α}
    (mem : (way, c) ∈ p.ways board round) : c ∈ p.children := by
  have there := List.mem_map_of_mem (f := Prod.snd) mem
  rw [map_snd_ways] at there
  exact (p.subperm_children board round).subset there

end Phrase

namespace Node

variable {board : Board} {round : Round}

/-! ## Paths -/

theorem exists_below_of_mem_walk {root n : Node} (mem : n ∈ root.walk) :
    ∃ ancestors, root.Below ancestors n := by
  induction root using Node.induction with
  | step root ih =>
    rcases mem_walk_iff.1 mem with rfl | ⟨c, hc, mem⟩
    · exact ⟨[], .refl _⟩
    · obtain ⟨ancestors, below⟩ := ih c hc mem
      exact ⟨_, .child hc below⟩

section Distinct

variable {n : Node} (distinct : n.ids.Nodup)

include distinct

theorem nodup_children : n.children.Nodup := by
  rw [ids_eq, List.nodup_cons, List.nodup_flatMap] at distinct
  refine distinct.2.2.imp fun {c d} apart => ?_
  rintro rfl
  exact apart (id_mem_ids c.mem_walk_self) (id_mem_ids c.mem_walk_self)

/-- A check comes to every child in one way. -/
theorem nodup_ways (board : Board) (round : Round) :
    ((n.phrase.ways board round).map Prod.snd).Nodup := by
  rw [Phrase.map_snd_ways]
  obtain ⟨l, perm, sub⟩ := n.phrase.subperm_children board round
  exact perm.nodup_iff.1 ((nodup_children distinct).sublist sub)

/-- There is one path to a node. -/
theorem Below.unique {m : Node} {before after : List Node} (left : n.Below before m)
    (right : n.Below after m) : before = after := by
  induction left generalizing after with
  | refl m =>
    cases right with
    | refl => rfl
    | child mem below =>
      exact absurd (id_mem_ids below.mem_walk) (id_notMem_ids distinct mem)
  | @child root c m before mem below ih =>
    have inside := id_mem_ids below.mem_walk
    cases right with
    | refl => exact absurd inside (id_notMem_ids distinct mem)
    | child mem' below' =>
      obtain rfl := eq_of_mem_ids distinct mem mem' inside
        (id_mem_ids below'.mem_walk)
      rw [ih (nodup_ids_of_mem_children distinct mem) below']

end Distinct

/-! ## Loops and methods around a node -/

/-- Whether `n` is in the body of a loop at or below `root` without a method between. -/
def Loops (root n : Node) : Prop :=
  ∃ m ∈ root.walk, ∃ body ancestors, m.phrase.loopBody? = some body ∧ body.Below ancestors n ∧
    ∀ k ∈ ancestors, k.kind ≠ .methodDef

/-- Whether there is a method on the way from `root` to `n`. -/
def Shields (root n : Node) : Prop :=
  ∃ ancestors, root.Below ancestors n ∧ ∃ k ∈ ancestors, k.kind = .methodDef

section Child

variable {n c m : Node} (distinct : n.ids.Nodup) (child : c ∈ n.children) (mem : m ∈ c.walk)

include distinct child mem

theorem shields_iff : n.Shields m ↔ n.kind = .methodDef ∨ c.Shields m := by
  constructor
  · rintro ⟨_, below, k, hk, method⟩
    cases below with
    | refl => cases hk
    | @child _ d _ ancestors there below =>
      obtain rfl := eq_of_mem_ids distinct there child (id_mem_ids below.mem_walk)
        (id_mem_ids mem)
      rcases List.mem_cons.1 hk with rfl | hk
      · exact .inl method
      · exact .inr ⟨ancestors, below, k, hk, method⟩
  · rintro (method | ⟨ancestors, below, k, hk, method⟩)
    · obtain ⟨ancestors, below⟩ := exists_below_of_mem_walk mem
      exact ⟨_, .child child below, n, List.mem_cons_self, method⟩
    · exact ⟨_, .child child below, k, List.mem_cons_of_mem _ hk, method⟩

theorem loops_iff :
    n.Loops m ↔ n.phrase.loopBody? = some c ∧ ¬ c.Shields m ∨ c.Loops m := by
  have here : m.id ∈ c.ids := id_mem_ids mem
  constructor
  · rintro ⟨k, hk, body, ancestors, loop, below, between⟩
    have inner : body ∈ k.children := Phrase.mem_children_of_loopBody? loop
    rcases mem_walk_iff.1 hk with rfl | ⟨d, hd, hk⟩
    · obtain rfl := eq_of_mem_ids distinct inner child (id_mem_ids below.mem_walk) here
      refine .inl ⟨loop, ?_⟩
      rintro ⟨others, below', k, hk, method⟩
      obtain rfl := Below.unique (nodup_ids_of_mem_children distinct child) below below'
      exact between k hk method
    · have up := walk_subset hk (walk_subset (mem_walk_of_mem_children inner) below.mem_walk)
      obtain rfl := eq_of_mem_ids distinct hd child (id_mem_ids up) here
      exact .inr ⟨k, hk, body, ancestors, loop, below, between⟩
  · rintro (⟨loop, open'⟩ | ⟨k, hk, rest⟩)
    · obtain ⟨ancestors, below⟩ := exists_below_of_mem_walk mem
      exact ⟨n, n.mem_walk_self, c, ancestors, loop, below, fun k hk method =>
        open' ⟨ancestors, below, k, hk, method⟩⟩
    · exact ⟨k, mem_walk_iff.2 (.inr ⟨c, child, hk⟩), rest⟩

/-- What a way makes of being outside of loops is what the tree says. -/
theorem outside_iff {way : Way} (there : (way, c) ∈ n.phrase.ways board round) (free : Bool) :
    ¬ c.Loops m ∧ (way.free free = true ∨ c.Shields m) ↔
      ¬ n.Loops m ∧ (free = true ∨ n.Shields m) := by
  rw [shields_iff distinct child mem, loops_iff distinct child mem]
  have kind := Phrase.kind_ne_of_way there
  cases way with
  | straight =>
    have other : n.phrase.loopBody? ≠ some c := by
      intro loop
      have both := List.inj_on_of_nodup_map (nodup_ways distinct board round) there
        (Phrase.way_loop_iff.2 loop) rfl
      cases both
    have method : n.kind ≠ .methodDef := kind (by decide)
    simp [other, method, Way.free]
  | loop =>
    have method : n.kind ≠ .methodDef := kind (by decide)
    have loop := Phrase.way_loop_iff.1 there
    simp only [loop, method, Way.free]
    tauto
  | method =>
    have method : n.kind = .methodDef := Phrase.way_method there
    have none : n.phrase.loopBody? ≠ some c := fun loop =>
      (Phrase.kind_ne_of_loopBody? loop).1 method
    simp [none, method, Way.free]

end Child

/-! ## Jumps outside of loops -/

/-- The jumps below and including a node that a round comes to outside of loops. -/
def strays (board : Board) (round : Round) : Node → Bool → List (Node × Flow) :=
  recurse fun n p free =>
    if n.isActive then
      (p.jump?.toList.filter fun _ => free).map (n, ·) ++
        (p.ways board round).flatMap fun e => e.2.result (e.1.free free)
    else []

/-- The jumps at a node and below its children. -/
theorem strays_eq (board : Board) (round : Round) (n : Node) (free : Bool) :
    n.strays board round free =
      if n.isActive then
        (n.phrase.jump?.toList.filter fun _ => free).map (n, ·) ++
          (n.phrase.ways board round).flatMap fun e => e.2.strays board round (e.1.free free)
      else [] := by
  rw [strays, recurse_eq, Phrase.jump?_map, Phrase.ways_map, List.flatMap_map]
  rfl

theorem strays_of_isEmptyExpr {n : Node} (empty : n.phrase.isEmptyExpr = true) (free : Bool) :
    n.strays board round free = [] := by
  rw [strays_eq]
  cases phrase : n.phrase with
  | emptyExpr => exact ite_self _
  | _ => rw [phrase] at empty; cases empty

variable {n m : Node} {flow : Flow} {free : Bool}

theorem mem_strays : (m, flow) ∈ n.strays board round free ↔ n.isActive = true ∧
    ((m = n ∧ n.phrase = .flowControl flow ∧ free = true) ∨
      ∃ way c, (way, c) ∈ n.phrase.ways board round ∧
        (m, flow) ∈ c.strays board round (way.free free)) := by
  rw [strays_eq]
  split
  swap
  · next inactive => simp [inactive]
  next active =>
  rw [List.mem_append, List.mem_map, List.mem_flatMap, ← Phrase.jump?_eq_some_iff,
    and_iff_right active]
  refine or_congr ?_ ?_
  · simp only [List.mem_filter, Option.mem_toList, Prod.mk.injEq]
    constructor
    · rintro ⟨_, ⟨jump, outside⟩, rfl, rfl⟩
      exact ⟨rfl, jump, outside⟩
    · rintro ⟨rfl, jump, outside⟩
      exact ⟨flow, ⟨jump, outside⟩, rfl, rfl⟩
  · simp only [Prod.exists]

/-- A jump has nothing below it. -/
theorem children_of_jump (jump : n.phrase = .flowControl flow) : n.children = [] := by
  rw [children, jump]
  rfl

theorem not_loops_self (jump : n.phrase = .flowControl flow) : ¬ n.Loops n := by
  rintro ⟨m, hm, body, ancestors, loop, -⟩
  rw [walk_eq, children_of_jump jump] at hm
  obtain rfl := List.mem_singleton.1 hm
  rw [jump] at loop
  cases loop

theorem not_shields_self (jump : n.phrase = .flowControl flow) : ¬ n.Shields n := by
  rintro ⟨ancestors, below, k, hk, -⟩
  cases below with
  | refl => cases hk
  | child mem => rw [children_of_jump jump] at mem; cases mem

/-- The jumps that a round comes to outside of loops are those that it visits in no loop, as far as
they are outside of loops at the root or in a method below it. -/
theorem mem_strays_iff (distinct : n.ids.Nodup) (paired : ∀ k ∈ n.walk, k.phrase.Paired) :
    (m, flow) ∈ n.strays board round free ↔ n.Leads board round m ∧
      m.phrase = .flowControl flow ∧ ¬ n.Loops m ∧ (free = true ∨ n.Shields m) := by
  induction n using Node.induction generalizing free with
  | step n ih =>
    rw [walk_eq, List.forall_mem_cons, List.forall_mem_flatMap] at paired
    have inner {c : Node} (child : c ∈ n.children) {free : Bool} :=
      @ih c child free (nodup_ids_of_mem_children distinct child) (paired.2 c child)
    rw [mem_strays, leads_iff, and_assoc]
    refine and_congr_right fun active => ?_
    constructor
    · rintro (⟨rfl, jump, outside⟩ | ⟨way, c, there, mem⟩)
      · exact ⟨.inl rfl, jump, not_loops_self jump, .inl outside⟩
      · obtain ⟨opens, child⟩ := (Phrase.exists_way_iff paired.1).1 ⟨way, there⟩
        obtain ⟨leads, jump, outside⟩ := (inner child).1 mem
        exact ⟨.inr ⟨opens, c, child, leads⟩, jump,
          (outside_iff distinct child leads.mem_walk there free).1 outside⟩
    · rintro ⟨rfl | ⟨opens, c, child, leads⟩, jump, outside⟩
      · exact .inl ⟨rfl, jump, outside.2.resolve_right (not_shields_self jump)⟩
      · obtain ⟨way, there⟩ := (Phrase.exists_way_iff paired.1).2 ⟨opens, child⟩
        exact .inr ⟨way, c, there, (inner child).2
          ⟨leads, jump, (outside_iff distinct child leads.mem_walk there free).2 outside⟩⟩

/-- A round comes to every jump once at most. -/
theorem subperm_ids_strays (board : Board) (round : Round) (n : Node) (free : Bool) :
    ((n.strays board round free).map (·.1.id)).Subperm n.ids := by
  induction n using Node.induction generalizing free with
  | step n ih =>
    rw [strays_eq]
    split
    swap
    · exact List.nil_subperm
    have self : (((n.phrase.jump?.toList.filter fun _ => free).map (n, ·)).map
        (·.1.id)).Subperm [n.id] := by
      cases n.phrase.jump? with
      | none => exact List.nil_subperm
      | some flow => cases free <;> simp
    have others : (((n.phrase.ways board round).flatMap fun e =>
        e.2.strays board round (e.1.free free)).map (·.1.id)).Subperm
          (((n.phrase.ways board round).map Prod.snd).flatMap ids) := by
      rw [List.map_flatMap, List.flatMap_map]
      exact Phrase.subperm_flatMap fun e he => ih e.2 (Phrase.mem_children_of_way he) _
    rw [List.map_append, ids_eq]
    refine (self.append others).trans ?_
    rw [Phrase.map_snd_ways]
    obtain ⟨l, perm, sub⟩ := n.phrase.subperm_children board round
    exact ((perm.symm.flatMap_right ids).cons n.id).subperm.trans
      ((List.subperm_cons n.id).2 (sub.flatMap ids).subperm)

end Node

end BlockGraph

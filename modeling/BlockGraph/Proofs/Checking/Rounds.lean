import BlockGraph.Proofs.Checking.Hardware
import BlockGraph.Proofs.Checking.Scoping

/-!
# The two rounds

A run goes through the start blocks on the canvas first and then through all chains, without the
start blocks. If the chains are on the canvas and no node is at two places, it comes to no node
twice.

* `Program.Laid`: a program in which the chains are on the canvas and no node is at two places.
* `Program.inRounds`: what the two rounds make of a program.
* `Program.Laid.nodup_inRounds`: the rounds are apart.
-/

namespace BlockGraph

/-! ## Programs whose chains are on the canvas -/

/-- The statements of the chains on the canvas, inactive ones included. -/
def Program.statements (p : Program) : List Node := p.instances.flatMap Instance.statements

/-- A program with active chains on the canvas, in which no node is at two places. -/
structure Program.Laid (p : Program) : Prop where
  distinct : p.ids.Nodup
  paired : ∀ n ∈ p.walk, n.phrase.Paired
  chain : ∀ i ∈ p.instances, i.body.isActive = true ∧
    ∃ statements, i.body.phrase = .stmtList statements

/-- What the two rounds of a run make of a program, given what they make of single nodes. -/
def Program.inRounds {β : Type} (p : Program) (f : Round → Node → List β) : List β :=
  ((Checker.topLevel p).filter (·.kind = .mainTask)).flatMap (f .declarations) ++
    p.instances.flatMap fun i => f .chains i.body

/-- A program that was read is laid out on the canvas. -/
theorem Program.laid_of_ofDocument {registry : KindRegistry} {d : Document} {p : Program}
    {s s' : Supply} (read : (ofDocument registry d).run s = (.ok p, s')) : p.Laid where
  distinct := (ids_of_ofDocument read).2.1
  paired n hn := (regular_of_ofDocument read n hn).paired
  chain := chain_of_ofDocument read

/-- The second round goes through the chains statement by statement. -/
theorem Program.inRounds_eq {β : Type} {p : Program} {f : Round → Node → List β}
    (chain : ∀ i ∈ p.instances, f .chains i.body = i.statements.flatMap (f .chains)) :
    p.inRounds f = (p.statements.filter fun n => n.kind = .mainTask && n.isActive).flatMap
      (f .declarations) ++ p.statements.flatMap (f .chains) := by
  rw [inRounds, Checker.topLevel, List.filter_filter, statements, List.flatMap_assoc,
    List.flatMap_congr chain]

theorem Program.map_inRounds {β γ : Type} (g : β → γ) (p : Program) (f : Round → Node → List β) :
    (p.inRounds f).map g = p.inRounds fun round n => (f round n).map g := by
  rw [inRounds, inRounds, List.map_append, List.map_flatMap, List.map_flatMap]

namespace Program.Laid

variable {p : Program} (laid : p.Laid) {board : Board}

include laid

theorem children_eq {i : Instance} (hi : i ∈ p.instances) : i.body.children = i.statements := by
  obtain ⟨statements, phrase⟩ := (laid.chain i hi).2
  rw [Node.children, Instance.statements, Node.statements, phrase]
  rfl

theorem walk_subset {n : Node} (mem : n ∈ p.statements) : n.walk ⊆ p.walk := by
  obtain ⟨i, hi, child⟩ := List.mem_flatMap.1 mem
  rw [← laid.children_eq hi] at child
  exact List.Subset.trans (Node.walk_subset (Node.mem_walk_of_mem_children child))
    (Program.body_walk_subset hi)

theorem eq_of_id {m n : Node} (hm : m ∈ p.walk) (hn : n ∈ p.walk) (same : m.id = n.id) : m = n :=
  List.inj_on_of_nodup_map laid.distinct hm hn same

/-- The statements on the canvas are apart from each other. -/
theorem nodup_statements : (p.statements.flatMap Node.ids).Nodup := by
  refine List.Nodup.sublist ?_ laid.distinct
  rw [Program.ids_eq, statements, List.flatMap_assoc]
  refine List.Sublist.flatMap_right _ fun i hi => ?_
  rw [Node.ids_eq, laid.children_eq hi]
  exact List.sublist_cons_self _ _

/-- What has a node below it is below the same statement, unless it is a chain on the canvas. -/
theorem mem_walk_of_child {m c n w : Node} (hm : m ∈ p.walk) (child : c ∈ m.children)
    (inside : w ∈ c.walk) (other : m.kind ≠ .stmtList) (hn : n ∈ p.statements)
    (below : w ∈ n.walk) : m ∈ n.walk := by
  obtain ⟨i, hi, there⟩ := List.mem_flatMap.1 hm
  rcases Node.mem_walk_iff.1 there with rfl | ⟨t, ht, there⟩
  · obtain ⟨statements, phrase⟩ := (laid.chain i hi).2
    rw [Node.kind, phrase] at other
    exact absurd rfl other
  · rw [laid.children_eq hi] at ht
    have up := Node.walk_subset there
      (Node.walk_subset (Node.mem_walk_of_mem_children child) inside)
    have same := eq_of_nodup_flatMap laid.nodup_statements
      (List.mem_flatMap.2 ⟨i, hi, ht⟩) hn (Node.id_mem_ids up) (Node.id_mem_ids below)
    exact same ▸ there

/-! ## Rounds -/

/-- A run checks what the first round comes to in a start block, and what the second comes to. -/
theorem checked_iff {n : Node} : Checker.Checked board p n ↔
    (∃ t ∈ Checker.topLevel p, t.kind = .mainTask ∧ t.Leads board .declarations n) ∨
      ∃ i ∈ p.instances, i.body.Leads board .chains n := by
  rw [← Checker.does_check_iff laid.chain]
  simp [Checker.Does, Checker.Tour]

/-- What both rounds make of the nodes that they come to is made of the nodes that a run checks. -/
theorem mem_inRounds_iff {β : Type} {f : Round → Node → List β} {b : β} {n : Node} {P : Prop}
    (start : ∀ t ∈ Checker.topLevel p,
      b ∈ f .declarations t ↔ t.Leads board .declarations n ∧ P)
    (chain : ∀ i ∈ p.instances, b ∈ f .chains i.body ↔ i.body.Leads board .chains n ∧ P) :
    b ∈ p.inRounds f ↔ Checker.Checked board p n ∧ P := by
  rw [laid.checked_iff, Program.inRounds, List.mem_append, List.mem_flatMap, List.mem_flatMap,
    or_and_right]
  refine or_congr ?_ ?_
  · simp only [List.mem_filter, decide_eq_true_eq]
    constructor
    · rintro ⟨t, ⟨top, kind⟩, mem⟩
      obtain ⟨leads, rest⟩ := (start t top).1 mem
      exact ⟨⟨t, top, kind, leads⟩, rest⟩
    · rintro ⟨⟨t, top, kind, leads⟩, rest⟩
      exact ⟨t, ⟨top, kind⟩, (start t top).2 ⟨leads, rest⟩⟩
  · constructor
    · rintro ⟨i, hi, mem⟩
      obtain ⟨leads, rest⟩ := (chain i hi).1 mem
      exact ⟨⟨i, hi, leads⟩, rest⟩
    · rintro ⟨⟨i, hi, leads⟩, rest⟩
      exact ⟨i, hi, (chain i hi).2 ⟨leads, rest⟩⟩

/-- If a round comes to nothing twice and the second one leaves out start blocks, a run comes to
nothing twice. -/
theorem nodup_inRounds {f : Round → Node → List NodeId}
    (chain : ∀ i ∈ p.instances, f .chains i.body = i.statements.flatMap (f .chains))
    (start : ∀ n : Node, n.kind = .mainTask → f .chains n = [])
    (part : ∀ round n, (f round n).Subperm n.ids) : (p.inRounds f).Nodup := by
  let first (n : Node) : Bool := n.kind = .mainTask && n.isActive
  let starts := p.statements.filter first
  let others := p.statements.filter fun n => !first n
  have split : (starts ++ others).Perm p.statements := List.filter_append_perm first p.statements
  have idle : starts.flatMap (f .chains) = [] := by
    rw [List.flatMap_eq_nil_iff]
    intro n hn
    have kind := (Bool.and_eq_true_iff.1 (List.mem_filter.1 hn).2).1
    exact start n (of_decide_eq_true kind)
  have chains := split.flatMap_right (f .chains)
  rw [List.flatMap_append, idle, List.nil_append] at chains
  rw [Program.inRounds_eq chain,
    (chains.symm.append_left (starts.flatMap (f .declarations))).nodup_iff]
  have parts (l : List Node) (round : Round) : (l.flatMap (f round)).Subperm (l.flatMap Node.ids) :=
    Phrase.subperm_flatMap fun n _ => part round n
  obtain ⟨l, same, sub⟩ := (parts starts .declarations).append (parts others .chains)
  rw [← List.flatMap_append] at sub
  have distinct := (split.flatMap_right Node.ids).nodup_iff.2 laid.nodup_statements
  exact same.nodup_iff.1 (distinct.sublist sub)

end Program.Laid

end BlockGraph

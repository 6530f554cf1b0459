import BlockGraph.Proofs.Rewrite.Folding

/-!
# Programs in which nothing is left to fold

One run of constant folding goes as far as folding goes: a second run finds no operator on
constants, keeps every node and counts nothing. It does not matter what the constants say, nor
whether the numbers among them are spelled as they were read: an operator is replaced as soon as its
operands are folded, and what is left of it is no operator.

* `Node.folded_eq_self_iff_forall`: what a tree in which nothing is left to fold looks like.
* `Node.folded_folded`: a folded tree is one.
* `Node.foldConstants_gives_self`: a run on such a tree keeps it.
* `Program.foldConstants_normal`: the same for a program that was read and then folded.
-/

namespace BlockGraph

theorem Phrase.rebuildable_of_isConstant {α : Type} {p : Phrase α} (h : p.isConstant = true) :
    p.Rebuildable := by
  cases p <;> first | exact .inr trivial | cases h

/-- A constant is not replaced again. -/
theorem Folding.Step.fold?_eq_none {p q : Phrase Node} (h : Step p q) : fold? q = none := by
  cases h <;> rfl

namespace Node

open Folding

variable {n : Node}

/-! ## Folded trees -/

/-- A tree is folded if no operator in it is one on constants. -/
theorem folded_eq_self_iff_forall : n.folded = n ↔ ∀ m ∈ n.walk, fold? m.phrase = none := by
  induction n using Node.induction with
  | step n ih =>
    rw [folded_eq_self_iff, walk_eq, List.forall_mem_cons, List.forall_mem_flatMap]
    exact and_congr_right fun _ => forall₂_congr ih

/-- Folding a folded tree changes nothing. -/
theorem folded_folded (n : Node) : n.folded.folded = n.folded := by
  induction n using Node.induction with
  | step n ih =>
    rw [folded_eq_self_iff]
    rcases step : fold? (n.phrase.map folded) with _ | q
    · rw [folded_of_none step]
      refine ⟨step, ?_⟩
      rw [children, phrase_mk, Phrase.children_map, List.forall_mem_map]
      exact ih
    · have step' := step_of_fold? step
      rw [folded_of_some step]
      refine ⟨step'.fold?_eq_none, ?_⟩
      rw [children, phrase_mk, step'.children]
      exact List.forall_mem_nil _

theorem fold?_folded (n : Node) : fold? n.folded.phrase = none :=
  (folded_eq_self_iff.1 n.folded_folded).1

/-- A folded node can be rebuilt like the node that it comes from. -/
theorem rebuildable_folded (whole : n.phrase.Rebuildable) : n.folded.phrase.Rebuildable := by
  rcases phrase_folded n with same | step
  · rw [same]
    exact (Phrase.rebuildable_map_iff _ _).2 whole
  · exact Phrase.rebuildable_of_isConstant step.isConstant

/-! ## Runs -/

/-- A run on a tree in which nothing is left to fold gives back this very tree. No number is used
up, so it does not matter which ones were handed out. -/
theorem foldConstants_gives_self (whole : ∀ m ∈ n.walk, m.phrase.Rebuildable)
    (normal : ∀ m ∈ n.walk, fold? m.phrase = none) (s : Nat × Supply) :
    n.foldConstants.Gives s n s := by
  induction n using Node.induction with
  | step n ih =>
    rw [walk_eq, List.forall_mem_cons, List.forall_mem_flatMap] at whole normal
    have children := Rewriting.gives_mapM_self fun c hc => ih c hc (whole.2 c hc) (normal.2 c hc)
    obtain ⟨q, -, -, rebuilt⟩ := rebuildChildren_gives whole.1 children
    rw [if_pos (all_isSame_self _), if_pos (all_isSame_self _)] at rebuilt
    have result := fold_rebuilt_gives rebuilt
    rw [normal.1] at result
    rw [foldConstants_eq]
    exact result

end Node

/-! ## Programs -/

namespace Program

variable {registry : KindRegistry} {d : Document} {p q : Program} {s s' : Supply}

/-- The nodes of a folded program can be rebuilt like those of the program itself. -/
theorem rebuildable_of_content (whole : ∀ n ∈ p.walk, n.phrase.Rebuildable)
    (content : q.plain = p.folded.plain) : ∀ m ∈ q.walk, m.phrase.Rebuildable := by
  intro m mem
  obtain ⟨n, hn, same⟩ := exists_of_content content mem
  have folded := Node.rebuildable_folded (whole n hn)
  rwa [← Phrase.rebuildable_map_iff Node.plain, (Node.plain_eq_iff.1 same).2.2.2,
    Phrase.rebuildable_map_iff]

/-- What the nodes of a program that was read and then folded look like. -/
theorem normal_of_content (read : (ofDocument registry d).run s = (.ok p, s'))
    (content : q.plain = p.folded.plain) {m : Node} (mem : m ∈ q.walk) :
    m.phrase.Rebuildable ∧ Folding.fold? m.phrase = none := by
  obtain ⟨n, hn, same⟩ := exists_of_content content mem
  have phrase := (Node.plain_eq_iff.1 same).2.2.2
  constructor
  · exact rebuildable_of_content (fun n hn => (regular_of_ofDocument read n hn).rebuildable)
      content m mem
  · rw [← Folding.fold?_map_plain, phrase, Folding.fold?_map_plain, Node.fold?_folded]

/-- After one run of folding on a program that was read, no operator is left that would be
replaced, and another run keeps every chain, with its id, and counts nothing. -/
theorem foldConstants_normal (read : (ofDocument registry d).run s = (.ok p, s')) {t : Supply}
    (later : s'.next ≤ t.next) (k : Nat) :
    ∃ q k' t', (p.foldConstants.runFrom k).run t = (.ok (q, k'), t') ∧
      (∀ n ∈ q.walk, Folding.fold? n.phrase = none) ∧
      ∀ i ∈ q.instances, ∀ u : Supply,
        (i.body.foldConstants.runFrom 0).run u = (.ok (i.body, 0), u) := by
  obtain ⟨q, u, given, content, -, -⟩ := exists_folds read (t := (k, t)) later
  have normal (n : Node) (hn : n ∈ q.walk) := normal_of_content read content hn
  refine ⟨q, u.1, u.2, Rewriting.runFrom_eq_ok_iff.2 given, fun n hn => (normal n hn).2,
    fun i hi u => Rewriting.runFrom_eq_ok_iff.2 ?_⟩
  have below {m : Node} (hm : m ∈ i.body.walk) : m ∈ q.walk := List.mem_flatMap.2 ⟨i, hi, hm⟩
  exact Node.foldConstants_gives_self (fun m hm => (normal m (below hm)).1)
    (fun m hm => (normal m (below hm)).2) (0, u)

/-- After its sum was folded, the product is left, and it stays. -/
theorem foldConstants_normal_product :
    ∃ s, (ofDocument .core product).run {} = (.ok productProgram, s) ∧
      ∃ q k' t', (productProgram.foldConstants.runFrom 0).run s = (.ok (q, k'), t') ∧
        (∀ n ∈ q.walk, Folding.fold? n.phrase = none) ∧
        ∀ i ∈ q.instances, ∀ u : Supply,
          (i.body.foldConstants.runFrom 0).run u = (.ok (i.body, 0), u) := by
  obtain ⟨s, read⟩ := exists_ofDocument_product
  exact ⟨s, read, foldConstants_normal read (Nat.le_refl _) 0⟩

end Program

end BlockGraph

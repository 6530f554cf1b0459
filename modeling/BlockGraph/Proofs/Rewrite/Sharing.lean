import BlockGraph.Proofs.Rewrite.Folding
import BlockGraph.Rewrite.Basic

/-!
# Sharing

Rewriting the children of a node keeps the node, with everything below it, unless a child was
exchanged. The children are rewritten one after the other, and the first failure ends it.

* `Rewriting.Calls`: the calls for the elements of a list.
* `Node.Rebuilt`: what a node comes to once these calls were made for its children.
* `Program.rebuilt_of_ofDocument`: `Node.rebuildChildren` does this at every node of a program that
  was read, whatever the pass does with the children.
-/

namespace BlockGraph

variable {σ α β : Type}

namespace Rewriting

variable {s s' t : σ × Supply} {e : Error}

/-! ## Failures -/

/-- The step fails with the error `e` and leaves the state `s'`. -/
def Fails (x : Rewriting σ α) (s : σ × Supply) (e : Error) (s' : σ × Supply) : Prop :=
  x.outcome s = ((.error e, s'.1), s'.2)

theorem gives_or_fails (x : Rewriting σ α) (s : σ × Supply) :
    (∃ a s', x.Gives s a s') ∨ ∃ e s', x.Fails s e s' := by
  unfold Gives Fails
  rcases x.outcome s with ⟨⟨e | a, k⟩, t⟩
  · exact .inr ⟨e, (k, t), rfl⟩
  · exact .inl ⟨a, (k, t), rfl⟩

theorem not_fails_pure {a : α} : ¬(pure a : Rewriting σ α).Fails s e s' := by
  intro h
  change ((Except.ok a, s.1), s.2) = ((Except.error e, s'.1), s'.2) at h
  cases congrArg (·.1.1) h

/-- A failure ends the step. -/
theorem Fails.bind {x : Rewriting σ α} (f : α → Rewriting σ β) (h : x.Fails s e s') :
    (x >>= f).Fails s e s' := by
  unfold Fails at h ⊢
  rw [outcome_bind, h]

theorem Gives.bind_fails {x : Rewriting σ α} {f : α → Rewriting σ β} {a : α}
    (given : x.Gives s a t) (h : (f a).Fails t e s') : (x >>= f).Fails s e s' := by
  unfold Gives at given
  unfold Fails
  rw [outcome_bind, given]
  exact h

theorem fails_bind_iff {x : Rewriting σ α} {f : α → Rewriting σ β} :
    (x >>= f).Fails s e s' ↔ x.Fails s e s' ∨ ∃ a t, x.Gives s a t ∧ (f a).Fails t e s' := by
  constructor
  · intro h
    rcases gives_or_fails x s with ⟨a, t, given⟩ | ⟨e', t, failed⟩
    · right
      unfold Gives at given
      unfold Fails at h
      rw [outcome_bind, given] at h
      exact ⟨a, t, given, h⟩
    · left
      have first := failed.bind f
      unfold Fails at h failed first ⊢
      rw [first] at h
      simp only [Prod.mk.injEq, Except.error.injEq] at h
      obtain ⟨⟨rfl, state⟩, supply⟩ := h
      rw [failed, state, supply]
  · rintro (failed | ⟨a, t, given, failed⟩)
    · exact failed.bind f
    · exact given.bind_fails failed

theorem fails_mapM_cons_iff {f : α → Rewriting σ β} {a : α} {l : List α} :
    ((a :: l).mapM f).Fails s e s' ↔
      (f a).Fails s e s' ∨ ∃ b t, (f a).Gives s b t ∧ (l.mapM f).Fails t e s' := by
  simp only [List.mapM_cons, fails_bind_iff, not_fails_pure, and_false, exists_false, or_false]

theorem fails_mapM_append_iff {f : α → Rewriting σ β} {l m : List α} :
    ((l ++ m).mapM f).Fails s e s' ↔
      (l.mapM f).Fails s e s' ∨ ∃ bs t, (l.mapM f).Gives s bs t ∧ (m.mapM f).Fails t e s' := by
  rw [List.mapM_append]
  simp only [fails_bind_iff, not_fails_pure, and_false, exists_false, or_false]

/-! ## Calls -/

/-- What the calls of `f` for the elements of a list come to. Each element is called for once, one
after the other, up to the first failure. -/
inductive Calls (f : α → Rewriting σ β) :
    List α → σ × Supply → Except Error (List β) → σ × Supply → Prop
  | done {s : σ × Supply} : Calls f [] s (.ok []) s
  | failed {a : α} {l : List α} {s s' : σ × Supply} {e : Error} :
      (f a).Fails s e s' → Calls f (a :: l) s (.error e) s'
  | passed {a : α} {l : List α} {b : β} {r : Except Error (List β)} {s t s' : σ × Supply} :
      (f a).Gives s b t → Calls f l t r s' → Calls f (a :: l) s (r.map (b :: ·)) s'

theorem exists_calls (f : α → Rewriting σ β) (l : List α) (s : σ × Supply) :
    ∃ r s', Calls f l s r s' := by
  induction l generalizing s with
  | nil => exact ⟨_, s, .done⟩
  | cons a l ih =>
    rcases gives_or_fails (f a) s with ⟨b, t, given⟩ | ⟨e, s', failed⟩
    · obtain ⟨r, s', others⟩ := ih t
      exact ⟨_, s', .passed given others⟩
    · exact ⟨_, s', .failed failed⟩

/-- Working through a list makes these calls. -/
theorem Calls.outcome {f : α → Rewriting σ β} {l : List α} {r : Except Error (List β)}
    (h : Calls f l s r s') : (l.mapM f).outcome s = ((r, s'.1), s'.2) := by
  induction h with
  | done => rfl
  | failed failed => exact fails_mapM_cons_iff.2 (.inl failed)
  | @passed a l b r s t s' given _ ih =>
    cases r with
    | error e => exact fails_mapM_cons_iff.2 (.inr ⟨b, t, given, ih⟩)
    | ok bs => exact gives_mapM_cons_iff.2 ⟨b, t, bs, given, ih, rfl⟩

end Rewriting

/-! ## Phrases -/

open Rewriting

section Children

variable {f : α → Rewriting σ β} {s s' : σ × Supply} {e : Error}

theorem SlotValue.mapM_fails {v : SlotValue α} (some : (v.nodes.mapM f).Fails s e s') :
    (v.mapM f).Fails s e s' := by
  have none : ¬(([] : List α).mapM f).Fails s e s' := not_fails_pure
  have single {a : α} (h : ([a].mapM f).Fails s e s') : (f a).Fails s e s' := by
    rcases fails_mapM_cons_iff.1 h with failed | ⟨_, _, _, failed⟩
    · exact failed
    · exact absurd failed not_fails_pure
  cases v with
  | literal text => exact absurd some none
  | value a => exact (single some).bind _
  | statement a => exact (single some).bind _
  | optionalStatement a =>
    cases a with
    | none => exact absurd some none
    | some a => exact (single some).bind _
  | repeated as => exact Fails.bind _ some

theorem SlotValue.mapM_list_fails {vs : List (SlotValue α)}
    (some : ((vs.flatMap nodes).mapM f).Fails s e s') :
    (vs.mapM (SlotValue.mapM f)).Fails s e s' := by
  induction vs generalizing s with
  | nil => exact absurd some not_fails_pure
  | cons v vs ih =>
    rw [List.flatMap_cons] at some
    rcases fails_mapM_append_iff.1 some with failed | ⟨bs, t, given, failed⟩
    · exact fails_mapM_cons_iff.2 (.inl (mapM_fails failed))
    · obtain ⟨w, slot, -⟩ := mapM_gives given
      exact fails_mapM_cons_iff.2 (.inr ⟨w, t, slot, ih failed⟩)

/-- Where rewriting a child fails, so does rewriting the phrase. -/
theorem Phrase.mapChildren_fails {p : Phrase α} (whole : p.Rebuildable) (blockId : String)
    (some : (p.children.mapM f).Fails s e s') : (p.mapChildren blockId f).Fails s e s' := by
  cases p with
  | stmtList as => exact Fails.bind _ some
  | emptyExpr => exact absurd some not_fails_pure
  | _ =>
    have buildable := whole.resolve_left (Option.some_ne_none _)
    rw [buildable.children] at some
    exact (SlotValue.mapM_list_fails some).bind _

end Children

/-! ## Nodes -/

namespace Node

section Rebuild

variable {x : Node → Rewriting σ Node} {n : Node} {s s' : σ × Supply} {e : Error}

theorem noted_fails {l : List Node} (some : (l.mapM x).Fails s e s') :
    Fails ((l.map fun c => ⟨c, x c⟩).mapM noted) s e s' := by
  induction l generalizing s with
  | nil => exact absurd some not_fails_pure
  | cons c l ih =>
    rw [List.map_cons]
    rcases fails_mapM_cons_iff.1 some with failed | ⟨b, t, given, failed⟩
    · exact fails_mapM_cons_iff.2 (.inl (failed.bind _))
    · have first : (noted ⟨c, x c⟩).Gives s (b, b.isSame c) t :=
        gives_bind_iff.2 ⟨b, t, given, gives_pure_iff.2 ⟨rfl, rfl⟩⟩
      exact fails_mapM_cons_iff.2 (.inr ⟨_, t, first, ih failed⟩)

theorem rebuildChildren_fails (whole : n.phrase.Rebuildable)
    (some : (n.children.mapM x).Fails s e s') :
    (n.rebuildChildren (n.phrase.map fun c => ⟨c, x c⟩)).Fails s e s' := by
  have visited : (n.phrase.map fun c => (⟨c, x c⟩ : Visited (Rewriting σ Node))).children =
      n.children.map fun c => ⟨c, x c⟩ := Phrase.children_map _ _
  have notes := noted_fails some
  rw [← visited] at notes
  unfold rebuildChildren
  rw [visited, List.isEmpty_map]
  split
  · next leaf =>
    rw [List.isEmpty_iff.1 leaf] at some
    exact absurd some not_fails_pure
  · exact (Phrase.mapChildren_fails ((Phrase.rebuildable_map_iff _ _).2 whole) n.label notes).bind _

/-- `n'` is what is made of `n` when it gets the children `cs`. -/
structure Renews (n' n : Node) (id : NodeId) (cs : List Node) : Prop where
  id : n'.id = id
  edition : n'.edition = 0
  isSealed : n'.isSealed = true
  blockId? : n'.blockId? = n.blockId?
  attributes : n'.attributes = n.attributes
  comment? : n'.comment? = n.comment?
  /-- The kind, the literals and the slots are those of `n`. -/
  phrase : n'.phrase.map (fun _ => ()) = n.phrase.map (fun _ => ())
  children : n'.children = cs
  silent : n'.diagnostics = []

/-- What becomes of `n` in the state `s` when its children are rewritten by `x`, with the state
after it. -/
inductive Rebuilt (n : Node) (x : Node → Rewriting σ Node) (s : σ × Supply) :
    Except Error Node → σ × Supply → Prop
  /-- The first call that fails decides. -/
  | failed {e : Error} {s' : σ × Supply} :
      Calls x n.children s (.error e) s' → Rebuilt n x s (.error e) s'
  /-- The results are the children themselves. -/
  | kept {cs : List Node} {s' : σ × Supply} :
      Calls x n.children s (.ok cs) s' → List.Forall₂ (·.isSame ·) cs n.children →
        Rebuilt n x s (.ok n) s'
  /-- Some result is another node. The new node gets the next number. -/
  | renewed {cs : List Node} {s' : σ × Supply} {n' : Node} :
      Calls x n.children s (.ok cs) s' → ¬List.Forall₂ (·.isSame ·) cs n.children →
        n'.Renews n ⟨s'.2.next⟩ cs → Rebuilt n x s (.ok n') (s'.1, s'.2.afterNumber)

theorem forall₂_isSame_iff {cs l : List Node} (length : cs.length = l.length) :
    List.Forall₂ (·.isSame ·) cs l ↔ ((cs.zip l).all fun c => c.1.isSame c.2) = true := by
  rw [List.forall₂_iff_zip, List.all_eq_true]
  simp only [length, true_and, Prod.forall]

/-- Rewriting the children of a node ends as the calls for the children say. -/
theorem exists_rebuilt (whole : n.phrase.Rebuildable) (x : Node → Rewriting σ Node)
    (s : σ × Supply) :
    ∃ r s', (n.rebuildChildren (n.phrase.map fun c => ⟨c, x c⟩)).outcome s = ((r, s'.1), s'.2) ∧
      n.Rebuilt x s r s' := by
  obtain ⟨r, s', calls⟩ := exists_calls x n.children s
  have each := calls.outcome
  cases r with
  | error e => exact ⟨_, s', rebuildChildren_fails whole each, .failed calls⟩
  | ok cs =>
    have same := forall₂_isSame_iff (length_of_gives_mapM each)
    obtain ⟨q, shape, children, rebuilt⟩ := rebuildChildren_gives whole each
    by_cases kept : List.Forall₂ (·.isSame ·) cs n.children
    · rw [if_pos (same.1 kept), if_pos (same.1 kept)] at rebuilt
      exact ⟨_, s', rebuilt, .kept calls kept⟩
    · rw [if_neg (mt same.2 kept), if_neg (mt same.2 kept)] at rebuilt
      have renews : (n.derived ⟨s'.2.next⟩ q).Renews n ⟨s'.2.next⟩ cs :=
        ⟨rfl, rfl, rfl, rfl, rfl, rfl, shape, children, rfl⟩
      exact ⟨_, _, rebuilt, .renewed calls kept renews⟩

end Rebuild

/-- A pass that only rewrites children changes nothing. -/
theorem modify_rebuildChildren_gives {n : Node} (whole : ∀ m ∈ n.walk, m.phrase.Rebuildable)
    (s : σ × Supply) : (n.modify fun m q => (m.rebuildChildren q).run).Gives s n s := by
  induction n using Node.induction with
  | step n ih =>
    rw [walk_eq, List.forall_mem_cons, List.forall_mem_flatMap] at whole
    have children := gives_mapM_self fun c hc => ih c hc (whole.2 c hc)
    obtain ⟨q, -, -, rebuilt⟩ := rebuildChildren_gives whole.1 children
    rw [if_pos (all_isSame_self _), if_pos (all_isSame_self _)] at rebuilt
    rw [modify_eq_handler]
    exact rebuilt

end Node

/-! ## Programs -/

namespace Program

/-- At every node of a program that was read, rewriting the children by any pass does what
`Node.Rebuilt` says. A pass that does nothing else gives back the program itself. -/
theorem rebuilt_of_ofDocument {registry : KindRegistry} {d : Document} {p : Program}
    {t t' : Supply} (read : (ofDocument registry d).run t = (.ok p, t')) :
    (∀ n ∈ p.walk, ∀ {σ ρ : Type} [RewriteResult ρ] (handler : RewriteHandler σ ρ)
      (s : σ × Supply), ∃ r s',
        (n.rebuildChildren (n.phrase.map fun c => ⟨c, c.modify handler⟩)).outcome s =
          ((r, s'.1), s'.2) ∧
        n.Rebuilt (·.modify handler) s r s') ∧
    ∀ {σ : Type} (s : σ × Supply),
      (p.mapBodies (Node.modify fun n q => (n.rebuildChildren q).run)).Gives s p s := by
  have whole (n : Node) (hn : n ∈ p.walk) : n.phrase.Rebuildable :=
    (regular_of_ofDocument read n hn).rebuildable
  refine ⟨fun n hn σ ρ _ handler s => Node.exists_rebuilt (whole n hn) _ s, fun s => ?_⟩
  have bodies : ((p.instances.map (·.body)).mapM
      (Node.modify fun n q => (n.rebuildChildren q).run)).Gives s (p.instances.map (·.body)) s := by
    refine gives_mapM_self fun b hb => ?_
    obtain ⟨i, hi, rfl⟩ := List.mem_map.1 hb
    exact Node.modify_rebuildChildren_gives (fun m hm => whole m (List.mem_flatMap.2 ⟨i, hi, hm⟩)) s
  have rewritten := mapBodies_gives bodies
  rw [Instance.withBodies_map, List.map_id'] at rewritten
  exact rewritten

/-- The product, where disabled nodes are to be left out. -/
theorem rebuilt_product :
    ∃ t, (ofDocument .core product).run {} = (.ok productProgram, t) ∧
      (∀ n ∈ productProgram.walk, ∀ s : Unit × Supply, ∃ r s',
        (n.rebuildChildren (n.phrase.map fun c => ⟨c, c.modify Rewrite.dropDisabled⟩)).outcome s =
          ((r, s'.1), s'.2) ∧
        n.Rebuilt (·.modify Rewrite.dropDisabled) s r s') ∧
      ∀ s, (productProgram.mapBodies (Node.modify Rewrite.identity)).Gives s productProgram s := by
  obtain ⟨t, read⟩ := exists_ofDocument_product
  obtain ⟨rebuilt, identical⟩ := rebuilt_of_ofDocument read
  exact ⟨t, read, fun n hn s => rebuilt n hn Rewrite.dropDisabled s, fun s => identical s⟩

end Program

end BlockGraph

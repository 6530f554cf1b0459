import BlockGraph.Proofs.Node.Content
import BlockGraph.Proofs.Phrase
import BlockGraph.Rewrite

/-!
# Runs of rewriting passes

A rewriting pass carries a state of its own and the supply of fresh numbers. What it gives on a
phrase follows from what it gives on the list of the children: the slots only put the results in
their places.

* `Rewriting.Gives`: a step succeeds, with its result and the state that it leaves.
* `Phrase.mapChildren_gives`: rewriting the children of a phrase.
* `Node.rebuildChildren_gives`: a node is kept or made anew, with the results for its children.
-/

namespace BlockGraph

variable {σ α β : Type}

/-! ## Steps -/

namespace Rewriting

/-- The result of a step, with the state that it leaves. -/
def outcome (x : Rewriting σ α) (s : σ × Supply) : (Except Error α × σ) × Supply :=
  ((x.run.run s.1 : Fresh (Except Error α × σ)).run s.2).run

theorem outcome_bind (x : Rewriting σ α) (f : α → Rewriting σ β) (s : σ × Supply) :
    (x >>= f).outcome s = match x.outcome s with
      | ((.ok a, k), t) => (f a).outcome (k, t)
      | ((.error e, k), t) => ((.error e, k), t) := by
  unfold outcome
  rw [ExceptT.run_bind, StateT.run_bind, StateT.run_bind]
  change Id.run (Id.run _) = _
  rcases (x.run.run s.1 : Fresh (Except Error α × σ)).run s.2 with ⟨⟨_ | _, k⟩, t⟩ <;> rfl

/-- The step succeeds: it turns the state `s` into `s'` and has the result `a`. -/
def Gives (x : Rewriting σ α) (s : σ × Supply) (a : α) (s' : σ × Supply) : Prop :=
  x.outcome s = ((.ok a, s'.1), s'.2)

variable {s s' : σ × Supply} {b : β}

theorem runFrom_eq_ok_iff {x : Rewriting σ α} {a : α} {k k' : σ} {t t' : Supply} :
    (x.runFrom k).run t = (.ok (a, k'), t') ↔ x.Gives (k, t) a (k', t') := by
  have run : (x.runFrom k).run t =
      ((x.outcome (k, t)).1.1.map fun a => (a, (x.outcome (k, t)).1.2), (x.outcome (k, t)).2) := rfl
  unfold Gives
  rw [run]
  rcases x.outcome (k, t) with ⟨⟨_ | _, k⟩, t⟩ <;> constructor <;> intro h <;> cases h <;> rfl

theorem gives_pure_iff {a c : α} :
    (pure a : Rewriting σ α).Gives s c s' ↔ a = c ∧ s = s' := by
  change ((Except.ok a, s.1), s.2) = ((Except.ok c, s'.1), s'.2) ↔ _
  simp [Prod.ext_iff, and_assoc]

/-- The parts of a step succeed one after the other. -/
theorem gives_bind_iff {x : Rewriting σ α} {f : α → Rewriting σ β} :
    (x >>= f).Gives s b s' ↔ ∃ a t, x.Gives s a t ∧ (f a).Gives t b s' := by
  unfold Gives
  rw [outcome_bind]
  rcases x.outcome s with ⟨⟨e | a, k⟩, t⟩
  · simp
  · simp only [Prod.mk.injEq, Except.ok.injEq, Prod.exists]
    refine ⟨fun h => ⟨a, k, t, ⟨⟨rfl, rfl⟩, rfl⟩, h⟩, fun h => ?_⟩
    obtain ⟨_, _, _, ⟨⟨rfl, rfl⟩, rfl⟩, h⟩ := h
    exact h

/-- A list is worked through element by element. -/
theorem gives_mapM_cons_iff {f : α → Rewriting σ β} {a : α} {l : List α} {bs : List β} :
    ((a :: l).mapM f).Gives s bs s' ↔
      ∃ b t cs, (f a).Gives s b t ∧ (l.mapM f).Gives t cs s' ∧ b :: cs = bs := by
  simp only [List.mapM_cons, gives_bind_iff, gives_pure_iff]
  refine ⟨fun h => ?_, fun h => ?_⟩
  · obtain ⟨b, t, first, cs, _, others, rfl, rfl⟩ := h
    exact ⟨b, t, cs, first, others, rfl⟩
  · obtain ⟨b, t, cs, first, others, rfl⟩ := h
    exact ⟨b, t, first, cs, s', others, rfl, rfl⟩

theorem gives_mapM_append_iff {f : α → Rewriting σ β} {l m : List α} {bs : List β} :
    ((l ++ m).mapM f).Gives s bs s' ↔
      ∃ cs t ds, (l.mapM f).Gives s cs t ∧ (m.mapM f).Gives t ds s' ∧ cs ++ ds = bs := by
  rw [List.mapM_append]
  simp only [gives_bind_iff, gives_pure_iff]
  refine ⟨fun h => ?_, fun h => ?_⟩
  · obtain ⟨cs, t, first, ds, _, second, rfl, rfl⟩ := h
    exact ⟨cs, t, ds, first, second, rfl⟩
  · obtain ⟨cs, t, ds, first, second, rfl⟩ := h
    exact ⟨cs, t, first, ds, s', second, rfl, rfl⟩

theorem length_of_gives_mapM {f : α → Rewriting σ β} {l : List α} {bs : List β}
    (h : (l.mapM f).Gives s bs s') : bs.length = l.length := by
  induction l generalizing s bs with
  | nil =>
    obtain ⟨rfl, -⟩ := gives_pure_iff.1 h
    rfl
  | cons a l ih =>
    obtain ⟨b, t, cs, -, others, rfl⟩ := gives_mapM_cons_iff.1 h
    exact congrArg (· + 1) (ih others)

/-- Steps that change neither the elements nor the state give back the list. -/
theorem gives_mapM_self {f : α → Rewriting σ α} {l : List α}
    (kept : ∀ a ∈ l, (f a).Gives s a s) : (l.mapM f).Gives s l s := by
  induction l with
  | nil => exact gives_pure_iff.2 ⟨rfl, rfl⟩
  | cons a l ih =>
    rw [List.forall_mem_cons] at kept
    exact gives_mapM_cons_iff.2 ⟨a, s, l, kept.1, ih kept.2, rfl⟩

end Rewriting

/-! ## Phrases -/

open Rewriting

section Children

variable {f : α → Rewriting σ β} {s s' : σ × Supply} {bs : List β}

/-- The results for the nodes in a slot go into their places. -/
theorem SlotValue.mapM_gives {v : SlotValue α} (each : (v.nodes.mapM f).Gives s bs s') :
    ∃ w, (v.mapM f).Gives s w s' ∧ w.map (fun _ => ()) = v.map (fun _ => ()) ∧
      w.nodes = bs := by
  have single {a : α} (given : ([a].mapM f).Gives s bs s') :
      ∃ b, (f a).Gives s b s' ∧ [b] = bs := by
    obtain ⟨b, t, cs, first, none, rfl⟩ := gives_mapM_cons_iff.1 given
    obtain ⟨rfl, rfl⟩ := gives_pure_iff.1 none
    exact ⟨b, first, rfl⟩
  cases v with
  | literal text =>
    obtain ⟨rfl, rfl⟩ := gives_pure_iff.1 each
    exact ⟨.literal text, gives_pure_iff.2 ⟨rfl, rfl⟩, rfl, rfl⟩
  | value a =>
    obtain ⟨b, given, rfl⟩ := single each
    exact ⟨.value b, gives_bind_iff.2 ⟨b, s', given, gives_pure_iff.2 ⟨rfl, rfl⟩⟩, rfl, rfl⟩
  | statement a =>
    obtain ⟨b, given, rfl⟩ := single each
    exact ⟨.statement b, gives_bind_iff.2 ⟨b, s', given, gives_pure_iff.2 ⟨rfl, rfl⟩⟩, rfl, rfl⟩
  | optionalStatement a =>
    cases a with
    | none =>
      obtain ⟨rfl, rfl⟩ := gives_pure_iff.1 each
      exact ⟨.optionalStatement none, gives_pure_iff.2 ⟨rfl, rfl⟩, rfl, rfl⟩
    | some a =>
      obtain ⟨b, given, rfl⟩ := single each
      exact ⟨.optionalStatement (some b),
        gives_bind_iff.2 ⟨b, s', given, gives_pure_iff.2 ⟨rfl, rfl⟩⟩, rfl, rfl⟩
  | repeated as =>
    refine ⟨.repeated bs, gives_bind_iff.2 ⟨bs, s', each, gives_pure_iff.2 ⟨rfl, rfl⟩⟩, ?_, rfl⟩
    simp [SlotValue.map, List.map_const', length_of_gives_mapM (l := as) each]

theorem SlotValue.mapM_list_gives {vs : List (SlotValue α)}
    (each : ((vs.flatMap nodes).mapM f).Gives s bs s') :
    ∃ ws, (vs.mapM (SlotValue.mapM f)).Gives s ws s' ∧
      ws.map (SlotValue.map fun _ => ()) = vs.map (SlotValue.map fun _ => ()) ∧
      ws.flatMap nodes = bs := by
  induction vs generalizing s bs with
  | nil =>
    obtain ⟨rfl, rfl⟩ := gives_pure_iff.1 each
    exact ⟨[], gives_pure_iff.2 ⟨rfl, rfl⟩, rfl, rfl⟩
  | cons v vs ih =>
    obtain ⟨cs, t, ds, first, others, rfl⟩ := gives_mapM_append_iff.1 each
    obtain ⟨w, slot, shape, rfl⟩ := mapM_gives first
    obtain ⟨ws, slots, shapes, rfl⟩ := ih others
    refine ⟨w :: ws, gives_mapM_cons_iff.2 ⟨w, t, ws, slot, slots, rfl⟩, ?_, rfl⟩
    rw [List.map_cons, List.map_cons, shape, shapes]

/-- Rewriting the children of a phrase that can be rebuilt gives a phrase of the same shape with
the results in their places. -/
theorem Phrase.mapChildren_gives {p : Phrase α} (whole : p.Rebuildable) (blockId : String)
    (each : (p.children.mapM f).Gives s bs s') :
    ∃ q, (p.mapChildren blockId f).Gives s q s' ∧
      q.map (fun _ => ()) = p.map (fun _ => ()) ∧ q.children = bs := by
  have built (buildable : p.Buildable)
      (finish : List (SlotValue β) → Rewriting σ (Phrase β))
      (passes : ∀ values q, build p.kind blockId values = .ok q → finish values = pure q) :
      ∃ q, (p.slots.mapM (SlotValue.mapM f) >>= finish).Gives s q s' ∧
        q.map (fun _ => ()) = p.map (fun _ => ()) ∧ q.children = bs := by
    rw [buildable.children] at each
    obtain ⟨ws, slots, shapes, rfl⟩ := SlotValue.mapM_list_gives each
    have built : build p.kind blockId (ws.map (SlotValue.map fun _ => ())) =
        .ok (p.map fun _ => ()) := by
      rw [shapes]
      exact (build_map_eq_ok_iff _).2 ⟨p, build_eq_ok_iff.2 ⟨rfl, rfl, buildable⟩, rfl⟩
    obtain ⟨q, made, shape⟩ := (build_map_eq_ok_iff _).1 built
    refine ⟨q, gives_bind_iff.2 ⟨ws, s', slots, ?_⟩, shape, ?_⟩
    · rw [passes _ _ made]
      exact gives_pure_iff.2 ⟨rfl, rfl⟩
    · obtain ⟨-, rfl, buildable⟩ := build_eq_ok_iff.1 made
      exact buildable.children
  cases p with
  | stmtList as =>
    obtain ⟨w, given, shape, rfl⟩ := SlotValue.mapM_gives (v := .repeated as) each
    obtain ⟨cs, t, inside, last⟩ := gives_bind_iff.1 given
    obtain ⟨rfl, rfl⟩ := gives_pure_iff.1 last
    refine ⟨.stmtList cs, gives_bind_iff.2 ⟨cs, t, inside, gives_pure_iff.2 ⟨rfl, rfl⟩⟩, ?_, rfl⟩
    exact congrArg stmtList (SlotValue.repeated.inj shape)
  | emptyExpr =>
    obtain ⟨rfl, rfl⟩ := gives_pure_iff.1 each
    exact ⟨.emptyExpr, gives_pure_iff.2 ⟨rfl, rfl⟩, rfl, rfl⟩
  | _ =>
    refine built (whole.resolve_left (Option.some_ne_none _)) _ fun values q made => ?_
    rw [made]

end Children

/-! ## Nodes -/

namespace Node

/-- What is made of a node when its phrase is exchanged: a sealed node with a new id. -/
def derived (n : Node) (id : NodeId) (p : Phrase Node) : Node :=
  mk { id, sealed := true, blockId := n.blockId?, attributes := n.attributes,
       comment := n.comment? } p

theorem freshly_gives (n : Node) (p : Phrase Node) (s : σ × Supply) :
    (freshly (n.withPhrase p) : Rewriting σ Node).Gives s (n.derived ⟨s.2.next⟩ p)
      (s.1, s.2.afterNumber) := rfl

/-- A handler that gives a node or fails is run as it is. -/
theorem modify_eq_handler (handler : RewriteHandler σ (Except Error Node)) (n : Node) :
    n.modify handler =
      ExceptT.mk (handler n (n.phrase.map fun c => ⟨c, c.modify handler⟩)) := by
  have result : (n.resultNode : Except Error Node → Except Error Node) = fun r => r := by
    funext r
    cases r <;> rfl
  rw [modify_eq, result, id_map']

theorem all_isSame_self (l : List Node) : ((l.zip l).all fun c => c.1.isSame c.2) = true := by
  induction l with
  | nil => rfl
  | cons n l ih =>
    rw [List.zip_cons_cons, List.all_cons, ih]
    simp [isSame]

section Rebuild

variable {x : Node → Rewriting σ Node} {n : Node} {cs : List Node} {s s' : σ × Supply}

/-- Rewrites a child and notes whether it is still the same. -/
def noted (c : Visited (Rewriting σ Node)) : Rewriting σ (Node × Bool) := do
  let next ← c.result
  return (next, next.isSame c.node)

theorem noted_gives {l : List Node} (each : (l.mapM x).Gives s cs s') :
    Gives ((l.map fun c => ⟨c, x c⟩).mapM noted) s
      ((cs.zip l).map fun c => (c.1, c.1.isSame c.2)) s' := by
  induction l generalizing s cs with
  | nil =>
    obtain ⟨rfl, rfl⟩ := gives_pure_iff.1 each
    exact gives_pure_iff.2 ⟨rfl, rfl⟩
  | cons c l ih =>
    obtain ⟨b, t, cs, first, others, rfl⟩ := gives_mapM_cons_iff.1 each
    refine gives_mapM_cons_iff.2 ⟨_, t, _, ?_, ih others, rfl⟩
    exact gives_bind_iff.2 ⟨b, t, first, gives_pure_iff.2 ⟨rfl, rfl⟩⟩

/-- A node whose children can be rewritten comes back if they are still the same, and otherwise a
new node with the new children in the places of the old ones. -/
theorem rebuildChildren_gives (whole : n.phrase.Rebuildable)
    (each : (n.children.mapM x).Gives s cs s') :
    ∃ q : Phrase Node, q.map (fun _ => ()) = n.phrase.map (fun _ => ()) ∧ q.children = cs ∧
      (n.rebuildChildren (n.phrase.map fun c => ⟨c, x c⟩)).Gives s
        (if (cs.zip n.children).all fun c => c.1.isSame c.2 then n
          else n.derived ⟨s'.2.next⟩ q)
        (if (cs.zip n.children).all fun c => c.1.isSame c.2 then s'
          else (s'.1, s'.2.afterNumber)) := by
  have length : cs.length = n.children.length := length_of_gives_mapM each
  have visited : (n.phrase.map fun c => (⟨c, x c⟩ : Visited (Rewriting σ Node))).children =
      n.children.map fun c => ⟨c, x c⟩ := Phrase.children_map _ _
  have notes := noted_gives each
  rw [← visited] at notes
  obtain ⟨r, given, shape, children⟩ :=
    Phrase.mapChildren_gives ((Phrase.rebuildable_map_iff _ _).2 whole) n.label notes
  refine ⟨r.map Prod.fst, ?_, ?_, ?_⟩
  · rw [Phrase.map_map] at shape ⊢
    exact shape
  · rw [Phrase.children_map, children, List.map_map]
    exact List.map_fst_zip (Nat.le_of_eq length)
  · have same : r.children.all (·.2) = (cs.zip n.children).all fun c => c.1.isSame c.2 := by
      rw [children, List.all_map]
      rfl
    unfold rebuildChildren
    rw [visited, List.isEmpty_map]
    split
    · next leaf =>
      rw [List.isEmpty_iff] at leaf
      rw [leaf] at length each ⊢
      obtain ⟨rfl, rfl⟩ := gives_pure_iff.1 each
      exact gives_pure_iff.2 ⟨rfl, rfl⟩
    · refine gives_bind_iff.2 ⟨r, s', given, ?_⟩
      rw [same]
      split
      · exact gives_pure_iff.2 ⟨rfl, rfl⟩
      · exact freshly_gives n _ s'

end Rebuild

end Node

/-! ## Programs -/

/-- The instances with other chains in their places. -/
def Instance.withBodies (is : List Instance) (bodies : List Node) : List Instance :=
  is.zipWith (fun i body => { i with body }) bodies

theorem Instance.bodies_withBodies {is : List Instance} {bodies : List Node}
    (length : bodies.length = is.length) : (withBodies is bodies).map (·.body) = bodies := by
  induction is generalizing bodies with
  | nil => exact (List.length_eq_zero_iff.1 length).symm
  | cons i is ih =>
    cases bodies with
    | nil => cases length
    | cons b bodies => exact congrArg (b :: ·) (ih (Nat.succ.inj length))

theorem Instance.map_withBodies (f : Node → Node) (is : List Instance) (bodies : List Node) :
    (withBodies is bodies).map (fun i => { i with body := f i.body }) =
      withBodies is (bodies.map f) := by
  rw [withBodies, withBodies, List.map_zipWith, List.zipWith_map_right]

theorem Instance.withBodies_map (f : Instance → Node) (is : List Instance) :
    withBodies is (is.map f) = is.map fun i => { i with body := f i } := by
  rw [withBodies, List.zipWith_map_right, List.zipWith_self]

theorem Instance.mapM_gives {f : Node → Rewriting σ Node} {is : List Instance}
    {bodies : List Node} {s s' : σ × Supply}
    (each : ((is.map (·.body)).mapM f).Gives s bodies s') :
    (is.mapM fun i => do return { i with body := ← f i.body } : Rewriting σ (List Instance)).Gives s
      (withBodies is bodies) s' := by
  induction is generalizing s bodies with
  | nil =>
    obtain ⟨rfl, rfl⟩ := gives_pure_iff.1 each
    exact gives_pure_iff.2 ⟨rfl, rfl⟩
  | cons i is ih =>
    obtain ⟨b, t, cs, first, others, rfl⟩ := gives_mapM_cons_iff.1 each
    refine gives_mapM_cons_iff.2 ⟨{ i with body := b }, t, _, ?_, ih others, rfl⟩
    exact gives_bind_iff.2 ⟨b, t, first, gives_pure_iff.2 ⟨rfl, rfl⟩⟩

/-- A pass over the chains of a program puts the results in their places. -/
theorem Program.mapBodies_gives {f : Node → Rewriting σ Node} {p : Program} {bodies : List Node}
    {s s' : σ × Supply} (each : ((p.instances.map (·.body)).mapM f).Gives s bodies s') :
    (p.mapBodies f).Gives s { p with instances := Instance.withBodies p.instances bodies } s' :=
  gives_bind_iff.2 ⟨_, s', Instance.mapM_gives each, gives_pure_iff.2 ⟨rfl, rfl⟩⟩

end BlockGraph

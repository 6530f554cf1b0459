import BlockGraph.Proofs.Mapping.Content
import Mathlib.Data.List.Flatten

/-!
# The identity of what is read

Every node of a program that was read has an id of its own, which the supply of fresh numbers has
handed out and will not hand out again.

* `Mapping.Draws`: what a step of reading makes has the ids given before and new ones.
* `Program.ids_of_ofDocument`: the ids of a program that was read.
* `Program.new_of_ofDocument`: no node had one of these ids before.
-/

namespace BlockGraph

/-! ## Ids -/

/-- The ids of a node and of all nodes below it, parents first. -/
def Node.ids (n : Node) : List NodeId := n.walk.map Node.id

theorem Node.ids_eq (n : Node) : n.ids = n.id :: n.children.flatMap ids := by
  rw [ids, walk_eq, List.map_cons, List.map_flatMap]
  rfl

/-- The ids of all nodes, chain after chain. -/
def Program.ids (p : Program) : List NodeId := p.walk.map Node.id

theorem Program.ids_eq (p : Program) : p.ids = p.instances.flatMap (·.body.ids) := by
  rw [ids, walk, List.map_flatMap]
  rfl

/-- A change of the headers that keeps the ids keeps all ids in their places. -/
theorem Node.ids_mapHeaders {g : Header → Header} (same : ∀ h, (g h).id = h.id) (n : Node) :
    (n.mapHeaders g).ids = n.ids := by
  rw [ids, walk_mapHeaders, List.map_map, ids]
  refine List.map_congr_left fun m _ => ?_
  rw [Function.comp_apply, id, header_mapHeaders, same]
  rfl

theorem Program.ids_mapHeaders {g : Header → Header} (same : ∀ h, (g h).id = h.id) (p : Program) :
    (p.mapHeaders g).ids = p.ids := by
  rw [ids_eq, ids_eq, mapHeaders, List.flatMap_map]
  exact List.flatMap_congr fun i _ => i.body.ids_mapHeaders same

section Changes

variable {f : Node → Node} (top : ∀ n, (f n).id = n.id)
  (below : ∀ n, (f n).children.Sublist n.children)

include top below

/-- A change that at most leaves out children keeps the ids of the nodes that remain. -/
theorem Node.ids_mapNodes_sublist (n : Node) : (n.mapNodes f).ids.Sublist n.ids := by
  induction n using Node.induction with
  | step n ih =>
    have children : (n.mapNodes f).children.Sublist (n.children.map (mapNodes f)) := by
      have same := n.phrase.children_map (mapNodes f)
      rw [mapNodes_eq]
      exact same ▸ below (mk n.header (n.phrase.map (mapNodes f)))
    have kept : ((n.children.map (mapNodes f)).flatMap ids).Sublist (n.children.flatMap ids) := by
      rw [List.flatMap_map]
      exact List.Sublist.flatMap_right _ ih
    have id : (n.mapNodes f).id = n.id := by
      rw [mapNodes_eq, top]
      rfl
    rw [ids_eq, ids_eq n, id]
    exact ((children.flatMap ids).trans kept).cons_cons _

theorem Program.ids_mapNodes_sublist (p : Program) : (p.mapNodes f).ids.Sublist p.ids := by
  rw [ids_eq, ids_eq, mapNodes, List.flatMap_map]
  exact List.Sublist.flatMap_right _ fun i _ => i.body.ids_mapNodes_sublist top below

end Changes

/-- All these ids were handed out. -/
def Supply.Covers (s : Supply) (ids : List NodeId) : Prop := ∀ i ∈ ids, i.number < s.next

theorem Supply.Covers.mono {s s' : Supply} {ids : List NodeId} (h : s.Covers ids)
    (later : s.next ≤ s'.next) : s'.Covers ids :=
  fun i hi => Nat.lt_of_lt_of_le (h i hi) later

theorem Supply.covers_append_iff {s : Supply} {ids ids' : List NodeId} :
    s.Covers (ids ++ ids') ↔ s.Covers ids ∧ s.Covers ids' := List.forall_mem_append

/-- The next number makes one more id that no other node has. -/
theorem Supply.Covers.fresh {s : Supply} {others ids : List NodeId}
    (distinct : (others ++ ids).Nodup) (covered : s.Covers (others ++ ids)) :
    (others ++ ⟨s.next⟩ :: ids).Nodup ∧ s.afterNumber.Covers (others ++ ⟨s.next⟩ :: ids) := by
  have new : NodeId.mk s.next ∉ others ++ ids := fun mem => Nat.lt_irrefl _ (covered _ mem)
  have perm : (others ++ ⟨s.next⟩ :: ids).Perm (⟨s.next⟩ :: (others ++ ids)) := List.perm_middle
  refine ⟨perm.nodup_iff.2 (List.nodup_cons.2 ⟨new, distinct⟩), fun i hi => ?_⟩
  rw [Supply.next_afterNumber]
  rcases List.mem_cons.1 (perm.mem_iff.1 hi) with rfl | hi
  · exact Nat.lt_succ_self _
  · exact Nat.lt_succ_of_lt (covered i hi)

namespace Mapping

variable {α β δ : Type} {registry : KindRegistry}

/-! ## Steps of reading -/

/-- What `x` makes out of things with the ids `given` has ids of its own: some of those, and some
that were not handed out before. A failure takes back no number. -/
def Draws (given : List NodeId) (x : Parse α) (ids : α → List NodeId) : Prop :=
  ∀ seen s, given.Nodup → s.Covers given → s.next ≤ ((x.run seen).run s).2.next ∧
    ∀ a seen' s', (x.run seen).run s = (.ok (a, seen'), s') → (ids a).Nodup ∧ s'.Covers (ids a)

namespace Draws

variable {given : List NodeId} {x : Parse α} {f : α → Parse β} {i : α → List NodeId}
  {k : β → List NodeId}

protected theorem pure {a : α} (h : i a = given) : Draws given (pure a) i := by
  intro seen s distinct covered
  refine ⟨Nat.le_refl _, fun b seen' s' run => ?_⟩
  cases run
  rw [h]
  exact ⟨distinct, covered⟩

protected theorem bind (hx : Draws given x i) (hf : ∀ a, Draws (i a) (f a) k) :
    Draws given (x >>= f) k := by
  intro seen s distinct covered
  obtain ⟨later, made⟩ := hx seen s distinct covered
  rw [Reads.run_bind]
  rcases first : (x.run seen).run s with ⟨_ | ⟨a, seen'⟩, s'⟩ <;> rw [first] at later
  · exact ⟨later, fun b seen'' s'' run => by cases run⟩
  · obtain ⟨distinct', covered'⟩ := made a seen' s' first
    obtain ⟨later', done⟩ := hf a seen' s' distinct' covered'
    exact ⟨Nat.le_trans later later', done⟩

/-- A part that may fail and makes no nodes. -/
protected theorem lift {u : Except Error α} (h : ∀ a, u = .ok a → i a = given) :
    Draws given (liftM u : Parse α) i := by
  cases u with
  | error e =>
    intro seen s _ _
    exact ⟨Nat.le_refl _, fun a seen' s' run => by cases run⟩
  | ok a => exact .pure (h a rfl)

/-- Nothing comes after a failure. -/
protected theorem fail_bind (e : Error) : Draws given ((throw e : Parse α) >>= f) k := by
  intro seen s _ _
  rw [Reads.run_bind]
  exact ⟨Nat.le_refl _, fun b seen' s' run => by cases run⟩

/-- A part that changes nothing but the block ids seen so far. -/
protected theorem seen (f : List String → List String) :
    Draws given (modify f : Parse Unit) fun _ => given := by
  intro seen s distinct covered
  refine ⟨Nat.le_refl _, fun a seen' s' run => ?_⟩
  cases run
  exact ⟨distinct, covered⟩

protected theorem get_bind {f : List String → Parse β} (h : ∀ seen, Draws given (f seen) k) :
    Draws given (get >>= f) k := fun seen s => h seen seen s

protected theorem claim (id : String) : Draws given (claim id) fun _ => given := by
  refine .get_bind fun seen => ?_
  split
  · exact .fail_bind _
  · exact .seen _

/-- A new node, whose children were made last. -/
protected theorem create (blockId : Option String) (attributes : Attributes)
    (comment : Option Comment) (p : Phrase Node) :
    Draws (given ++ p.children.flatMap Node.ids)
      (liftM (Node.createSealed blockId attributes comment p : Fresh Node))
      fun n => given ++ n.ids := by
  intro seen s distinct covered
  refine ⟨Nat.le_succ _, fun n seen' s' run => ?_⟩
  cases run
  simp only [Node.ids_eq]
  exact Supply.Covers.fresh distinct covered

/-- One thing after the other. -/
protected theorem mapM {l : List δ} {u : δ → Parse α}
    (each : ∀ d ∈ l, ∀ given, Draws given (u d) fun a => given ++ i a) (given : List NodeId) :
    Draws given (l.mapM u) fun as => given ++ as.flatMap i := by
  induction l generalizing given with
  | nil => exact .pure (by simp)
  | cons d l ih =>
    rw [List.mapM_cons]
    refine .bind (each d List.mem_cons_self given) fun a => .bind
      (ih (fun d hd => each d (List.mem_cons_of_mem _ hd)) _) fun as => .pure ?_
    simp

end Draws

/-! ## Reading -/

/-- Reading a block makes a node with new ids. -/
def Numbered (b : Inner) : Prop := ∀ given, Draws given b.result fun n => given ++ n.ids

/-- The ids of the nodes in a slot. -/
def slotNodeIds (v : SlotValue Node) : List NodeId := v.nodes.flatMap Node.ids

/-- A node that is checked after it was made. -/
theorem draws_checked {given : List NodeId} {x : Parse Node} {check : Node → Except Error Unit}
    (hx : Draws given x fun n => given ++ n.ids) :
    Draws given (do let n ← x; liftM (check n); return n) fun n => given ++ n.ids :=
  .bind hx fun n => .bind (i := fun _ => given ++ n.ids) (.lift fun _ _ => rfl) fun _ => .pure rfl

theorem draws_value {slot : String} {o : Option Inner} (h : ∀ b ∈ o, Numbered b)
    (given : List NodeId) : Draws given (value slot o) fun n => given ++ n.ids := by
  cases o with
  | none =>
    have empty : Draws (given ++ (Phrase.emptyExpr : Phrase Node).children.flatMap Node.ids)
        (value slot none) fun n => given ++ n.ids := .create none {} none .emptyExpr
    rwa [show (Phrase.emptyExpr : Phrase Node).children.flatMap Node.ids = [] from rfl,
      List.append_nil] at empty
  | some b => exact draws_checked (h b rfl given)

theorem draws_chain {slot : Option String} {blocks : List Inner} (h : ∀ b ∈ blocks, Numbered b)
    (given : List NodeId) : Draws given (chain slot blocks) fun n => given ++ n.ids :=
  .bind (.mapM (fun b hb given => draws_checked (h b hb given)) given) fun statements =>
    .create none {} none (.stmtList statements)

/-- What a row takes is read slot by slot. -/
theorem draws_portion {p : Portion Inner} (h : ∀ b ∈ p.blocks, Numbered b)
    (given : List NodeId) :
    Draws given (p.fill value fun slot => chain slot) fun v => given ++ slotNodeIds v := by
  cases p with
  | literal slot text => exact .pure (List.append_nil _)
  | value slot b =>
    refine .bind (draws_value (fun b' hb => h b' (by simpa using hb)) given) fun n => .pure ?_
    simp [slotNodeIds, SlotValue.nodes]
  | statement slot blocks =>
    refine .bind (draws_chain (fun b hb => h b (by simpa using hb)) given) fun n => .pure ?_
    simp [slotNodeIds, SlotValue.nodes]
  | optionalStatement slot blocks =>
    cases blocks with
    | nil => exact .pure (List.append_nil _)
    | cons b blocks =>
      rw [Portion.blocks_optionalStatement] at h
      refine .bind (draws_chain h given) fun n => .pure ?_
      simp [slotNodeIds, SlotValue.nodes]
  | repeatedValue members =>
    rw [Portion.blocks_repeatedValue] at h
    refine .bind (.mapM (fun e he => draws_value fun b hb => h b ?_) given) fun ns => .pure rfl
    exact List.mem_filterMap.2 ⟨e, he, hb⟩
  | repeatedStatement members =>
    rw [Portion.blocks_repeatedStatement] at h
    refine .bind (.mapM (fun e he => draws_chain fun b hb => h b ?_) given) fun ns => .pure rfl
    exact List.mem_flatMap.2 ⟨e, he, hb⟩

theorem draws_rows {blockId : String} {declared : Option Nat} {s : Slots Inner}
    {specs : List FieldSpec} (h : s.Hold Numbered) (given : List NodeId) :
    Draws given (s.rows value (fun slot => chain slot) blockId declared specs)
      fun r => given ++ r.1.flatMap slotNodeIds := by
  induction specs generalizing s given with
  | nil => exact .pure (List.append_nil _)
  | cons spec specs ih =>
    rw [Slots.rows]
    rcases taken : s.take blockId declared spec with e | ⟨portion, s'⟩
    · exact .fail_bind e
    · obtain ⟨portionHolds, restHolds⟩ := (Slots.shares_of_take taken).hold h
      have first := draws_portion (portionHolds portion List.mem_cons_self) given
      change Draws given (do
        let v ← portion.fill value fun slot => chain slot
        let r ← s'.rows value (fun slot => chain slot) blockId declared specs
        return (v :: r.1, r.2)) _
      refine .bind first fun v => .bind (ih restHolds _) fun r => .pure ?_
      simp

/-- Reading a block makes nodes with new ids. -/
theorem numbered (registry : KindRegistry) (b : Block) : Numbered (inner registry b) := by
  induction b using Block.induction with
  | step l ih =>
    intro given
    rw [inner, block_mk]
    split
    · exact .fail_bind _
    refine .bind (.claim l.id) fun _ => ?_
    rcases laid : Layout.of registry (l.map (inner registry)) with e | layout
    · exact .fail_bind e
    have hold := Slots.hold_of_ofLayer (P := Numbered) (Layout.of_eq_ok_iff.1 laid).2.1 (by
      rw [BlockLayer.children_map, List.forall_mem_map]
      exact ih)
    change Draws given (do
      let r ←
        layout.slots.rows value (fun slot => chain slot) l.id layout.declared layout.kind.fields
      let phrase ← liftM (assemble (l.map (inner registry)) layout.kind r.1 r.2)
      liftM (Node.createSealed (some l.id) l.attributes l.comment phrase : Fresh Node)) _
    refine .bind (draws_rows hold given) fun r => ?_
    refine .bind (i := fun p => given ++ p.children.flatMap Node.ids) (.lift fun p made => ?_)
      fun p => .create (some l.id) l.attributes l.comment p
    obtain ⟨-, -, slots, buildable, -⟩ := assemble_eq_ok_iff.1 made
    rw [buildable.children, slots, List.flatMap_assoc]
    rfl

theorem draws_canvasChain (registry : KindRegistry) (c : Chain) (given : List NodeId) :
    Draws given (canvasChain registry c) fun i => given ++ i.body.ids := by
  refine .bind (draws_chain ?_ given) fun n => .pure rfl
  rw [List.forall_mem_map]
  exact fun b _ => numbered registry b

end Mapping

namespace Program

variable {registry : KindRegistry} {d : Document} {s s' : Supply} {p : Program}

/-- Reading a document takes back no number, whether it succeeds or not. -/
theorem next_le_ofDocument (registry : KindRegistry) (d : Document) (s : Supply) :
    s.next ≤ ((ofDocument registry d).run s).2.next := by
  rcases version : checkVersion d.formatVersion with e | _
  · rw [ofDocument, version]
    exact Nat.le_refl _
  · obtain ⟨later, -⟩ := Mapping.Draws.mapM (l := d.instances)
      (fun c _ => Mapping.draws_canvasChain registry c) [] [] s .nil (by simp [Supply.Covers])
    rw [ofDocument_run s version]
    rcases made : ((d.instances.mapM (Mapping.canvasChain registry)).run []).run s with
      ⟨e | ⟨instances, seen⟩, s''⟩ <;> rw [made] at later <;> exact later

/-- The ids of a program that was read are different from each other and from those that were
handed out before. -/
theorem nodup_append_ids (read : (ofDocument registry d).run s = (.ok p, s')) {given : List NodeId}
    (distinct : given.Nodup) (covered : s.Covers given) :
    (given ++ p.ids).Nodup ∧ s'.Covers (given ++ p.ids) := by
  rcases version : checkVersion d.formatVersion with e | _
  · rw [ofDocument, version] at read
    cases read
  · rw [ofDocument_run s version] at read
    rcases made : ((d.instances.mapM (Mapping.canvasChain registry)).run []).run s with
      ⟨e | ⟨instances, seen⟩, s''⟩ <;> rw [made] at read <;> cases read
    obtain ⟨-, drawn⟩ := Mapping.Draws.mapM (fun c _ => Mapping.draws_canvasChain registry c)
      given [] s distinct covered
    rw [ids_eq]
    exact drawn instances seen s' made

/-- All nodes of a program that was read have different ids, which were handed out for them. -/
theorem ids_of_ofDocument (read : (ofDocument registry d).run s = (.ok p, s')) :
    s.next ≤ s'.next ∧ p.ids.Nodup ∧ s'.Covers p.ids := by
  have later := next_le_ofDocument registry d s
  rw [read] at later
  exact ⟨later, nodup_append_ids read .nil (by simp [Supply.Covers])⟩

/-- No node had one of the ids of a program that was read before. -/
theorem new_of_ofDocument (read : (ofDocument registry d).run s = (.ok p, s')) :
    ∀ i ∈ p.ids, s.next ≤ i.number := by
  intro i hi
  by_contra old
  -- the ids that were handed out are given
  let given := (List.range s.next).map NodeId.mk
  have distinct : given.Nodup := List.nodup_range.map fun _ _ => NodeId.mk.inj
  have covered : s.Covers given := by
    rw [Supply.Covers, List.forall_mem_map]
    exact fun n hn => List.mem_range.1 hn
  have mem : i ∈ given := List.mem_map.2 ⟨i.number, List.mem_range.2 (Nat.lt_of_not_le old), rfl⟩
  exact List.disjoint_of_nodup_append (nodup_append_ids read distinct covered).1 mem hi

end Program

end BlockGraph

import BlockGraph.Document.Equality
import BlockGraph.Proofs.Mapping.Division
import BlockGraph.Proofs.Node.Content
import BlockGraph.Proofs.Phrase

/-!
# The content of documents

What a document says, apart from the ids that the nodes get when it is read: `content` needs no
state and no fresh numbers. Reading gives the content, and it fails where there is none or where
two blocks have one id.

* `content_eq_ok_iff`: the content of a block, row by row.
* `Program.ofDocument_eq_ok_iff`: reading is finding the content, with distinct block ids.
-/

namespace BlockGraph

namespace Mapping

variable {α β γ : Type}

/-! ## Content -/

/-- A block inside another with its content. -/
abbrev Read := Block.Visited (Except Error Node)

/-- The content of a node that belongs to no block. -/
def structuralContent (p : Phrase Node) : Node := .mk { id := ⟨0⟩ } p

/-- The content of a block, given that of its rows. -/
def blockContent (l : BlockLayer α) (p : Phrase Node) : Node :=
  .mk { id := ⟨0⟩, blockId := some l.id, attributes := l.attributes, comment := l.comment } p

/-- The content of a value slot. -/
def readValue (slot : String) : Option Read → Except Error Node
  | none => .ok (structuralContent .emptyExpr)
  | some b => do
    let node ← b.result
    checkValue slot b.block node
    return node

/-- The content of a chain. -/
def readChain (slot : Option String) (blocks : List Read) : Except Error Node := do
  let statements ← blocks.mapM fun b => do
    let node ← b.result
    checkStatement slot b.block node
    return node
  return structuralContent (.stmtList statements)

/-- The content of a block. -/
def content (registry : KindRegistry) : Block → Except Error Node :=
  Block.recurse fun l => do
    if l.id.isEmpty then throw (.malformed "" (.emptyId l.type))
    let (kind, portions) ← divide registry l
    let values ← portions.mapM (Portion.fill readValue fun slot => readChain slot)
    let phrase ← Phrase.build kind l.id values
    checkElse l.id l.attributes.mutation phrase
    return blockContent l phrase

variable {registry : KindRegistry}

/-- A block with its content. -/
def read (registry : KindRegistry) (b : Block) : Read := ⟨b, content registry b⟩

/-- The content of a value slot that holds `b`. -/
def valueContent (registry : KindRegistry) (slot : String) (b : Option Block) :
    Except Error Node :=
  readValue slot (b.map (read registry))

/-- The content of a chain of blocks. -/
def chainContent (registry : KindRegistry) (slot : Option String) (blocks : List Block) :
    Except Error Node :=
  readChain slot (blocks.map (read registry))

/-- The content of what a row takes. -/
def Portion.content (registry : KindRegistry) (p : Portion Block) : Except Error (SlotValue Node) :=
  p.fill (valueContent registry) fun slot => chainContent registry slot

theorem Portion.fill_map {m : Type → Type} [Monad m] [LawfulMonad m] (f : α → β)
    (value : String → Option β → m Node) (chain : String → List β → m Node) (p : Portion α) :
    (p.map f).fill value chain =
      p.fill (fun slot b => value slot (b.map f)) fun slot bs => chain slot (bs.map f) := by
  cases p with
  | optionalStatement slot blocks => cases blocks <;> rfl
  | repeatedValue members | repeatedStatement members =>
    simp only [map, fill, List.mapM_map, Function.comp_def]
  | _ => rfl

/-- What it takes to have a content. -/
theorem content_eq_ok_iff {l : BlockLayer Block} {n : Node} :
    content registry (.mk l) = .ok n ↔ l.id ≠ "" ∧ ∃ portions p,
      divide registry l = .ok (p.kind, portions) ∧
        List.Forall₂ (fun portion v => portion.content registry = .ok v) portions p.slots ∧
          p.Buildable ∧ checkElse l.id l.attributes.mutation p = .ok () ∧ n = blockContent l p := by
  rw [content, Block.recurse_mk]
  change (do
    if l.id.isEmpty then throw (.malformed "" (.emptyId l.type))
    let (kind, portions) ← divide registry (l.map (read registry))
    let values ← portions.mapM (Portion.fill readValue fun slot => readChain slot)
    let phrase ← Phrase.build kind l.id values
    checkElse l.id l.attributes.mutation phrase
    return blockContent l phrase : Except Error Node) = .ok n ↔ _
  have fill (portion : Portion Block) : (portion.map (read registry)).fill readValue
      (fun slot => readChain slot) = portion.content registry := Portion.fill_map _ _ _ _
  by_cases named : l.id = ""
  · refine iff_of_false (fun h => ?_) fun h => h.1 named
    rw [if_pos (String.isEmpty_iff.2 named)] at h
    cases h
  · simp only [String.isEmpty_iff, named, if_false, divide_map, Except.bind_eq_ok_iff,
      Except.map_eq_ok_iff, Except.mapM_eq_ok_iff, Phrase.build_eq_ok_iff, Except.pure_eq_ok_iff]
    refine ⟨fun h => ?_, fun h => ?_⟩
    · obtain ⟨_, ⟨⟨kind, portions⟩, divided, rfl⟩, _, filled, p, ⟨rfl, rfl, buildable⟩, _, last,
        rfl⟩ := h
      refine ⟨named, portions, p, divided, ?_, buildable, last, rfl⟩
      simpa only [Prod.map, List.forall₂_map_left_iff, fill] using filled
    · obtain ⟨-, portions, p, divided, filled, buildable, last, rfl⟩ := h
      refine ⟨_, ⟨_, divided, rfl⟩, _, ?_, p, ⟨rfl, rfl, buildable⟩, (), last, rfl⟩
      simpa only [Prod.map, List.forall₂_map_left_iff, fill] using filled

/-- The rows of a block that has a content. -/
theorem filled_of_content {l : BlockLayer Block} {p : Phrase Node}
    (h : content registry (.mk l) = .ok (blockContent l p)) : p.Buildable ∧ ∃ portions,
      divide registry l = .ok (p.kind, portions) ∧
        List.Forall₂ (fun portion v => portion.content registry = .ok v) portions p.slots := by
  obtain ⟨-, portions, q, divided, filled, buildable, -, same⟩ := content_eq_ok_iff.1 h
  obtain rfl : p = q := congrArg Node.phrase same
  exact ⟨buildable, portions, divided, filled⟩

/-! ## Where blocks may stand -/

theorem valueContent_some_eq_ok_iff {slot : String} {b : Block} {n : Node} :
    valueContent registry slot (some b) = .ok n ↔
      Mapping.content registry b = .ok n ∧ n.kind.isExpression = true := by
  simp only [valueContent, readValue, Option.map_some, Except.bind_eq_ok_iff, read,
    Except.pure_eq_ok_iff, checkValue]
  refine ⟨fun h => ?_, fun h => ?_⟩
  · obtain ⟨m, h, _, check, rfl⟩ := h
    split at check
    · next expression => exact ⟨h, expression⟩
    · cases check
  · obtain ⟨h, expression⟩ := h
    exact ⟨n, h, (), if_pos expression, rfl⟩

theorem chainContent_eq_ok_iff {slot : Option String} {blocks : List Block} {n : Node} :
    chainContent registry slot blocks = .ok n ↔ ∃ ns, List.Forall₂ (fun b m =>
      Mapping.content registry b = .ok m ∧ (slot.isSome → m.kind.isExpression = false)) blocks ns ∧
        structuralContent (.stmtList ns) = n := by
  simp only [chainContent, readChain, Except.bind_eq_ok_iff, Except.mapM_eq_ok_iff,
    List.forall₂_map_left_iff, Except.pure_eq_ok_iff, read]
  refine exists_congr fun ns => and_congr_left fun _ => ?_
  have step (b : Block) (m : Node) : (∃ n, Mapping.content registry b = .ok n ∧
      ∃ u, checkStatement slot b n = .ok u ∧ n = m) ↔
        Mapping.content registry b = .ok m ∧ (slot.isSome → m.kind.isExpression = false) := by
    refine ⟨fun h => ?_, fun h => ?_⟩
    · obtain ⟨m, h, _, check, rfl⟩ := h
      refine ⟨h, fun named => ?_⟩
      obtain ⟨slot, rfl⟩ := Option.isSome_iff_exists.1 named
      rw [checkStatement] at check
      split at check
      · cases check
      · next expression => simpa using expression
    · obtain ⟨h, statement⟩ := h
      refine ⟨m, h, (), ?_, rfl⟩
      cases slot with
      | none => rfl
      | some slot => simp [checkStatement, statement rfl]
  simp only [step]

theorem exists_valueContent_iff {slot : String} {b : Option Block} :
    (∃ n, valueContent registry slot b = .ok n) ↔
      ∀ b' ∈ b, ∃ n, Mapping.content registry b' = .ok n ∧ n.kind.isExpression = true := by
  cases b with
  | none => exact iff_of_true ⟨_, rfl⟩ (by simp)
  | some b => simp [valueContent_some_eq_ok_iff]

theorem exists_chainContent_iff {slot : String} {blocks : List Block} :
    (∃ n, chainContent registry (some slot) blocks = .ok n) ↔ ∀ b ∈ blocks,
      ∃ n, Mapping.content registry b = .ok n ∧ n.kind.isExpression = false := by
  rw [← Except.exists_forall₂_iff]
  simp [chainContent_eq_ok_iff]

/-- What is made of a content does not change whether there is one. -/
theorem exists_map_eq_ok_iff {x : Except Error α} {f : α → β} :
    (∃ b, (do let a ← x; return f a) = Except.ok b) ↔ ∃ a, x = .ok a := by
  simp only [Except.bind_eq_ok_iff, Except.pure_eq_ok_iff]
  refine ⟨fun h => ?_, fun h => ?_⟩
  · obtain ⟨_, a, h, -⟩ := h
    exact ⟨a, h⟩
  · obtain ⟨a, h⟩ := h
    exact ⟨_, a, h, rfl⟩

/-- What a row took has a content if all blocks in it have one and stand where they may. -/
theorem exists_portionContent_iff {p : Portion Block} :
    (∃ v, p.content registry = .ok v) ↔
      (∀ e ∈ p.values, ∃ n, Mapping.content registry e.2 = .ok n ∧ n.kind.isExpression = true) ∧
        ∀ e ∈ p.statements, ∀ b ∈ e.2,
          ∃ n, Mapping.content registry b = .ok n ∧ n.kind.isExpression = false := by
  cases p with
  | literal slot text => exact iff_of_true ⟨_, rfl⟩ (by simp [Portion.values, Portion.statements])
  | value slot b =>
    refine (exists_map_eq_ok_iff.trans exists_valueContent_iff).trans ?_
    cases b <;> simp [Portion.values, Portion.statements]
  | statement slot blocks =>
    refine (exists_map_eq_ok_iff.trans exists_chainContent_iff).trans ?_
    cases blocks <;> simp [Portion.values, Portion.statements]
  | optionalStatement slot blocks =>
    cases blocks with
    | nil => exact iff_of_true ⟨_, rfl⟩ (by simp [Portion.values, Portion.statements])
    | cons b blocks =>
      refine (exists_map_eq_ok_iff.trans exists_chainContent_iff).trans ?_
      simp [Portion.values, Portion.statements]
  | repeatedValue members =>
    refine exists_map_eq_ok_iff.trans ?_
    simp only [Except.mapM_eq_ok_iff, Except.exists_forall₂_iff, exists_valueContent_iff]
    simp only [Portion.values, Portion.statements, List.mem_filterMap, Option.map_eq_some_iff,
      List.not_mem_nil, false_imp_iff, implies_true, and_true]
    constructor
    · rintro h _ ⟨e, he, b, hb, rfl⟩
      exact h e he b hb
    · intro h e he b hb
      exact h (e.1, b) ⟨e, he, b, hb, rfl⟩
  | repeatedStatement members =>
    refine exists_map_eq_ok_iff.trans ?_
    simp only [Except.mapM_eq_ok_iff, Except.exists_forall₂_iff, exists_chainContent_iff]
    simp only [Portion.values, Portion.statements, List.mem_filter, List.not_mem_nil,
      false_imp_iff, implies_true, true_and]
    constructor
    · intro h e he
      exact h e he.1
    · intro h e he b hb
      refine h e ⟨he, ?_⟩ b hb
      rw [Bool.not_eq_true', List.isEmpty_eq_false_iff]
      exact List.ne_nil_of_mem hb

/-- How many members a family has. -/
def sizeOfContent : SlotValue Node → Nat
  | .repeated nodes => nodes.length
  | _ => 0

theorem size_eq_of_content {p : Portion Block} {v : SlotValue Node}
    (h : p.content registry = .ok v) : p.size = sizeOfContent v := by
  cases p with
  | literal => cases h; rfl
  | optionalStatement slot blocks =>
    cases blocks with
    | nil => cases h; rfl
    | cons => obtain ⟨_, -, e⟩ := Except.bind_eq_ok_iff.1 h; cases e; rfl
  | repeatedValue | repeatedStatement =>
    obtain ⟨ns, read, e⟩ := Except.bind_eq_ok_iff.1 h
    cases e
    exact (Except.mapM_eq_ok_iff.1 read).length_eq
  | _ => obtain ⟨_, -, e⟩ := Except.bind_eq_ok_iff.1 h; cases e; rfl

/-! ## All nodes of a content -/

section

variable {P : Node → Prop} (structural : ∀ p, p.kind.blockType = none → P (structuralContent p))

theorem walk_structuralContent (p : Phrase Node) :
    (structuralContent p).walk = structuralContent p :: p.children.flatMap Node.walk :=
  Node.walk_eq _

include structural

theorem forall_walk_valueContent_iff {slot : String} {o : Option Block} {n : Node}
    (h : valueContent registry slot o = .ok n) :
    (∀ m ∈ n.walk, P m) ↔
      ∀ b ∈ o, ∀ m, Mapping.content registry b = .ok m → ∀ k ∈ m.walk, P k := by
  cases o with
  | none =>
    cases h
    refine iff_of_true (fun m hm => ?_) (by simp)
    rw [walk_structuralContent] at hm
    obtain rfl := List.mem_singleton.1 hm
    exact structural .emptyExpr rfl
  | some b =>
    simp [(valueContent_some_eq_ok_iff.1 h).1]

theorem forall_walk_chainContent_iff {slot : Option String} {blocks : List Block} {n : Node}
    (h : chainContent registry slot blocks = .ok n) :
    (∀ m ∈ n.walk, P m) ↔
      ∀ b ∈ blocks, ∀ m, Mapping.content registry b = .ok m → ∀ k ∈ m.walk, P k := by
  obtain ⟨ns, read, rfl⟩ := chainContent_eq_ok_iff.1 h
  rw [walk_structuralContent, List.forall_mem_cons]
  simp only [structural (.stmtList ns) rfl, true_and, List.forall_mem_flatMap]
  refine Except.forall_right_iff read fun b m h => ?_
  simp [h.1]

/-- What holds of nodes without blocks holds of all nodes in a row if it does in all its
blocks. -/
theorem forall_walk_portionContent_iff {p : Portion Block} {v : SlotValue Node}
    (h : p.content registry = .ok v) :
    (∀ n ∈ v.nodes, ∀ m ∈ n.walk, P m) ↔
      ∀ b ∈ p.blocks, ∀ m, Mapping.content registry b = .ok m → ∀ k ∈ m.walk, P k := by
  cases p with
  | literal slot text =>
    cases h
    simp [SlotValue.nodes]
  | value slot b =>
    obtain ⟨n, read, e⟩ := Except.bind_eq_ok_iff.1 h
    cases e
    simpa [SlotValue.nodes] using forall_walk_valueContent_iff structural read
  | statement slot blocks =>
    obtain ⟨n, read, e⟩ := Except.bind_eq_ok_iff.1 h
    cases e
    simpa [SlotValue.nodes] using forall_walk_chainContent_iff structural read
  | optionalStatement slot blocks =>
    cases blocks with
    | nil =>
      cases h
      simp [SlotValue.nodes]
    | cons b blocks =>
      obtain ⟨n, read, e⟩ := Except.bind_eq_ok_iff.1 h
      cases e
      rw [Portion.blocks_optionalStatement]
      simpa [SlotValue.nodes] using forall_walk_chainContent_iff structural read
  | repeatedValue members =>
    obtain ⟨ns, read, e⟩ := Except.bind_eq_ok_iff.1 h
    cases e
    rw [SlotValue.nodes, Except.forall_right_iff (Except.mapM_eq_ok_iff.1 read) fun e n h =>
      forall_walk_valueContent_iff structural h, Portion.blocks_repeatedValue,
      List.forall_mem_filterMap]
    rfl
  | repeatedStatement members =>
    obtain ⟨ns, read, e⟩ := Except.bind_eq_ok_iff.1 h
    cases e
    rw [SlotValue.nodes, Except.forall_right_iff (Except.mapM_eq_ok_iff.1 read) fun e n h =>
      forall_walk_chainContent_iff structural h, Portion.blocks_repeatedStatement,
      List.forall_mem_flatMap]

/-- All nodes of a block: the one of the block itself and those of the blocks in its rows. -/
theorem forall_walk_blockContent_iff {l : BlockLayer Block} {p : Phrase Node}
    {portions : List (Portion Block)} (buildable : p.Buildable)
    (filled : List.Forall₂ (fun portion v => portion.content registry = .ok v) portions p.slots) :
    (∀ m ∈ (blockContent l p).walk, P m) ↔ P (blockContent l p) ∧ ∀ q ∈ portions, ∀ b ∈ q.blocks,
      ∀ m, Mapping.content registry b = .ok m → ∀ k ∈ m.walk, P k := by
  rw [Node.walk_eq, List.forall_mem_cons]
  refine and_congr_right fun _ => ?_
  change (∀ m ∈ p.children.flatMap Node.walk, P m) ↔ _
  rw [buildable.children, List.flatMap_assoc]
  simp only [List.forall_mem_flatMap]
  refine Except.forall_right_iff filled fun q v h => ?_
  exact forall_walk_portionContent_iff structural h

/-- What holds of the nodes of single blocks, and of those without blocks, holds of all nodes. -/
theorem forall_walk_of_content (single : ∀ (l : BlockLayer Block) p,
      Mapping.content registry (.mk l) = .ok (blockContent l p) → P (blockContent l p))
    {b : Block} {n : Node} (h : Mapping.content registry b = .ok n) : ∀ m ∈ n.walk, P m := by
  induction b using Block.induction generalizing n with
  | step l ih =>
    obtain ⟨-, portions, p, divided, filled, buildable, -, rfl⟩ := content_eq_ok_iff.1 h
    refine (forall_walk_blockContent_iff structural buildable filled).2
      ⟨single l p h, fun q hq b hb m hm => ?_⟩
    exact ih b (mem_children_of_divide divided hq hb) hm

end

/-! ## Reading with ids -/

/-- Reading gives what `y` gives, up to `g`; it sees the ids of that, in order, and fails on an id
that it has seen before. -/
def Reads (x : Parse α) (g : α → β) (ids : β → List String) (y : Except Error β) : Prop :=
  ∀ seen s, seen.Nodup → ∀ b seen',
    (∃ a s', (x.run seen).run s = (.ok (a, seen'), s') ∧ g a = b) ↔
      y = .ok b ∧ seen' = (ids b).reverse ++ seen ∧ seen'.Nodup

namespace Reads

variable {δ : Type} {x : Parse α} {f : α → Parse γ} {y : Except Error β} {z : β → Except Error δ}
  {g : α → β} {h : γ → δ} {i : β → List String} {j : β → δ → List String} {k : δ → List String}

theorem congr {y' : Except Error β} (hx : Reads x g i y) (same : ∀ b, y = .ok b ↔ y' = .ok b) :
    Reads x g i y' := fun seen s distinct b seen' => by
  rw [hx seen s distinct b seen', same]

protected theorem pure {a : α} (value : ∀ b, y = .ok b ↔ g a = b) (none : i (g a) = []) :
    Reads (pure a) g i y := by
  intro seen s distinct b seen'
  rw [value]
  refine ⟨fun h => ?_, fun h => ?_⟩
  · obtain ⟨_, _, e, rfl⟩ := h
    cases e
    exact ⟨rfl, by simp [none], distinct⟩
  · obtain ⟨rfl, rfl, -⟩ := h
    exact ⟨a, s, by rw [none]; rfl, rfl⟩

theorem run_bind (x : Parse α) (f : α → Parse γ) (seen : List String) (s : Supply) :
    ((x >>= f).run seen).run s = match (x.run seen).run s with
      | (.ok (a, seen'), s') => ((f a).run seen').run s'
      | (.error e, s') => (.error e, s') := by
  change (x.run seen >>= fun r => (f r.1).run r.2 : Make _).run s = _
  rw [ExceptT.run_bind_stateM]
  rcases (x.run seen).run s with ⟨_ | ⟨_, _⟩, s'⟩ <;> rfl

/-- First the ids of the one part are seen, then those of the other. -/
protected theorem bind (hx : Reads x g i y) (hf : ∀ a, Reads (f a) h (j (g a)) (z (g a)))
    (join : ∀ b d, y = .ok b → z b = .ok d → k d = i b ++ j b d) :
    Reads (x >>= f) h k (y >>= z) := by
  intro seen s distinct d seen''
  simp only [run_bind, Except.bind_eq_ok_iff]
  refine ⟨fun h => ?_, fun h => ?_⟩
  · obtain ⟨c, s'', run, rfl⟩ := h
    rcases first : (x.run seen).run s with ⟨e | ⟨a, seen'⟩, s'⟩ <;> rw [first] at run
    · cases run
    · obtain ⟨hy, rfl, distinct'⟩ := (hx seen s distinct _ _).1 ⟨a, s', first, rfl⟩
      obtain ⟨hz, rfl, distinct''⟩ := (hf a _ s' distinct' _ _).1 ⟨c, s'', run, rfl⟩
      have ids := join _ _ hy hz
      exact ⟨⟨_, hy, hz⟩, by simp [ids], distinct''⟩
  · obtain ⟨⟨b, hy, hz⟩, rfl, distinct''⟩ := h
    rw [join _ _ hy hz, List.reverse_append, List.append_assoc] at distinct'' ⊢
    obtain ⟨a, s', first, rfl⟩ := (hx seen s distinct b _).2 ⟨hy, rfl, distinct''.of_append_right⟩
    rw [first]
    exact (hf a _ s' distinct''.of_append_right d _).2 ⟨hz, rfl, distinct''⟩

/-- What is made of a result has the ids of the result. -/
protected theorem map {u : α → γ} {w : β → δ} (hx : Reads x g i y) (image : ∀ a, h (u a) = w (g a))
    (ids : ∀ b, k (w b) = i b) :
    Reads (do let a ← x; return u a) h k (do let b ← y; return w b) := by
  refine hx.bind (j := fun _ _ => []) (fun a => .pure (fun d => by simp [image]) rfl) ?_
  intro b d _ e
  cases e
  rw [ids, List.append_nil]

/-- A part that may fail and does nothing else. -/
protected theorem lift (u : Except Error α) (value : ∀ b, y = .ok b ↔ ∃ a, u = .ok a ∧ g a = b) :
    Reads (liftM u : Parse α) g (fun _ => []) y := by
  cases u with
  | error e =>
    intro seen s _ b seen'
    rw [value]
    refine ⟨fun h => ?_, fun h => ?_⟩
    · obtain ⟨_, _, h, -⟩ := h
      cases h
    · obtain ⟨⟨_, h, -⟩, -⟩ := h
      cases h
  | ok a => exact .pure (fun b => by simp [value]) rfl

protected theorem fail (e : Error) (no : ∀ b, y ≠ .ok b) : Reads (throw e : Parse α) g i y := by
  intro seen s _ b seen'
  refine ⟨fun h => ?_, fun h => ?_⟩
  · obtain ⟨_, _, h, -⟩ := h
    cases h
  · obtain ⟨h, -⟩ := h
    exact absurd h (no b)

/-- A part that only makes a node. -/
protected theorem create {m : Fresh α} {b : β} (value : ∀ s, g (m.run s).1 = b) (none : i b = []) :
    Reads (liftM m : Parse α) g i (.ok b) := by
  intro seen s distinct b' seen'
  have run : ((liftM m : Parse α).run seen).run s = (.ok ((m.run s).1, seen), (m.run s).2) := rfl
  rw [run]
  refine ⟨fun h => ?_, fun h => ?_⟩
  · obtain ⟨_, _, e, rfl⟩ := h
    cases e
    exact ⟨by rw [value], by rw [value, none]; rfl, distinct⟩
  · obtain ⟨e, rfl, -⟩ := h
    cases e
    exact ⟨_, _, by rw [none]; rfl, value s⟩

theorem claim_run (id : String) (seen : List String) (s : Supply) :
    ((claim id).run seen).run s =
      if id ∈ seen then (.error (.malformed id .duplicateId), s) else (.ok ((), id :: seen), s) := by
  rw [claim]
  change (((do
    if seen.contains id then throw (.malformed id .duplicateId)
    modify (id :: ·) : Parse Unit)).run seen).run s = _
  by_cases mem : id ∈ seen
  · rw [if_pos (List.contains_iff_mem.2 mem), if_pos mem]
    rfl
  · rw [if_neg (by simpa using mem), if_neg mem]
    rfl

/-- The ids seen before must not contain the one seen now. -/
protected theorem claim (id : String) :
    Reads (claim id) (fun _ => ()) (fun _ => [id]) (.ok ()) := by
  intro seen s distinct b seen'
  rw [claim_run]
  by_cases mem : id ∈ seen
  · rw [if_pos mem]
    refine ⟨fun h => ?_, fun h => ?_⟩
    · obtain ⟨_, _, h, -⟩ := h
      cases h
    · obtain ⟨-, rfl, distinct'⟩ := h
      exact absurd mem (List.nodup_cons.1 distinct').1
  · rw [if_neg mem]
    refine ⟨fun h => ?_, fun h => ?_⟩
    · obtain ⟨_, _, e, rfl⟩ := h
      cases e
      exact ⟨rfl, rfl, List.nodup_cons.2 ⟨mem, distinct⟩⟩
    · obtain ⟨-, rfl, -⟩ := h
      exact ⟨(), s, rfl, rfl⟩

protected theorem mapM {l : List δ} {u : δ → Parse α} {v : δ → Except Error β}
    (each : ∀ d ∈ l, Reads (u d) g i (v d)) :
    Reads (l.mapM u) (List.map g) (List.flatMap i) (l.mapM v) := by
  induction l with
  | nil => exact .pure (fun b => by simp) rfl
  | cons d l ih =>
    rw [List.mapM_cons, List.mapM_cons]
    refine (each d List.mem_cons_self).bind (j := fun _ bs => bs.tail.flatMap i) (fun a => ?_) ?_
    · refine (ih fun d' hd => each d' (List.mem_cons_of_mem _ hd)).bind (j := fun _ _ => [])
        (fun as => .pure (fun b => by simp) rfl) ?_
      intro bs bs' _ h
      cases h
      simp
    · intro b bs _ h
      obtain ⟨bs', -, h⟩ := Except.bind_eq_ok_iff.1 h
      cases h
      rfl

end Reads

/-! ## Reading gives the content -/

/-- A block with its reading. -/
def inner (registry : KindRegistry) (b : Block) : Inner := ⟨b, block registry b⟩

/-- How a block is read, with the blocks in its slots. -/
theorem block_mk (registry : KindRegistry) (l : BlockLayer Block) : block registry (.mk l) = (do
    if l.id.isEmpty then throw (.malformed "" (.emptyId l.type))
    claim l.id
    let layout ← liftM (Layout.of registry (l.map (inner registry)))
    let r ←
      layout.slots.rows value (fun slot => chain slot) l.id layout.declared layout.kind.fields
    let phrase ← liftM (assemble (l.map (inner registry)) layout.kind r.1 r.2)
    liftM (Node.createSealed (some l.id) l.attributes l.comment phrase : Fresh Node)) := by
  rw [block, Block.recurse_mk]
  rfl

/-- Reading `b` gives its content. -/
def Understood (registry : KindRegistry) (b : Block) : Prop :=
  Reads (block registry b) Node.bare Node.blockIds (content registry b)

/-- The ids of the blocks in a slot. -/
def slotIds (v : SlotValue Node) : List String := v.nodes.flatMap Node.blockIds

/-- A node that is checked by its kind. -/
theorem Reads.checked {x : Parse Node} {y : Except Error Node} {check : Node → Except Error Unit}
    (hx : Reads x Node.bare Node.blockIds y) (same : ∀ n : Node, check n.bare = check n) :
    Reads (do let n ← x; liftM (check n); return n) Node.bare Node.blockIds
      (do let n ← y; check n; return n) := by
  refine hx.bind (j := fun _ _ => []) (fun n => ?_) fun n m _ h => ?_
  · rw [same]
    have same (b : Unit) : check n = .ok b ↔ ∃ a, check n = .ok a ∧ id a = b :=
      ⟨fun h => ⟨b, h, rfl⟩, fun h => h.choose_spec.2 ▸ h.choose_spec.1⟩
    refine (Reads.lift (check n) same).bind (j := fun _ _ => []) (fun _ => ?_) fun _ _ _ _ => rfl
    exact .pure (fun b => by simp) rfl
  · obtain ⟨_, -, h⟩ := Except.bind_eq_ok_iff.1 h
    cases h
    simp

theorem bare_structural (p : Phrase Node) (s : Supply) :
    ((Node.structural p).run s).1.bare = structuralContent (p.map Node.bare) :=
  Node.bare_mk _ _

theorem blockIds_structuralContent (p : Phrase Node) :
    (structuralContent p).blockIds = p.children.flatMap Node.blockIds :=
  Node.blockIds_eq _

theorem reads_value {slot : String} {b : Option Block} (h : ∀ b' ∈ b, Understood registry b') :
    Reads (value slot (b.map (inner registry))) Node.bare Node.blockIds
      (valueContent registry slot b) := by
  cases b with
  | none => exact .create (bare_structural .emptyExpr) (blockIds_structuralContent _)
  | some b => exact (h b rfl).checked fun n => by rw [checkValue, Node.kind_bare]; rfl

theorem reads_chain {slot : Option String} {blocks : List Block}
    (h : ∀ b ∈ blocks, Understood registry b) :
    Reads (chain slot (blocks.map (inner registry))) Node.bare Node.blockIds
      (chainContent registry slot blocks) := by
  rw [chain, chainContent, readChain, List.mapM_map, List.mapM_map]
  refine (Reads.mapM (g := Node.bare) (i := Node.blockIds) fun b hb => ?_).bind
    (j := fun _ _ => []) (fun statements => .create (fun s => ?_) rfl) fun ns n _ h => ?_
  · refine (h b hb).checked fun n => ?_
    cases slot <;> simp only [checkStatement, Node.kind_bare]
  · rw [bare_structural]
    rfl
  · cases h
    rw [blockIds_structuralContent, List.append_nil]
    rfl

/-- What a row takes is read slot by slot. -/
theorem reads_portion {p : Portion Block} (h : ∀ b ∈ p.blocks, Understood registry b) :
    Reads ((p.map (inner registry)).fill value fun slot => chain slot) (SlotValue.map Node.bare)
      slotIds (p.content registry) := by
  rw [Portion.fill_map, Portion.content]
  cases p with
  | literal slot text => exact .pure (fun b => by simp [Portion.fill, SlotValue.map]) rfl
  | value slot b =>
    refine (reads_value fun b' hb => h b' (by simpa using hb)).map (fun _ => rfl) fun n => ?_
    simp [slotIds, SlotValue.nodes]
  | statement slot blocks =>
    refine (reads_chain fun b hb => h b (by simpa using hb)).map (fun _ => rfl) fun n => ?_
    simp [slotIds, SlotValue.nodes]
  | optionalStatement slot blocks =>
    cases blocks with
    | nil => exact .pure (fun b => by simp [Portion.fill, SlotValue.map]) rfl
    | cons b blocks =>
      refine (reads_chain fun b' hb => h b' ?_).map (fun _ => rfl) fun n => ?_
      · rwa [Portion.blocks_optionalStatement]
      · simp [slotIds, SlotValue.nodes]
  | repeatedValue members =>
    refine (Reads.mapM (g := Node.bare) (i := Node.blockIds) fun e he =>
      reads_value fun b hb => h b ?_).map (fun _ => rfl) fun _ => rfl
    rw [Portion.blocks_repeatedValue]
    exact List.mem_filterMap.2 ⟨e, he, hb⟩
  | repeatedStatement members =>
    refine (Reads.mapM (g := Node.bare) (i := Node.blockIds) fun e he =>
      reads_chain fun b hb => h b ?_).map (fun _ => rfl) fun _ => rfl
    rw [Portion.blocks_repeatedStatement]
    exact List.mem_flatMap.2 ⟨e, he, hb⟩

/-- The contents of the rows of a table, and what is left of the block. -/
def rowsContent (registry : KindRegistry) (blockId : String) (declared : Option Nat)
    (s : Slots Block) (specs : List FieldSpec) :
    Except Error (List (SlotValue Node) × Slots Inner) := do
  let (portions, left) ← s.takeAll blockId declared specs
  let values ← portions.mapM (Portion.content registry)
  return (values, left.map (inner registry))

theorem rowsContent_eq_ok_iff {blockId : String} {declared : Option Nat} {s : Slots Block}
    {specs : List FieldSpec} {r : List (SlotValue Node) × Slots Inner} :
    rowsContent registry blockId declared s specs = .ok r ↔ ∃ portions left,
      s.takeAll blockId declared specs = .ok (portions, left) ∧
        List.Forall₂ (fun p v => p.content registry = .ok v) portions r.1 ∧
          r.2 = left.map (inner registry) := by
  simp only [rowsContent, Except.bind_eq_ok_iff, Except.pure_eq_ok_iff, Except.mapM_eq_ok_iff]
  refine ⟨fun h => ?_, fun h => ?_⟩
  · obtain ⟨⟨portions, left⟩, taken, vs, filled, rfl⟩ := h
    exact ⟨portions, left, taken, filled, rfl⟩
  · obtain ⟨portions, left, taken, filled, e⟩ := h
    exact ⟨(portions, left), taken, r.1, filled, by rw [← e]⟩

/-- The contents of rows one after the other. -/
theorem reads_rows {blockId : String} {declared : Option Nat} {s : Slots Block}
    {specs : List FieldSpec} (h : s.Hold (Understood registry)) :
    Reads ((s.map (inner registry)).rows value (fun slot => chain slot) blockId declared specs)
      (Prod.map (List.map (SlotValue.map Node.bare)) id) (fun r => r.1.flatMap slotIds)
      (rowsContent registry blockId declared s specs) := by
  induction specs generalizing s with
  | nil => exact .pure (fun b => by constructor <;> intro e <;> cases e <;> rfl) rfl
  | cons spec specs ih =>
    rw [Slots.rows, Slots.take_map]
    rcases taken : s.take blockId declared spec with e | ⟨portion, s'⟩
    · refine .fail e fun r h => ?_
      obtain ⟨_, _, all, -⟩ := rowsContent_eq_ok_iff.1 h
      obtain ⟨_, _, _, first, -⟩ := Slots.takeAll_cons_eq_ok_iff.1 all
      rw [taken] at first
      cases first
    · obtain ⟨portionHolds, restHolds⟩ := (Slots.shares_of_take taken).hold h
      refine Reads.congr (y := do
        let v ← portion.content registry
        let r ← rowsContent registry blockId declared s' specs
        return (v :: r.1, r.2)) ?_ fun b => ?_
      · change Reads (do
          let first ← (portion.map (inner registry)).fill value fun slot => chain slot
          let r ←
            (s'.map (inner registry)).rows value (fun slot => chain slot) blockId declared specs
          return (first :: r.1, r.2)) _ _ _
        refine (reads_portion (portionHolds portion List.mem_cons_self)).bind
          (j := fun _ r => r.1.tail.flatMap slotIds) (fun v => ?_) ?_
        · refine (ih restHolds).bind (j := fun _ _ => []) (fun r => .pure (fun b => ?_) rfl) ?_
          · simp
          · rintro ⟨vs, left⟩ r _ e
            cases e
            simp
        · intro v r _ e
          obtain ⟨⟨vs, left⟩, -, e⟩ := Except.bind_eq_ok_iff.1 e
          cases e
          rfl
      · simp only [Except.bind_eq_ok_iff, Except.pure_eq_ok_iff, rowsContent_eq_ok_iff,
          Slots.takeAll_cons_eq_ok_iff]
        refine ⟨fun h => ?_, fun h => ?_⟩
        · obtain ⟨v, hv, r, ⟨portions, left, rest, filled, e⟩, rfl⟩ := h
          exact ⟨_, left, ⟨portion, s', portions, taken, rest, rfl⟩, .cons hv filled, e⟩
        · obtain ⟨_, left, ⟨_, _, portions, taken', rest, rfl⟩, filled, e⟩ := h
          obtain ⟨rfl, rfl⟩ := Prod.mk.inj (Except.ok.inj (taken.symm.trans taken'))
          obtain ⟨v, vs, hv, filled, values⟩ := List.forall₂_cons_left_iff.1 filled
          exact ⟨v, hv, (vs, b.2), ⟨portions, left, rest, filled, e⟩, by rw [← values]⟩

theorem assemble_eq_ok_iff {l : BlockLayer α} {kind : Kind} {vs : List (SlotValue Node)}
    {left : Slots α} {p : Phrase Node} :
    assemble l kind vs left = .ok p ↔ left = {} ∧ p.kind = kind ∧ p.slots = vs ∧ p.Buildable ∧
      checkElse l.id l.attributes.mutation p = .ok () := by
  rw [assemble, ← Slots.leftover?_eq_none_iff]
  cases left.leftover? with
  | some name =>
    exact iff_of_false (fun h => by cases h) fun h => by cases h.1
  | none =>
    change ((Phrase.build kind l.id vs >>= fun phrase => _) = .ok p) ↔ _
    simp only [Except.bind_eq_ok_iff, Phrase.build_eq_ok_iff, Except.pure_eq_ok_iff]
    refine ⟨fun h => ?_, fun h => ?_⟩
    · obtain ⟨_, ⟨h, h', h''⟩, _, last, rfl⟩ := h
      exact ⟨trivial, h, h', h'', last⟩
    · obtain ⟨-, h, h', h'', last⟩ := h
      exact ⟨p, ⟨h, h', h''⟩, (), last, rfl⟩

theorem checkElse_map (f : Node → Node) (blockId : String) (mutation : SortedMap String String)
    (p : Phrase Node) : checkElse blockId mutation (p.map f) = checkElse blockId mutation p := by
  cases p with
  | ifElse conditions branches otherwise => cases otherwise <;> rfl
  | _ => rfl

theorem assemble_map_eq_ok_iff (f : Node → Node) {l : BlockLayer α} {kind : Kind}
    {vs : List (SlotValue Node)} {left : Slots α} {q : Phrase Node} :
    assemble l kind (vs.map (SlotValue.map f)) left = .ok q ↔
      ∃ p, assemble l kind vs left = .ok p ∧ p.map f = q := by
  have build : Phrase.build kind l.id (vs.map (SlotValue.map f)) = .ok q ↔
      ∃ p, Phrase.build kind l.id vs = .ok p ∧ p.map f = q := Phrase.build_map_eq_ok_iff f
  simp only [Phrase.build_eq_ok_iff] at build
  simp only [assemble_eq_ok_iff]
  refine ⟨fun h => ?_, fun h => ?_⟩
  · obtain ⟨empty, h, h', h'', last⟩ := h
    obtain ⟨p, ⟨k, k', k''⟩, rfl⟩ := build.1 ⟨h, h', h''⟩
    exact ⟨p, ⟨empty, k, k', k'', by rwa [checkElse_map] at last⟩, rfl⟩
  · obtain ⟨p, ⟨empty, h, h', h'', last⟩, rfl⟩ := h
    obtain ⟨k, k', k''⟩ := build.2 ⟨p, ⟨h, h', h''⟩, rfl⟩
    exact ⟨empty, k, k', k'', by rwa [checkElse_map]⟩

/-- The ids of a block: its own and those in its slots. -/
theorem blockIds_blockContent (l : BlockLayer α) {p : Phrase Node} (h : p.Buildable) :
    (blockContent l p).blockIds = l.id :: p.slots.flatMap slotIds := by
  rw [Node.blockIds_eq]
  change l.id :: p.children.flatMap Node.blockIds = _
  rw [h.children, List.flatMap_assoc]
  rfl

/-- Reading a block gives its content and the ids in it. -/
theorem understood (b : Block) : Understood registry b := by
  induction b using Block.induction with
  | step l ih =>
    rw [Understood, block_mk]
    by_cases named : l.id = ""
    · rw [if_pos (String.isEmpty_iff.2 named)]
      exact .fail _ fun n h => (content_eq_ok_iff.1 h).1 named
    · rw [if_neg (by simpa [String.isEmpty_iff] using named)]
      refine Reads.congr (y := do
        let _ ← (.ok () : Except Error Unit)
        let layout ← Layout.of registry l
        let r ← rowsContent registry l.id layout.declared layout.slots layout.kind.fields
        let phrase ← assemble (l.map (inner registry)) layout.kind r.1 r.2
        .ok (blockContent l phrase)) ?_ fun n => ?_
      · refine (Reads.claim l.id).bind (j := fun _ n => n.blockIds.tail) (fun _ => ?_) ?_
        · rw [Layout.of_map]
          rcases of : Layout.of registry l with e | layout
          · exact .fail e fun b h => by cases h
          · have hold := Slots.hold_of_ofLayer (Layout.of_eq_ok_iff.1 of).2.1 ih
            change Reads (do
              let r ← (layout.slots.map (inner registry)).rows value (fun slot => chain slot) l.id
                layout.declared layout.kind.fields
              let phrase ← liftM (assemble (l.map (inner registry)) layout.kind r.1 r.2)
              liftM (Node.createSealed (some l.id) l.attributes l.comment phrase : Fresh Node)) _ _
              (_ >>= fun r : List (SlotValue Node) × Slots Inner =>
                assemble (l.map (inner registry)) layout.kind r.1 r.2 >>= fun phrase =>
                  .ok (blockContent l phrase))
            refine (reads_rows hold).bind (j := fun _ _ => []) (fun r => ?_) fun r n _ h => ?_
            · refine (Reads.lift _ fun _ => assemble_map_eq_ok_iff Node.bare).bind
                (j := fun _ _ => []) (fun p => .create (fun s => Node.bare_mk _ _) rfl) ?_
              exact fun _ _ _ _ => rfl
            · obtain ⟨p, made, e⟩ := Except.bind_eq_ok_iff.1 h
              cases e
              obtain ⟨-, -, slots, buildable, -⟩ := assemble_eq_ok_iff.1 made
              rw [blockIds_blockContent l buildable, slots]
              simp
        · intro _ n _ h
          obtain ⟨layout, -, h⟩ := Except.bind_eq_ok_iff.1 h
          obtain ⟨r, -, h⟩ := Except.bind_eq_ok_iff.1 h
          obtain ⟨p, made, e⟩ := Except.bind_eq_ok_iff.1 h
          cases e
          rw [blockIds_blockContent l (assemble_eq_ok_iff.1 made).2.2.2.1]
          rfl
      · simp only [content_eq_ok_iff, divide_eq_ok_iff, Except.bind_eq_ok_iff, Layout.of_eq_ok_iff,
          rowsContent_eq_ok_iff, assemble_eq_ok_iff]
        refine ⟨fun h => ?_, fun h => ?_⟩
        · obtain ⟨_, -, ⟨kind, slots, declared⟩, ⟨known, slotsOf, count⟩, r,
            ⟨portions, left, taken, filled, rest⟩, p, ⟨empty, rfl, values, buildable, last⟩, e⟩ := h
          cases e
          rw [← Slots.leftover?_eq_none_iff, rest, Slots.leftover?_map,
            Slots.leftover?_eq_none_iff] at empty
          subst empty
          rw [← values] at filled
          exact ⟨named, portions, p, ⟨slots, declared, known, slotsOf, count, taken⟩, filled,
            buildable, last, rfl⟩
        · obtain ⟨-, portions, p, ⟨slots, declared, known, slotsOf, count, taken⟩, filled,
            buildable, last, rfl⟩ := h
          exact ⟨(), trivial, ⟨p.kind, slots, declared⟩, ⟨known, slotsOf, count⟩,
            (p.slots, ({} : Slots Block).map (inner registry)),
            ⟨portions, {}, taken, filled, rfl⟩, p, ⟨rfl, rfl, rfl, buildable, last⟩, rfl⟩

/-- The content of a chain on the canvas. -/
def canvasContent (registry : KindRegistry) (c : Chain) : Except Error Instance := do
  let body ← chainContent registry none c.blocks
  return ⟨c.x, c.y, body⟩

theorem canvasContent_eq_ok_iff {c : Chain} {i : Instance} :
    canvasContent registry c = .ok i ↔
      ∃ body, chainContent registry none c.blocks = .ok body ∧ i = ⟨c.x, c.y, body⟩ := by
  simp only [canvasContent, Except.bind_eq_ok_iff, Except.pure_eq_ok_iff]
  exact exists_congr fun _ => and_congr_right fun _ => eq_comm

theorem reads_canvasChain (c : Chain) :
    Reads (canvasChain registry c) (fun i => { i with body := i.body.bare })
      (fun i => i.body.blockIds) (canvasContent registry c) :=
  (reads_chain fun b _ => understood b).map (fun _ => rfl) fun _ => rfl

end Mapping

/-! ## Programs -/

/-- What a document says. -/
def Document.content (registry : KindRegistry) (d : Document) : Except Error Program := do
  checkVersion d.formatVersion
  let instances ← d.instances.mapM (Mapping.canvasContent registry)
  return ⟨d.formatVersion, d.description, d.tags, instances⟩

theorem checkVersion_eq_ok_iff {version : String} :
    checkVersion version = .ok () ↔ version ∈ supportedVersions := by
  rw [checkVersion]
  split <;> simp [*]

theorem Document.content_eq_ok_iff {registry : KindRegistry} {d : Document} {q : Program} :
    d.content registry = .ok q ↔ checkVersion d.formatVersion = .ok () ∧ ∃ is,
      List.Forall₂ (fun c i => Mapping.canvasContent registry c = .ok i) d.instances is ∧
        q = ⟨d.formatVersion, d.description, d.tags, is⟩ := by
  simp only [content, Except.bind_eq_ok_iff, Except.mapM_eq_ok_iff, Except.pure_eq_ok_iff]
  refine ⟨fun h => ?_, fun h => ?_⟩
  · obtain ⟨_, version, is, instances, e⟩ := h
    exact ⟨version, is, instances, e.symm⟩
  · obtain ⟨version, is, instances, e⟩ := h
    exact ⟨(), version, is, instances, e.symm⟩

/-- Reading in a supported version is reading chain after chain. -/
theorem Program.ofDocument_run {registry : KindRegistry} {d : Document} (s : Supply)
    (version : checkVersion d.formatVersion = .ok ()) : (ofDocument registry d).run s =
      match ((d.instances.mapM (Mapping.canvasChain registry)).run []).run s with
      | (.ok (instances, _), s') => (.ok ⟨d.formatVersion, d.description, d.tags, instances⟩, s')
      | (.error e, s') => (.error e, s') := by
  rw [ofDocument, version, ExceptT.run_bind_stateM]
  change (_ <$> (d.instances.mapM (Mapping.canvasChain registry)).run [] >>= _ : Make _).run s = _
  rw [map_eq_pure_bind, bind_assoc, ExceptT.run_bind_stateM]
  rcases ((d.instances.mapM (Mapping.canvasChain registry)).run []).run s with
    ⟨_ | ⟨_, _⟩, _⟩ <;> rfl

/-- Reading finds what a document says, and succeeds if its block ids are distinct. -/
theorem Program.ofDocument_eq_ok_iff {registry : KindRegistry} {d : Document} {s : Supply}
    {q : Program} :
    (∃ p s', (ofDocument registry d).run s = (.ok p, s') ∧ p.bare = q) ↔
      d.content registry = .ok q ∧ q.blockIds.Nodup := by
  have reads := Mapping.Reads.mapM (l := d.instances) fun c _ =>
    (Mapping.reads_canvasChain c : Mapping.Reads (Mapping.canvasChain registry c) _ _ _)
  rw [Document.content]
  rcases version : checkVersion d.formatVersion with e | _
  · refine ⟨fun h => ?_, fun h => ?_⟩
    · obtain ⟨_, _, h, -⟩ := h
      rw [ofDocument, version] at h
      cases h
    · obtain ⟨h, -⟩ := h
      cases h
  rw [ofDocument_run s version]
  simp only [Except.bind_eq_ok_iff, Except.pure_eq_ok_iff]
  refine ⟨fun h => ?_, fun h => ?_⟩
  · obtain ⟨p, s', h, rfl⟩ := h
    rcases made : ((d.instances.mapM (Mapping.canvasChain registry)).run []).run s with
      ⟨e | ⟨instances, seen⟩, s''⟩ <;> rw [made] at h <;> cases h
    obtain ⟨hy, rfl, distinct⟩ := (reads [] s .nil _ _).1 ⟨_, _, made, rfl⟩
    refine ⟨⟨(), trivial, _, hy, rfl⟩, ?_⟩
    simpa [blockIds, bare] using distinct
  · obtain ⟨⟨_, -, instances, hy, rfl⟩, distinct⟩ := h
    obtain ⟨is, s', made, rfl⟩ := (reads [] s .nil instances _).2 ⟨hy, rfl, by
      simpa [blockIds] using distinct⟩
    rw [made]
    exact ⟨_, _, rfl, rfl⟩

/-- What holds of the nodes of single blocks, and of those without blocks, holds of all nodes of a
document's content. -/
theorem Document.forall_walk_of_content {registry : KindRegistry} {P : Node → Prop}
    (structural : ∀ p, p.kind.blockType = none → P (Mapping.structuralContent p))
    (single : ∀ (l : BlockLayer Block) p,
      Mapping.content registry (.mk l) = .ok (Mapping.blockContent l p) →
        P (Mapping.blockContent l p))
    {d : Document} {q : Program} (h : d.content registry = .ok q) : ∀ n ∈ q.walk, P n := by
  obtain ⟨-, is, instances, rfl⟩ := content_eq_ok_iff.1 h
  change ∀ n ∈ is.flatMap (·.body.walk), P n
  simp only [List.forall_mem_flatMap]
  refine Except.forall_right_of_forall₂ instances fun c i h => ?_
  obtain ⟨body, read, rfl⟩ := Mapping.canvasContent_eq_ok_iff.1 h
  exact (Mapping.forall_walk_chainContent_iff structural read).2 fun b _ m hm =>
    Mapping.forall_walk_of_content structural single hm

/-- What holds of the nodes of single blocks, and of those without blocks, holds of all nodes of a
program that was read, up to their identity. -/
theorem Program.forall_walk_of_ofDocument {registry : KindRegistry} {P : Node → Prop}
    (structural : ∀ p, p.kind.blockType = none → P (Mapping.structuralContent p))
    (single : ∀ (l : BlockLayer Block) p,
      Mapping.content registry (.mk l) = .ok (Mapping.blockContent l p) →
        P (Mapping.blockContent l p))
    {d : Document} {p : Program} {s s' : Supply}
    (read : (ofDocument registry d).run s = (.ok p, s')) : ∀ n ∈ p.walk, P n.bare := by
  have content := (ofDocument_eq_ok_iff.1 ⟨p, s', read, rfl⟩).1
  have all := Document.forall_walk_of_content structural single content
  rwa [walk_bare, List.forall_mem_map] at all

end BlockGraph

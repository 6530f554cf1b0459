import BlockGraph.Mapping.Writing
import BlockGraph.Proofs.Mapping.Content
import BlockGraph.Proofs.Registry

/-!
# What is written

A node that was read from a block is written as the tidy form of the block: its slots stand in
table order, without empty chains and annotations.

* `tidy`: the tidy form of a block.
* `block_of_writes`: a node is written row by row.
* `written_of_content`: a node is written as the tidy form of its block.
-/

namespace BlockGraph

namespace Mapping

variable {α β : Type} {registry : KindRegistry}

/-! ## Tidy blocks -/

/-- A block with the slots of the given portions. -/
def tidyLayer (l : BlockLayer α) (portions : List (Portion α)) : BlockLayer α :=
  { l with
    fields := (portions.flatMap Portion.fields).map fun e => ⟨e.1, e.2⟩
    values := (portions.flatMap Portion.values).map fun e => ⟨e.1, e.2⟩
    statements := (portions.flatMap Portion.statements).map fun e => ⟨e.1, e.2⟩
    annotations := [] }

@[simp] theorem Portion.fields_map (f : α → β) (p : Portion α) : (p.map f).fields = p.fields := by
  cases p <;> rfl

@[simp] theorem Portion.values_map (f : α → β) (p : Portion α) :
    (p.map f).values = p.values.map fun e => (e.1, f e.2) := by
  cases p with
  | value slot block => cases block <;> rfl
  | repeatedValue members =>
    simp [map, values, List.filterMap_map, List.map_filterMap, Function.comp_def]
  | _ => rfl

@[simp] theorem Portion.statements_map (f : α → β) (p : Portion α) :
    (p.map f).statements = p.statements.map fun e => (e.1, e.2.map f) := by
  cases p with
  | statement slot blocks | optionalStatement slot blocks => cases blocks <;> rfl
  | repeatedStatement members =>
    simp [map, statements, List.filter_map, Function.comp_def]
  | _ => rfl

theorem tidyLayer_map (f : α → β) (l : BlockLayer α) (portions : List (Portion α)) :
    tidyLayer (l.map f) (portions.map (Portion.map f)) = (tidyLayer l portions).map f := by
  simp [tidyLayer, BlockLayer.map, List.flatMap_map, List.map_flatMap, ValueSlot.map,
    StatementSlot.map, Function.comp_def]

/-- A block as it is written after it was read. -/
def tidy (registry : KindRegistry) : Block → Block :=
  Block.recurse fun l => match divide registry l with
    | .ok (_, portions) => .mk ((tidyLayer l portions).map (·.result))
    | .error _ => .mk (l.map (·.result))

theorem tidy_of_divide {l : BlockLayer Block} {kind : Kind} {portions : List (Portion Block)}
    (h : divide registry l = .ok (kind, portions)) :
    tidy registry (.mk l) = .mk ((tidyLayer l portions).map (tidy registry)) := by
  rw [tidy, Block.recurse_mk, divide_map, h]
  simp only [Except.map, Prod.map, tidyLayer_map, BlockLayer.map_map]
  rfl

/-! ## Which row took what -/

/-- The members of a family, one for each place. -/
def members (family : String) (k : Nat) (contents : List α) : List (String × α) :=
  (contents.zipIdx k).map fun e => (family ++ toString e.2, e.1)

theorem members_cons (family : String) (k : Nat) (a : α) (contents : List α) :
    members family k (a :: contents) =
      (family ++ toString k, a) :: members family (k + 1) contents := rfl

/-- Whether a portion is one that a row takes. -/
inductive Portion.Of : FieldSpec → Portion α → Prop where
  | literal {name internal text : String} : Of ⟨name, internal, .literal⟩ (.literal name text)
  | value {name internal : String} {block : Option α} :
    Of ⟨name, internal, .value⟩ (.value name block)
  | statement {name internal : String} {blocks : List α} :
    Of ⟨name, internal, .statement⟩ (.statement name blocks)
  | optionalStatement {name internal : String} {blocks : List α} :
    Of ⟨name, internal, .optionalStatement⟩ (.optionalStatement name blocks)
  | repeatedValue {name internal : String} {contents : List (Option α)} :
    Of ⟨name, internal, .repeatedValue⟩ (.repeatedValue (members name 0 contents))
  | repeatedStatement {name internal : String} {contents : List (List α)} :
    Of ⟨name, internal, .repeatedStatement⟩ (.repeatedStatement (members name 0 contents))

theorem map_range_eq_members (family : String) (count : Nat) (f : Nat → α) :
    ((List.range count).map fun i => (family ++ toString i, f i)) =
      members family 0 ((List.range count).map f) := by
  refine List.ext_getElem (by simp [members]) fun i _ _ => ?_
  simp [members]

theorem Slots.Takes.of {declared : Option Nat} {s s' : Slots α} {spec : FieldSpec}
    {portion : Portion α} (h : s.Takes declared spec portion s') : portion.Of spec := by
  cases h with
  | literal => exact .literal
  | value => exact .value
  | statement => exact .statement
  | optionalStatement => exact .optionalStatement
  | repeatedValue => rw [map_range_eq_members]; exact .repeatedValue
  | repeatedStatement => rw [map_range_eq_members]; exact .repeatedStatement

theorem Slots.of_takeAll {blockId : String} {declared : Option Nat} {s left : Slots α}
    {specs : List FieldSpec} {portions : List (Portion α)}
    (h : s.takeAll blockId declared specs = .ok (portions, left)) :
    List.Forall₂ (fun spec p => p.Of spec) specs portions := by
  induction specs generalizing s portions with
  | nil =>
    cases h
    exact .nil
  | cons spec specs ih =>
    obtain ⟨portion, s', others, first, rest, rfl⟩ := takeAll_cons_eq_ok_iff.1 h
    exact .cons (take_eq_ok_iff.1 first).of (ih rest)

/-! ## Writing rows -/

theorem written_eq (n : Node) : written n =
    ⟨writeBlock n (n.phrase.map fun c => ⟨c, written c⟩),
      writeChain n (n.phrase.map fun c => ⟨c, written c⟩)⟩ := by
  rw [written, Node.recurse_eq]

/-- A node with what it is written as. -/
def writing (n : Node) : Visited Written := ⟨n, written n⟩

/-- Whether a node in a value slot is written as the block `b` there, or as none. -/
def WritesValue (n : Node) : Option Block → Prop
  | none => n.phrase = .emptyExpr
  | some b => n.kind.blockType.isSome ∧ (written n).block = .ok b

/-- Whether a chain is written as these blocks. -/
def WritesChain (n : Node) (blocks : List Block) : Prop := (written n).chain = .ok blocks

/-- Whether a row with its content is written as the slots of a portion. -/
inductive Writes : FieldSpec × SlotValue Node → Portion Block → Prop where
  | literal {name internal text : String} :
    Writes (⟨name, internal, .literal⟩, .literal text) (.literal name text)
  | value {name internal : String} {n : Node} {o : Option Block} (h : WritesValue n o) :
    Writes (⟨name, internal, .value⟩, .value n) (.value name o)
  | statement {name internal : String} {n : Node} {blocks : List Block}
    (h : WritesChain n blocks) :
    Writes (⟨name, internal, .statement⟩, .statement n) (.statement name blocks)
  | absent {name internal : String} :
    Writes (⟨name, internal, .optionalStatement⟩, .optionalStatement none)
      (.optionalStatement name [])
  | optionalStatement {name internal : String} {n : Node} {blocks : List Block}
    (h : WritesChain n blocks) :
    Writes (⟨name, internal, .optionalStatement⟩, .optionalStatement (some n))
      (.optionalStatement name blocks)
  | repeatedValue {name internal : String} {ns : List Node} {contents : List (Option Block)}
    (h : List.Forall₂ WritesValue ns contents) :
    Writes (⟨name, internal, .repeatedValue⟩, .repeated ns)
      (.repeatedValue (members name 0 contents))
  | repeatedStatement {name internal : String} {ns : List Node} {contents : List (List Block)}
    (h : List.Forall₂ WritesChain ns contents) :
    Writes (⟨name, internal, .repeatedStatement⟩, .repeated ns)
      (.repeatedStatement (members name 0 contents))

/-- The slots written so far and those of a portion. -/
def addPortion (s : WrittenSlots) (p : Portion Block) : WrittenSlots where
  fields := s.fields ++ p.fields.map fun e => ⟨e.1, e.2⟩
  values := s.values ++ p.values.map fun e => ⟨e.1, e.2⟩
  statements := s.statements ++ p.statements.map fun e => ⟨e.1, e.2⟩

theorem addValue_of_writes {s : WrittenSlots} {slot : String} {n : Node} {o : Option Block}
    (h : WritesValue n o) : s.addValue slot (writing n) =
      .ok { s with values := s.values ++ o.toList.map fun b => ⟨slot, b⟩ } := by
  cases o with
  | none =>
    have phrase : n.phrase = .emptyExpr := h
    simp [WrittenSlots.addValue, writing, phrase]
  | some b =>
    obtain ⟨block, result⟩ := h
    rw [Node.kind] at block
    unfold WrittenSlots.addValue
    split
    · next e => rw [show n.phrase = _ from e] at block; cases block
    · next e => rw [show n.phrase = _ from e] at block; cases block
    · rw [show (writing n).result.block = _ from result]
      rfl

theorem addStatement_of_writes {s : WrittenSlots} {slot : String} {n : Node} {blocks : List Block}
    (h : WritesChain n blocks) : s.addStatement slot (writing n) = .ok { s with
      statements := s.statements ++ ([(slot, blocks)].filter (!·.2.isEmpty)).map
        fun e => ⟨e.1, e.2⟩ } := by
  rw [WrittenSlots.addStatement, show (writing n).result.chain = _ from h]
  cases blocks <;> simp [bind, Except.bind, pure, Except.pure]

/-- A family of value slots is written member by member. -/
theorem addValues_of_writes {family : String} {contents : List (Option Block)} {k : Nat}
    {ns : List Node} {s : WrittenSlots} (h : List.Forall₂ WritesValue ns contents) :
    ((ns.map writing).zipIdx k).foldlM (fun s c => s.addValue (family ++ toString c.2) c.1) s =
      .ok { s with values := s.values ++
        ((members family k contents).filterMap fun e => e.2.map (e.1, ·)).map (fun e =>
          ⟨e.1, e.2⟩) } := by
  induction h generalizing k s with
  | nil => simp [members, pure, Except.pure]
  | @cons n o ns contents first others ih =>
    rw [members_cons, List.map_cons, List.zipIdx_cons, List.foldlM_cons, addValue_of_writes first]
    refine ih.trans ?_
    cases o <;> simp

theorem addStatements_of_writes {family : String} {contents : List (List Block)} {k : Nat}
    {ns : List Node} {s : WrittenSlots} (h : List.Forall₂ WritesChain ns contents) :
    ((ns.map writing).zipIdx k).foldlM (fun s c => s.addStatement (family ++ toString c.2) c.1) s =
      .ok { s with statements := s.statements ++
        ((members family k contents).filter (!·.2.isEmpty)).map fun e => ⟨e.1, e.2⟩ } := by
  induction h generalizing k s with
  | nil => simp [members, pure, Except.pure]
  | @cons n blocks ns contents first others ih =>
    rw [members_cons, List.map_cons, List.zipIdx_cons, List.foldlM_cons,
      addStatement_of_writes first]
    refine ih.trans ?_
    cases blocks <;> simp

theorem addRow_of_writes {s : WrittenSlots} {row : FieldSpec × SlotValue Node} {p : Portion Block}
    (h : Writes row p) : s.addRow (row.1, row.2.map writing) = .ok (addPortion s p) := by
  cases h with
  | literal | absent =>
    simp [SlotValue.map, WrittenSlots.addRow, addPortion, Portion.fields, Portion.values,
      Portion.statements]
  | value h =>
    refine (addValue_of_writes h).trans ?_
    simp [addPortion, Portion.fields, Portion.values, Portion.statements]
  | statement h | optionalStatement h =>
    refine (addStatement_of_writes h).trans ?_
    simp [addPortion, Portion.fields, Portion.values, Portion.statements]
  | repeatedValue h =>
    refine (addValues_of_writes h).trans ?_
    simp [addPortion, Portion.fields, Portion.values, Portion.statements]
  | repeatedStatement h =>
    refine (addStatements_of_writes h).trans ?_
    simp [addPortion, Portion.fields, Portion.values, Portion.statements]

theorem addRows_of_writes {specs : List FieldSpec} {vs : List (SlotValue Node)}
    {portions : List (Portion Block)} {s : WrittenSlots}
    (h : List.Forall₂ Writes (specs.zip vs) portions) :
    (specs.zip (vs.map (SlotValue.map writing))).foldlM WrittenSlots.addRow s =
      .ok (portions.foldl addPortion s) := by
  rw [List.zip_map_right, List.foldlM_map]
  generalize specs.zip vs = rows at h
  induction h generalizing s with
  | nil => rfl
  | cons first _ ih =>
    rw [List.foldlM_cons, show s.addRow (Prod.map id (SlotValue.map writing) _) = _ from
      addRow_of_writes first]
    exact ih

theorem foldl_addPortion (portions : List (Portion Block)) (s : WrittenSlots) :
    portions.foldl addPortion s =
      { fields := s.fields ++ (portions.flatMap Portion.fields).map fun e => ⟨e.1, e.2⟩
        values := s.values ++ (portions.flatMap Portion.values).map fun e => ⟨e.1, e.2⟩
        statements := s.statements ++
          (portions.flatMap Portion.statements).map fun e => ⟨e.1, e.2⟩ } := by
  induction portions generalizing s with
  | nil => simp
  | cons p portions ih => simp [ih, addPortion]

/-- The layer of the block that a node is written as, apart from its slots. -/
def writtenLayer (n : Node) (type : String) : BlockLayer Block :=
  { id := n.label, type, attributes := n.attributes, comment := n.comment? }

/-- A node is written as a block with the slots of its rows. -/
theorem block_of_writes {n : Node} {type : String} {portions : List (Portion Block)}
    (known : n.kind.blockType = some type)
    (h : List.Forall₂ Writes (n.kind.fields.zip n.phrase.slots) portions) :
    (written n).block = .ok (.mk { tidyLayer (writtenLayer n type) portions with
      annotations := n.diagnostics.map annotation }) := by
  rw [written_eq]
  change writeBlock n (n.phrase.map writing) = _
  simp only [writeBlock, known, Phrase.slots_map]
  rw [addRows_of_writes h, foldl_addPortion]
  rfl

/-! ## Writing what was read -/

/-- Nodes with the content of `b` are written as its tidy form. -/
def Rendered (registry : KindRegistry) (b : Block) : Prop :=
  ∀ n : Node, content registry b = .ok n.bare → (written n).block = .ok (tidy registry b)

theorem phrase_of_structural {n : Node} {p : Phrase Node} (h : n.bare = structuralContent p) :
    n.phrase.map Node.bare = p := by
  rw [← Node.phrase_bare, h]
  rfl

/-- Blocks are neither empty expressions nor chains. -/
theorem block_of_content {b : Block} {n : Node} (h : content registry b = .ok n.bare) :
    n.kind.blockType.isSome := by
  obtain ⟨l⟩ := b
  obtain ⟨-, _, p, -, -, buildable, -, e⟩ := content_eq_ok_iff.1 h
  rw [← Node.kind_bare, e]
  exact buildable.block

theorem writesValue_of_content {slot : String} {b : Option Block} {n : Node}
    (h : valueContent registry slot b = .ok n.bare) (rendered : ∀ b' ∈ b, Rendered registry b') :
    WritesValue n (b.map (tidy registry)) := by
  cases b with
  | none =>
    have empty := phrase_of_structural (Except.ok.inj h).symm
    change n.phrase = .emptyExpr
    cases e : n.phrase <;> rw [e] at empty <;> cases empty
  | some b =>
    have read := (valueContent_some_eq_ok_iff.1 h).1
    exact ⟨block_of_content read, rendered b rfl n read⟩

theorem chain_of_content {slot : Option String} {blocks : List Block} {n : Node}
    (h : chainContent registry slot blocks = .ok n.bare)
    (rendered : ∀ b ∈ blocks, Rendered registry b) :
    WritesChain n (blocks.map (tidy registry)) := by
  obtain ⟨cs, read, e⟩ := Except.bind_eq_ok_iff.1 h
  have phrase := phrase_of_structural (Except.pure_eq_ok_iff.1 e).symm
  obtain ⟨ns, chain, rfl⟩ := Phrase.exists_of_map_eq_stmtList phrase
  rw [Except.mapM_eq_ok_iff, List.forall₂_map_left_iff, List.forall₂_map_right_iff] at read
  rw [WritesChain, written_eq, chain]
  change (ns.map writing).mapM (·.result.block) = _
  rw [Except.mapM_eq_ok_iff, List.forall₂_map_left_iff, List.forall₂_map_right_iff]
  refine (((List.forall₂_and_left _ _).2 ⟨rendered, read⟩).imp fun b m ⟨h, r⟩ => ?_).flip
  obtain ⟨m', r, checked⟩ := Except.bind_eq_ok_iff.1 r
  obtain ⟨_, -, e⟩ := Except.bind_eq_ok_iff.1 checked
  obtain rfl := Except.pure_eq_ok_iff.1 e
  exact h m r

theorem map_members (f : α → β) (family : String) (k : Nat) (contents : List α) :
    (members family k contents).map (fun e => (e.1, f e.2)) =
      members family k (contents.map f) := by
  simp [members, List.zipIdx_map, Function.comp_def]

theorem forall₂_members {R : α → β → Prop} (family : String) (k : Nat) {contents : List α}
    {bs : List β} : List.Forall₂ (fun e b => R e.2 b) (members family k contents) bs ↔
      List.Forall₂ R contents bs := by
  induction contents generalizing k bs with
  | nil => simp [members]
  | cons a contents ih => simp only [members_cons, List.forall₂_cons_left_iff, ih]

/-- What a row took is written again, with tidy blocks. -/
theorem writes_of_content {spec : FieldSpec} {p : Portion Block} {v : SlotValue Node}
    (of : p.Of spec) (read : p.content registry = .ok (v.map Node.bare))
    (rendered : ∀ b ∈ p.blocks, Rendered registry b) :
    Writes (spec, v) (p.map (tidy registry)) := by
  cases of with
  | literal =>
    cases v <;> cases read
    exact .literal
  | @value name internal b =>
    obtain ⟨m, read, e⟩ := Except.bind_eq_ok_iff.1 read
    cases v <;> cases e
    exact .value (writesValue_of_content read fun b' hb => rendered b' (by simpa using hb))
  | @statement name internal blocks =>
    obtain ⟨m, read, e⟩ := Except.bind_eq_ok_iff.1 read
    cases v <;> cases e
    exact .statement (chain_of_content read fun b hb => rendered b (by simpa using hb))
  | @optionalStatement name internal blocks =>
    cases blocks with
    | nil =>
      rcases v with _ | _ | _ | (_ | _) | _ <;> cases read
      exact .absent
    | cons b blocks =>
      obtain ⟨m, read, e⟩ := Except.bind_eq_ok_iff.1 read
      rcases v with _ | _ | _ | (_ | _) | _ <;> cases e
      rw [Portion.blocks_optionalStatement] at rendered
      exact .optionalStatement (chain_of_content read rendered)
  | @repeatedValue name internal contents =>
    obtain ⟨ms, read, e⟩ := Except.bind_eq_ok_iff.1 read
    cases v <;> cases e
    rw [Except.mapM_eq_ok_iff, List.forall₂_map_right_iff] at read
    rw [Portion.map, map_members]
    refine .repeatedValue (List.forall₂_map_right_iff.2 ((forall₂_members name 0).1 ?_).flip)
    refine ((List.forall₂_and_left _ _).2 ⟨fun e he b hb => ?_, read⟩).imp fun e n h =>
      writesValue_of_content h.2 h.1
    rw [Portion.blocks_repeatedValue] at rendered
    exact rendered b (List.mem_filterMap.2 ⟨e, he, hb⟩)
  | @repeatedStatement name internal contents =>
    obtain ⟨ms, read, e⟩ := Except.bind_eq_ok_iff.1 read
    cases v <;> cases e
    rw [Except.mapM_eq_ok_iff, List.forall₂_map_right_iff] at read
    rw [Portion.map, map_members]
    refine .repeatedStatement (List.forall₂_map_right_iff.2 ((forall₂_members name 0).1 ?_).flip)
    refine ((List.forall₂_and_left _ _).2 ⟨fun e he b hb => ?_, read⟩).imp fun e n h =>
      chain_of_content h.2 h.1
    rw [Portion.blocks_repeatedStatement] at rendered
    exact rendered b (List.mem_flatMap.2 ⟨e, he, hb⟩)

theorem forall₂_writes_of_content {specs : List FieldSpec} {portions : List (Portion Block)}
    {vs : List (SlotValue Node)} (of : List.Forall₂ (fun spec p => p.Of spec) specs portions)
    (read : List.Forall₂ (fun p v => p.content registry = .ok (v.map Node.bare)) portions vs)
    (rendered : ∀ p ∈ portions, ∀ b ∈ p.blocks, Rendered registry b) :
    List.Forall₂ Writes (specs.zip vs) (portions.map (Portion.map (tidy registry))) := by
  induction of generalizing vs with
  | nil =>
    cases read
    exact .nil
  | cons first others ih =>
    obtain ⟨v, vs, one, rest, rfl⟩ := List.forall₂_cons_left_iff.1 read
    rw [List.forall_mem_cons] at rendered
    exact .cons (writes_of_content first one rendered.1) (ih rest rendered.2)

/-- A node is written as the tidy form of the block it was read from. -/
theorem written_of_content (consistent : registry.Consistent) (b : Block) :
    Rendered registry b := by
  induction b using Block.induction with
  | step l ih =>
    intro n h
    obtain ⟨-, portions, p, divided, filled, -, -, e⟩ := content_eq_ok_iff.1 h
    obtain ⟨slots, declared, known, -, -, taken⟩ := divide_eq_ok_iff.1 divided
    have phrase : n.phrase.map Node.bare = p := by
      rw [← Node.phrase_bare, e]
      rfl
    obtain ⟨header, q⟩ := n
    obtain rfl : q.map Node.bare = p := phrase
    rw [Phrase.kind_map] at divided known taken
    rw [Phrase.slots_map, List.forall₂_map_right_iff] at filled
    have rows := forall₂_writes_of_content (Slots.of_takeAll taken) filled fun p hp b hb =>
      ih b (mem_children_of_divide divided hp hb)
    rw [block_of_writes (n := .mk header q) (consistent _ _ known) rows, tidy_of_divide divided,
      ← tidyLayer_map]
    obtain ⟨id, edition, isSealed, blockId, attributes, comment, diagnostics⟩ := header
    simp only [Node.bare_mk, blockContent, Node.mk.injEq, Header.mk.injEq] at e
    obtain ⟨⟨-, -, -, rfl, rfl, rfl, rfl⟩, -⟩ := e
    rfl

end Mapping

end BlockGraph

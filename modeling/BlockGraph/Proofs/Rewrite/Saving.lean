import BlockGraph.Proofs.Document.Depth
import BlockGraph.Proofs.Mapping.Rereading
import BlockGraph.Proofs.Rewrite.Folding

/-!
# Saving

What a program is written as can be read again as a document, however deep the document nested
that the program was read from, and also after a run of folding. A written block nests no deeper
than the canonical form of the block that was read. Folding puts blocks with a field in the places
of blocks that had a block in a value slot.

* `Mapping.depth_tidy_le`: the depth of what is written of a block that was read.
* `Mapping.Replaces`: a node that is written with blocks that nest no deeper.
* `Mapping.replaces_folded`: a folded node is written with blocks that nest no deeper.
* `Program.saves_of_ofDocument`: saving a program that was read, as it is or folded.
-/

namespace BlockGraph

open Mapping

namespace BlockLayer

variable {α β : Type} {n : Nat}

theorem Nests.mono {depth depth' : α → Nat} {l : BlockLayer α} (h : l.Nests depth n)
    (less : ∀ a ∈ l.children, depth' a ≤ depth a) : l.Nests depth' n := by
  refine { h with values := fun s hs => ?_, statements := fun s hs a ha => ?_ }
  · have below := less _ (List.mem_append_left _ (List.mem_map_of_mem hs))
    have room := h.values s hs
    omega
  · have below := less a (List.mem_append_right _ (List.mem_flatMap.2 ⟨s, hs, ha⟩))
    have room := h.statements s hs a ha
    omega

/-- Neither the order of the slots nor the chains without blocks count. -/
theorem Nests.tidyLayer {depth : α → Nat} {registry : KindRegistry} {l : BlockLayer α} {kind : Kind}
    {portions : List (Portion α)} (h : l.Nests depth n)
    (divided : divide registry l = .ok (kind, portions)) :
    (tidyLayer l portions).Nests depth n := by
  have same := rearranged_of_divide divided
  refine ⟨h.object, h.mutation, h.comment, fun given => h.fields ?_, fun s hs => ?_,
    fun s hs => ?_⟩
  · rwa [← List.length_pos_iff, same.fields.length_eq, List.length_pos_iff]
  · exact h.values s (same.values.mem_iff.2 hs)
  · exact h.statements s (List.mem_filter.1 (same.statements.mem_iff.2 hs)).1

end BlockLayer

theorem Phrase.mem_children_of_mem_slots {α : Type} {p : Phrase α} {v : SlotValue α} {a : α}
    (hv : v ∈ p.slots) (ha : a ∈ v.nodes) : a ∈ p.children := by
  cases p with
  | stmtList statements => cases hv
  | _ => exact List.mem_flatMap.2 ⟨v, hv, ha⟩

namespace Mapping

/-! ## What was read -/

/-- A written block nests no deeper than the canonical form of the block that was read. -/
theorem depth_tidy_le {registry : KindRegistry} {b : Block} {n : Node}
    (h : content registry b = .ok n) : (tidy registry b).toJson.depth ≤ b.span := by
  induction b using Block.induction generalizing n with
  | step l ih =>
    obtain ⟨-, portions, p, divided, filled, -⟩ := content_eq_ok_iff.1 h
    have room : (tidyLayer l portions).Nests Block.span (Block.mk l).span :=
      (Block.span_le_iff.1 (Nat.le_refl _)).tidyLayer divided
    have nests : ((tidyLayer l portions).map (tidy registry)).Nests (·.toJson.depth)
        (Block.mk l).span := by
      refine BlockLayer.nests_map_iff.2 (room.mono fun b hb => ?_)
      obtain ⟨below, m, read⟩ := content_of_mem_tidyLayer divided filled hb
      exact ih b below read
    rw [tidy_of_divide divided, Block.depth_toJson_le_iff]
    refine ⟨nests, nests.chains fun s hs => ?_, absurd rfl⟩
    obtain ⟨t, ht, rfl⟩ := List.mem_map.1 hs
    have full := (List.mem_filter.1 ((rearranged_of_divide divided).statements.mem_iff.2 ht)).2
    simpa [StatementSlot.map] using full

/-! ## Writing nodes -/

theorem block_eq_ok_iff {n : Node} {b : Block} : (written n).block = .ok b ↔
    ∃ type slots, n.kind.blockType = some type ∧
      (n.kind.fields.zip (n.phrase.slots.map (SlotValue.map writing))).foldlM
          WrittenSlots.addRow {} = .ok slots ∧
        b = .mk { writtenLayer n type with
          fields := slots.fields, values := slots.values, statements := slots.statements
          annotations := n.diagnostics.map annotation } := by
  rw [written_eq]
  change writeBlock n (n.phrase.map writing) = .ok b ↔ _
  unfold writeBlock
  rw [Phrase.slots_map]
  cases n.kind.blockType with
  | none => simp
  | some type =>
    simp only [Except.bind_eq_ok_iff, Except.pure_eq_ok_iff, Option.some.injEq,
      exists_and_left, exists_eq_left']
    exact exists_congr fun slots => and_congr_right fun _ => eq_comm

theorem chain_eq_ok_iff {n : Node} {blocks : List Block} : (written n).chain = .ok blocks ↔
    ∃ ns, n.phrase = .stmtList ns ∧
      List.Forall₂ (fun n b => (written n).block = .ok b) ns blocks := by
  rw [written_eq]
  change writeChain n (n.phrase.map writing) = .ok blocks ↔ _
  cases phrase : n.phrase with
  | stmtList ns =>
    change (ns.map writing).mapM (·.result.block) = _ ↔ _
    rw [Except.mapM_eq_ok_iff, List.forall₂_map_left_iff]
    simp [writing]
  | _ => simp [Phrase.map, writeChain]

theorem writesValue_of_addValue {s s' : WrittenSlots} {slot : String} {n : Node}
    (h : s.addValue slot (writing n) = .ok s') : ∃ o, WritesValue n o ∧
      s' = { s with values := s.values ++ o.toList.map fun b => ⟨slot, b⟩ } := by
  unfold WrittenSlots.addValue at h
  split at h
  · next empty =>
    cases h
    exact ⟨none, empty, by simp⟩
  · cases h
  · obtain ⟨b, block, e⟩ := Except.bind_eq_ok_iff.1 h
    cases e
    obtain ⟨type, -, known, -⟩ := block_eq_ok_iff.1 block
    exact ⟨some b, ⟨known ▸ rfl, block⟩, rfl⟩

/-! ## Writing other nodes in the same places -/

/-- Whether a block nests no deeper than another one. -/
def NoDeeper (b c : Block) : Prop := c.toJson.depth ≤ b.toJson.depth

/-- Whether `m` can be written wherever `n` can be, with blocks that nest no deeper. -/
structure Replaces (n m : Node) : Prop where
  empty : n.phrase = .emptyExpr → m.phrase = .emptyExpr
  block : ∀ b, (written n).block = .ok b → ∃ c, (written m).block = .ok c ∧ NoDeeper b c
  chain : ∀ bs, (written n).chain = .ok bs →
    ∃ cs, (written m).chain = .ok cs ∧ List.Forall₂ NoDeeper bs cs

/-- Slots with the same fields and with blocks that nest no deeper. -/
structure SlotsNoDeeper (s t : WrittenSlots) : Prop where
  fields : t.fields = s.fields
  values : List.Forall₂ (fun v w => NoDeeper v.block w.block) s.values t.values
  statements : List.Forall₂ (fun v w => List.Forall₂ NoDeeper v.blocks w.blocks)
    s.statements t.statements

section Slots

variable {s s' t : WrittenSlots} {name : String} {n m : Node}

theorem exists_addValue (start : SlotsNoDeeper s t) (h : Replaces n m)
    (added : s.addValue name (writing n) = .ok s') :
    ∃ t', t.addValue name (writing m) = .ok t' ∧ SlotsNoDeeper s' t' := by
  obtain ⟨o, writes, rfl⟩ := writesValue_of_addValue added
  cases o with
  | none =>
    refine ⟨_, addValue_of_writes (o := none) (h.empty writes), { start with values := ?_ }⟩
    simpa using start.values
  | some b =>
    obtain ⟨c, again, less⟩ := h.block b writes.2
    obtain ⟨type, -, known, -⟩ := block_eq_ok_iff.1 again
    refine ⟨_, addValue_of_writes (o := some c) ⟨known ▸ rfl, again⟩, { start with values := ?_ }⟩
    exact List.rel_append start.values (.cons less .nil)

theorem exists_addStatement (start : SlotsNoDeeper s t) (h : Replaces n m)
    (added : s.addStatement name (writing n) = .ok s') :
    ∃ t', t.addStatement name (writing m) = .ok t' ∧ SlotsNoDeeper s' t' := by
  obtain ⟨bs, chain, -⟩ := Except.bind_eq_ok_iff.1 added
  obtain ⟨cs, again, less⟩ := h.chain bs chain
  rw [addStatement_of_writes chain] at added
  cases added
  refine ⟨_, addStatement_of_writes again, { start with statements := ?_ }⟩
  refine List.rel_append start.statements ?_
  cases less with
  | nil => exact .nil
  | cons first others => exact .cons (.cons first others) .nil

theorem exists_addRow {spec : FieldSpec} {v : SlotValue (Node × Node)}
    (start : SlotsNoDeeper s t) (h : ∀ c ∈ v.nodes, Replaces c.1 c.2)
    (added : s.addRow (spec, v.map fun c => writing c.1) = .ok s') :
    ∃ t', t.addRow (spec, v.map fun c => writing c.2) = .ok t' ∧ SlotsNoDeeper s' t' := by
  cases v with
  | literal text =>
    cases added
    exact ⟨_, rfl, { start with fields := by rw [start.fields] }⟩
  | value c => exact exists_addValue start (h c (by simp [SlotValue.nodes])) added
  | statement c => exact exists_addStatement start (h c (by simp [SlotValue.nodes])) added
  | optionalStatement o =>
    cases o with
    | none =>
      cases added
      exact ⟨_, rfl, start⟩
    | some c => exact exists_addStatement start (h c (by simp [SlotValue.nodes])) added
  | repeated cs =>
    unfold WrittenSlots.addRow at added ⊢
    simp only [SlotValue.map, List.zipIdx_map, List.foldlM_map] at added ⊢
    refine Except.exists_foldlM_of_forall₂
      (Q := fun c d => c = d ∧ Replaces c.1.1 c.1.2) (fun s t c d s' start same added => ?_)
      (List.forall₂_same.2 fun c hc => ⟨rfl, h c.1 (List.fst_mem_of_mem_zipIdx hc)⟩) start added
    obtain ⟨rfl, replaces⟩ := same
    by_cases mode : spec.mode = .repeatedValue
    · simp only [mode, if_true, Prod.map] at added ⊢
      exact exists_addValue start replaces added
    · simp only [mode, if_false, Prod.map] at added ⊢
      exact exists_addStatement start replaces added

end Slots

section Blocks

variable {l m : BlockLayer Block}

/-- A block with other slots and without findings. -/
theorem noDeeper_of_slots {s t : WrittenSlots} (attributes : m.attributes = l.attributes)
    (comment : m.comment = l.comment) (less : SlotsNoDeeper s t) (findings : List Annotation) :
    NoDeeper
      (.mk { l with
        fields := s.fields, values := s.values, statements := s.statements
        annotations := findings })
      (.mk { m with
        fields := t.fields, values := t.values, statements := t.statements
        annotations := [] }) := by
  obtain ⟨nests, chains, -⟩ := Block.depth_toJson_le_iff.1 (Nat.le_refl
    (Block.mk { l with
      fields := s.fields, values := s.values, statements := s.statements
      annotations := findings }).toJson.depth)
  unfold NoDeeper
  generalize (Block.mk _).toJson.depth = n at nests chains ⊢
  refine Block.depth_toJson_le_iff.2 ⟨⟨nests.object, attributes ▸ nests.mutation,
    comment ▸ nests.comment, less.fields ▸ nests.fields, ?_, ?_⟩, fun given => chains ?_,
    absurd rfl⟩
  · exact Except.forall_right_of_forall₂
      ((List.forall₂_and_left _ _).2 ⟨nests.values, less.values⟩) fun v w h =>
        Nat.le_trans (Nat.add_le_add_right h.2 3) h.1
  · refine Except.forall_right_of_forall₂
      ((List.forall₂_and_left _ _).2 ⟨nests.statements, less.statements⟩) fun v w h => ?_
    exact Except.forall_right_of_forall₂ ((List.forall₂_and_left _ _).2 h) fun b c h =>
      Nat.le_trans (Nat.add_le_add_right h.2 4) h.1
  · intro empty
    have slots := less.statements
    rw [show s.statements = [] from empty, List.forall₂_nil_left_iff] at slots
    exact given slots

/-- A block with fields only in the place of one with a block in a value slot. -/
theorem noDeeper_of_value (attributes : m.attributes = l.attributes)
    (comment : m.comment = l.comment) (values : m.values = []) (statements : m.statements = [])
    (annotations : m.annotations = []) {v : ValueSlot Block} (given : v ∈ l.values) :
    NoDeeper (.mk l) (.mk m) := by
  obtain ⟨nests, -⟩ := Block.depth_toJson_le_iff.1 (Nat.le_refl (Block.mk l).toJson.depth)
  have room := nests.values v given
  unfold NoDeeper
  generalize (Block.mk l).toJson.depth = n at nests room ⊢
  refine Block.depth_toJson_le_iff.2 ⟨⟨nests.object, attributes ▸ nests.mutation,
    comment ▸ nests.comment, fun _ => by omega, ?_, ?_⟩, absurd statements, absurd annotations⟩
  · rw [values]
    simp
  · rw [statements]
    simp

end Blocks

/-! ## Folded nodes -/

/-- The rows of a node whose phrase is an image. -/
theorem addRows_map {α : Type} (f : α → Node) (h : Header) (r : Phrase α) :
    ((Node.mk h (r.map f)).kind.fields.zip
      ((Node.mk h (r.map f)).phrase.slots.map (SlotValue.map writing))).foldlM
        WrittenSlots.addRow {} =
      (r.kind.fields.zip r.slots).foldlM
        (fun s row => s.addRow (row.1, row.2.map fun c => writing (f c))) {} := by
  rw [Node.kind, Node.phrase_mk, Phrase.kind_map, Phrase.slots_map, List.map_map,
    List.zip_map_right, List.foldlM_map]
  simp only [Prod.map, Function.comp_apply, SlotValue.map_map, Function.comp_def, id]

/-- A node with the children replaced. -/
theorem replaces_of_children {h h' : Header} {r : Phrase (Node × Node)}
    (attributes : h'.attributes = h.attributes) (comment : h'.comment = h.comment)
    (silent : h'.diagnostics = []) (each : ∀ c ∈ r.children, Replaces c.1 c.2) :
    Replaces (.mk h (r.map Prod.fst)) (.mk h' (r.map Prod.snd)) := by
  refine ⟨fun empty => ?_, fun b block => ?_, fun bs chain => ?_⟩
  · rw [Node.phrase_mk] at empty ⊢
    cases r <;> first | rfl | cases empty
  · obtain ⟨type, slots, known, rows, rfl⟩ := block_eq_ok_iff.1 block
    have inside : ∀ v ∈ r.slots, ∀ c ∈ v.nodes, Replaces c.1 c.2 := fun v hv c hc =>
      each c (Phrase.mem_children_of_mem_slots hv hc)
    rw [addRows_map] at rows
    obtain ⟨slots', rows', less⟩ := Except.exists_foldlM_of_forall₂
      (R := SlotsNoDeeper) (Q := fun x y => x = y ∧ ∀ c ∈ x.2.nodes, Replaces c.1 c.2)
      (f := fun s row => s.addRow (row.1, row.2.map fun c => writing c.1))
      (g := fun s row => s.addRow (row.1, row.2.map fun c => writing c.2))
      (fun s t x y s' start same added => by
        obtain ⟨rfl, replaces⟩ := same
        exact exists_addRow start replaces added)
      (List.forall₂_same.2 fun x hx => ⟨rfl, inside _ (List.of_mem_zip hx).2⟩)
      ⟨rfl, .nil, .nil⟩ rows
    refine ⟨_, block_eq_ok_iff.2 ⟨type, slots', ?_, ?_, rfl⟩, ?_⟩
    · rwa [Node.kind, Node.phrase_mk, Phrase.kind_map] at known ⊢
    · rw [addRows_map]
      exact rows'
    · rw [show (Node.mk h' (r.map Prod.snd)).diagnostics = [] from silent]
      exact noDeeper_of_slots attributes comment less _
  · obtain ⟨ns, chains, written⟩ := chain_eq_ok_iff.1 chain
    obtain ⟨cs, rfl, rfl⟩ := Phrase.exists_of_map_eq_stmtList chains
    rw [List.forall₂_map_left_iff] at written
    obtain ⟨cs', written', less⟩ :=
      Except.exists_forall₂_of_forall₂ written fun c hc => (each c hc).block
    exact ⟨cs', chain_eq_ok_iff.2 ⟨_, rfl, List.forall₂_map_left_iff.2 written'⟩, less⟩

/-- The last row of an operator on constants holds an operand that is no empty expression. -/
theorem exists_operand_of_step {p q : Phrase Node} (h : Folding.Step (p.map Node.folded) q) :
    ∃ rows spec e, p.kind.fields.zip p.slots = rows ++ [(spec, .value e)] ∧
      e.phrase.isEmptyExpr = false := by
  have number {e : Node} {x : Float} (h : e.folded.number? = some x) :
      e.phrase.isEmptyExpr = false :=
    e.isEmptyExpr_folded.symm.trans (Node.isEmptyExpr_of_number? h)
  have boolean {e : Node} {b : Bool} (h : e.folded.boolean? = some b) :
      e.phrase.isEmptyExpr = false :=
    e.isEmptyExpr_folded.symm.trans (Node.isEmptyExpr_of_boolean? h)
  cases p with
  | arithmetic op l r =>
    cases h with
    | arithmetic left right result =>
      exact ⟨[(_, .literal _), (_, .value l)], _, r, rfl, number right⟩
  | compare op l r =>
    refine ⟨[(_, .literal _), (_, .value l)], _, r, rfl, ?_⟩
    cases h with
    | numbers left right => exact number right
    | booleans left right result => exact boolean right
  | logic op l r =>
    cases h with
    | logic left right => exact ⟨[(_, .literal _), (_, .value l)], _, r, rfl, boolean right⟩
  | negate e =>
    cases h with
    | negate inner => exact ⟨[], _, e, rfl, boolean inner⟩
  | _ => cases h

/-- An operator on constants is written as a block with a block in a value slot. -/
theorem exists_value_of_step {n : Node} {q : Phrase Node} {slots : WrittenSlots}
    (h : Folding.Step (n.phrase.map Node.folded) q)
    (rows : (n.kind.fields.zip (n.phrase.slots.map (SlotValue.map writing))).foldlM
      WrittenSlots.addRow {} = .ok slots) : ∃ v, v ∈ slots.values := by
  obtain ⟨init, spec, e, last, present⟩ := exists_operand_of_step h
  rw [Node.kind, List.zip_map_right, last, List.map_append, List.foldlM_append] at rows
  obtain ⟨s, -, rows⟩ := Except.bind_eq_ok_iff.1 rows
  obtain ⟨s', added, rows⟩ := Except.bind_eq_ok_iff.1 rows
  cases rows
  obtain ⟨o, writes, rfl⟩ := writesValue_of_addValue added
  cases o with
  | none =>
    rw [show e.phrase = .emptyExpr from writes] at present
    cases present
  | some b => exact ⟨_, List.mem_append_right _ (List.mem_singleton_self _)⟩

/-- What is written of a constant. -/
theorem exists_block_of_step {p q : Phrase Node} (h : Folding.Step p q) (header : Header) :
    ∃ fields, (written (.mk header q)).block = .ok (.mk
      { writtenLayer (.mk header q) (q.kind.blockType.getD "") with
        fields, annotations := header.diagnostics.map annotation }) := by
  cases h <;> exact ⟨_, rfl⟩

/-- A constant has no children. -/
theorem eq_of_step {p q q' : Phrase Node} (h : Folding.Step p q)
    (same : q'.map Node.plain = q.map Node.plain) : q' = q := by
  cases h <;> cases q' <;> cases same <;> rfl

/-- A constant in the place of an operator. -/
theorem replaces_of_step {n : Node} {q : Phrase Node} {h' : Header}
    (h : Folding.Step (n.phrase.map Node.folded) q)
    (attributes : h'.attributes = n.attributes) (comment : h'.comment = n.comment?)
    (silent : h'.diagnostics = []) : Replaces n (.mk h' q) := by
  refine ⟨fun empty => ?_, fun b block => ?_, fun bs chain => ?_⟩
  · rw [empty] at h
    cases h
  · obtain ⟨type, slots, known, rows, rfl⟩ := block_eq_ok_iff.1 block
    obtain ⟨v, given⟩ := exists_value_of_step h rows
    obtain ⟨fields, written⟩ := exists_block_of_step h h'
    refine ⟨_, written, noDeeper_of_value attributes comment rfl rfl ?_ given⟩
    exact congrArg (List.map annotation) silent
  · obtain ⟨ns, chain, -⟩ := chain_eq_ok_iff.1 chain
    rw [chain] at h
    cases h

/-- A folded tree without findings can be written wherever the tree can be, with blocks that nest
no deeper. -/
theorem replaces_folded {n m : Node} (content : m.plain = n.folded.plain)
    (silent : ∀ k ∈ m.walk, k.diagnostics = []) : Replaces n m := by
  induction n using Node.induction generalizing m with
  | step n ih =>
    obtain ⟨h', q⟩ := m
    rw [Node.walk_eq, List.forall_mem_cons, List.forall_mem_flatMap] at silent
    obtain ⟨top, below⟩ := silent
    -- the node is rebuilt from its folded children, unless a constant takes its place
    rcases step : Folding.fold? (n.phrase.map Node.folded) with _ | p
    · rw [Node.folded_of_none step] at content
      obtain ⟨-, attributes, comment, phrase⟩ := Node.plain_eq_iff.1 content
      rw [Node.phrase_mk, Node.phrase_mk, Phrase.map_map] at phrase
      obtain ⟨r, left, rfl, alike⟩ := Phrase.exists_zip_of_map_eq phrase.symm
      rw [← n.mk_header_phrase, ← left]
      refine replaces_of_children attributes comment top fun c hc => ?_
      have first : c.1 ∈ n.children := by
        rw [Node.children, ← left, Phrase.children_map]
        exact List.mem_map_of_mem hc
      have second : c.2 ∈ (r.map Prod.snd).children := by
        rw [Phrase.children_map]
        exact List.mem_map_of_mem hc
      exact ih c.1 first (alike c hc).symm (below c.2 second)
    · rw [Node.folded_of_some step] at content
      obtain ⟨-, attributes, comment, phrase⟩ := Node.plain_eq_iff.1 content
      have step := Folding.step_of_fold? step
      obtain rfl : q = p := eq_of_step step phrase
      exact replaces_of_step step attributes comment top

end Mapping

/-! ## Documents -/

/-- Whether the blocks of all chains nest so deep at most that their document nests `n` deep. -/
def Document.Fits (d : Document) (n : Nat) : Prop :=
  ∀ c ∈ d.instances, ∀ b ∈ c.blocks, b.toJson.depth + 4 ≤ n

theorem Document.read_write_of_fits {d : Document} (version : d.formatVersion ∈ supportedVersions)
    (fits : d.Fits Json.maxDepth) : read d.write = .ok d :=
  read_write version (depth_toJson_le (by decide) fits)

/-- What is written of a document that was accepted nests as deep as documents may. -/
theorem Document.fits_tidy {registry : KindRegistry} {text : String} {d : Document} {p : Program}
    (accepted : read text = .ok d) (content : d.content registry = .ok p) :
    (d.tidy registry).Fits Json.maxDepth := by
  obtain ⟨j, text, shape⟩ := exists_ofJson_of_read accepted
  obtain ⟨-, is, instances, -⟩ := content_eq_ok_iff.1 content
  have room := Json.depth_le_of_read text
  rw [Fits, tidy, List.forall_mem_map]
  intro c hc
  rw [List.forall_mem_map]
  intro b hb
  obtain ⟨n, read⟩ := exists_content_of_mem_blocks instances hc hb
  have written := depth_tidy_le read
  have below := span_le_of_ofJson shape c hc b hb
  omega

/-- Whether a chain is what an instance is written as. -/
def Instance.Writes (i : Instance) (c : Chain) : Prop :=
  ∃ blocks, (written i.body).chain = .ok blocks ∧ c = ⟨i.x, i.y, blocks⟩

theorem Program.toDocument_eq_ok_iff {p : Program} {r : Document} : p.toDocument = .ok r ↔
    ∃ cs, List.Forall₂ Instance.Writes p.instances cs ∧
      r = ⟨p.formatVersion, p.description, p.tags, cs⟩ := by
  have chain (i : Instance) (c : Chain) :
      (do return (⟨i.x, i.y, ← (written i.body).chain⟩ : Chain)) = .ok c ↔ i.Writes c := by
    rw [Except.bind_eq_ok_iff]
    exact exists_congr fun blocks => and_congr_right fun _ =>
      Except.pure_eq_ok_iff.trans eq_comm
  simp only [toDocument, Except.bind_eq_ok_iff, Except.pure_eq_ok_iff, Except.mapM_eq_ok_iff,
    chain]
  exact exists_congr fun cs => and_congr_right fun _ => eq_comm

theorem Instance.exists_writes {is : List Instance} {bodies : List Node} {cs : List Chain} {n : Nat}
    (each : List.Forall₂ (fun m i => Replaces i.body m) bodies is)
    (writes : List.Forall₂ Writes is cs)
    (fits : ∀ c ∈ cs, ∀ b ∈ c.blocks, b.toJson.depth + 4 ≤ n) :
    ∃ cs', List.Forall₂ Writes (withBodies is bodies) cs' ∧
      ∀ c ∈ cs', ∀ b ∈ c.blocks, b.toJson.depth + 4 ≤ n := by
  induction each generalizing cs with
  | nil => exact ⟨[], .nil, by simp⟩
  | cons replaces others ih =>
    obtain ⟨c, cs, ⟨blocks, chain, rfl⟩, rest, rfl⟩ := List.forall₂_cons_left_iff.1 writes
    rw [List.forall_mem_cons] at fits
    obtain ⟨blocks', chain', less⟩ := replaces.chain blocks chain
    obtain ⟨cs', rest', fits'⟩ := ih rest fits.2
    refine ⟨⟨_, _, blocks'⟩ :: cs', .cons ⟨blocks', chain', rfl⟩ rest',
      List.forall_mem_cons.2 ⟨?_, fits'⟩⟩
    exact Except.forall_right_of_forall₂ ((List.forall₂_and_left _ _).2 ⟨fits.1, less⟩)
      fun b c h => Nat.le_trans (Nat.add_le_add_right h.2 4) h.1

/-- A program with other chains in the places of the old ones is written as a document that
fits where the old one did. -/
theorem Program.exists_toDocument_withBodies {p : Program} {r : Document} {bodies : List Node}
    {n : Nat} (each : List.Forall₂ (fun m i => Replaces i.body m) bodies p.instances)
    (written : p.toDocument = .ok r) (fits : r.Fits n) :
    ∃ r', toDocument { p with instances := Instance.withBodies p.instances bodies } = .ok r' ∧
      r'.formatVersion = r.formatVersion ∧ r'.Fits n := by
  obtain ⟨cs, writes, rfl⟩ := toDocument_eq_ok_iff.1 written
  obtain ⟨cs', writes', fits'⟩ := Instance.exists_writes each writes fits
  exact ⟨_, toDocument_eq_ok_iff.2 ⟨cs', writes', rfl⟩, rfl, fits'⟩

/-- A program that was read from a text is saved as a document that can be read again, as it is
and after a run of constant folding. -/
theorem Program.saves_of_ofDocument {specs : List ExtensionSpec} {registry : KindRegistry}
    (registered : KindRegistry.core.registerAll specs = .ok registry) {text : String}
    {d : Document} (accepted : Document.read text = .ok d) {p : Program} {s s' : Supply}
    (read : (ofDocument registry d).run s = (.ok p, s')) {t : Supply} (later : s'.next ≤ t.next)
    (k : Nat) :
    (∃ r, p.toDocument = .ok r ∧ Document.read r.write = .ok r) ∧
      ∃ q k' t', (p.foldConstants.runFrom k).run t = (.ok (q, k'), t') ∧
        ∃ r, q.toDocument = .ok r ∧ Document.read r.write = .ok r := by
  have content := (ofDocument_eq_ok_iff.1 ⟨p, s', read, rfl⟩).1
  have version := checkVersion_eq_ok_iff.1 (Document.content_eq_ok_iff.1 content).1
  have saved := toDocument_of_content (KindRegistry.consistent_of_registerAll registered) content
  have fits := Document.fits_tidy accepted content
  refine ⟨⟨_, saved, Document.read_write_of_fits version fits⟩, ?_⟩
  obtain ⟨bodies, u, given, length, all⟩ := exists_bodies_folds read (t := (k, t)) later
  have each : List.Forall₂ (fun m i => Replaces i.body m) bodies p.instances := by
    have alike := all.content
    rw [List.map_map, ← List.forall₂_eq_eq_eq, List.forall₂_map_left_iff,
      List.forall₂_map_right_iff] at alike
    have silent := all.silent (by
      rw [List.flatMap_map]
      exact silent_of_ofDocument read)
    rw [List.forall_mem_flatMap] at silent
    exact ((List.forall₂_and_left _ _).2 ⟨silent, alike⟩).imp fun m i h =>
      replaces_folded h.2 h.1
  obtain ⟨r, saved', version', fits'⟩ := exists_toDocument_withBodies each saved fits
  exact ⟨_, u.1, u.2, Rewriting.runFrom_eq_ok_iff.2 given, r, saved',
    Document.read_write_of_fits (version' ▸ version) fits'⟩

/-- A pause of `(1 + 2) · x` is saved, and so is the pause that it is folded to. -/
theorem Program.saves_product : ∃ s, (ofDocument .core product).run {} = (.ok productProgram, s) ∧
    Document.read product.write = .ok product ∧
      (∃ r, productProgram.toDocument = .ok r ∧ Document.read r.write = .ok r) ∧
        ∃ q k' t', (productProgram.foldConstants.runFrom 0).run s = (.ok (q, k'), t') ∧
          ∃ r, q.toDocument = .ok r ∧ Document.read r.write = .ok r := by
  obtain ⟨s, read⟩ := exists_ofDocument_product
  have accepted : Document.read product.write = .ok product :=
    Document.read_write_of_fits (by decide) (by unfold Document.Fits; decide)
  have registered : KindRegistry.core.registerAll [] = .ok .core := rfl
  exact ⟨s, read, accepted, saves_of_ofDocument registered accepted read (Nat.le_refl _) 0⟩

end BlockGraph

import BlockGraph.Proofs.Mapping.Faults
import Mathlib.Data.List.Perm.Subperm

/-!
# Who is to blame

A document that is rejected has a block that breaks a rule, and the error names this block.

* `Mapping.Blames`: a step of reading fails because of such a block only.
* `Program.exists_ofDocument_iff_not_breaks`: which documents are read.
* `Program.blamed_of_ofDocument`: the error of a document that is rejected.
-/

namespace BlockGraph

/-! ## Ids and places of blocks -/

theorem Block.mem_preorder_of_child {b c p : Block} (hb : b ∈ p.preorder)
    (hc : c ∈ b.layer.children) : c ∈ p.preorder := by
  induction p using Block.induction with
  | step l ih =>
    rw [Block.preorder_mk, List.mem_cons, List.mem_flatMap] at hb ⊢
    rcases hb with rfl | ⟨q, hq, hb⟩
    · refine .inr ⟨c, hc, ?_⟩
      obtain ⟨m⟩ := c
      rw [Block.preorder_mk]
      exact List.mem_cons_self
    · exact .inr ⟨q, hq, ih q hq hb⟩

theorem Document.mem_blocks_of_child {d : Document} {b c : Block} (hb : b ∈ d.blocks)
    (hc : c ∈ b.layer.children) : c ∈ d.blocks := by
  simp only [blocks, List.mem_flatMap] at hb ⊢
  obtain ⟨chain, hchain, p, hp, hb⟩ := hb
  exact ⟨chain, hchain, p, hp, Block.mem_preorder_of_child hb hc⟩

namespace Mapping

variable {α β γ δ : Type} {registry : KindRegistry} {d : Document}

/-- Reading sees no ids but those of the blocks. -/
theorem subperm_found (b : Block) : (found registry Node.blockIds b).Subperm b.ids := by
  cases read : content registry b with
  | error e =>
    rw [found, read]
    exact List.nil_subperm
  | ok n =>
    rw [found_of_content read]
    exact (perm_found b read).subperm

theorem subperm_flatMap_found (blocks : List Block) :
    (blocks.flatMap (found registry Node.blockIds)).Subperm (blocks.flatMap Block.ids) := by
  induction blocks with
  | nil => exact List.Subperm.refl _
  | cons b blocks ih => exact (subperm_found b).append ih

theorem subperm_of_filled {portions : List (Portion Block)} {vs : List (SlotValue Node)}
    (filled : List.Forall₂ (fun p v => p.content registry = .ok v) portions vs) :
    (vs.flatMap slotIds).Subperm ((portions.flatMap Portion.blocks).flatMap Block.ids) := by
  have same : vs.flatMap slotIds =
      portions.flatMap fun p => p.blocks.flatMap (found registry Node.blockIds) :=
    Except.flatMap_eq_of_forall₂ filled fun p v read =>
      found_of_portionContent blockIds_structuralContent read
  rw [same, ← List.flatMap_assoc]
  exact subperm_flatMap_found _

/-! ## Steps of reading -/

/-- `x` fails only if a block of the document breaks a rule, and with an error for this block. That
an id is there twice is found from the ids seen before; `ids` are the ids that `x` may see. -/
def Blames (registry : KindRegistry) (d : Document) (ids : List String) (x : Parse α) : Prop :=
  ∀ seen s, seen.Nodup → ∀ e s', (x.run seen).run s = (.error e, s') →
    (∃ b ∈ d.blocks, b.Blamed registry d e) ∨
      ∃ id, e = .malformed id .duplicateId ∧ 1 < (ids ++ seen).count id

namespace Blames

variable {ids ids' : List String} {x : Parse α} {f : α → Parse γ} {y : Except Error β} {g : α → β}
  {i : β → List String}

theorem mono (h : Blames registry d ids x) (sub : ids.Subperm ids') : Blames registry d ids' x := by
  intro seen s distinct e s' run
  refine (h seen s distinct e s' run).imp_right fun h => ?_
  obtain ⟨id, same, twice⟩ := h
  refine ⟨id, same, Nat.lt_of_lt_of_le twice ?_⟩
  rw [List.count_append, List.count_append]
  exact Nat.add_le_add_right (sub.count_le id) _

protected theorem pure (a : α) : Blames registry d ids (pure a : Parse α) := by
  intro seen s _ e s' run
  cases run

protected theorem create (m : Fresh α) : Blames registry d ids (liftM m : Parse α) := by
  intro seen s _ e s' run
  cases run

/-- A part that may fail and does nothing else. -/
protected theorem lift {u : Except Error α}
    (h : ∀ e, u = .error e → ∃ b ∈ d.blocks, b.Blamed registry d e) :
    Blames registry d ids (liftM u : Parse α) := by
  cases u with
  | error e =>
    intro seen s _ e' s' run
    cases run
    exact .inl (h e rfl)
  | ok a => exact .pure a

/-- What comes next may see the ids that are left. -/
protected theorem bind (first : Blames registry d ids x) (reads : Reads x g i y)
    (next : ∀ a, y = .ok (g a) →
      ∃ ids', (i (g a) ++ ids').Subperm ids ∧ Blames registry d ids' (f a)) :
    Blames registry d ids (x >>= f) := by
  intro seen s distinct e s' run
  rw [Reads.run_bind] at run
  rcases made : (x.run seen).run s with ⟨e' | ⟨a, seen'⟩, s₁⟩ <;> rw [made] at run
  · cases run
    exact first seen s distinct _ _ made
  · obtain ⟨content, rfl, distinct'⟩ := (reads seen s distinct _ _).1 ⟨a, s₁, made, rfl⟩
    obtain ⟨ids', within, rest⟩ := next a content
    refine (rest _ s₁ distinct' e s' run).imp_right fun h => ?_
    obtain ⟨id, same, twice⟩ := h
    have few := within.count_le id
    simp only [List.count_append, List.count_reverse] at twice few ⊢
    exact ⟨id, same, by omega⟩

/-- A part that sees no ids. -/
protected theorem lift_bind {u : Except Error α}
    (h : ∀ e, u = .error e → ∃ b ∈ d.blocks, b.Blamed registry d e)
    (next : ∀ a, u = .ok a → Blames registry d ids (f a)) :
    Blames registry d ids ((liftM u : Parse α) >>= f) := by
  cases u with
  | error e => exact Blames.lift (α := γ) (u := .error e) fun e' same => h e' (by cases same; rfl)
  | ok a => exact next a rfl

/-- Nothing comes after a failure. -/
protected theorem fail_bind {f : γ → Parse α} {e : Error}
    (h : ∃ b ∈ d.blocks, b.Blamed registry d e) :
    Blames registry d ids ((throw e : Parse γ) >>= f) := by
  intro seen s _ e' s' run
  cases run
  exact .inl h

protected theorem claim (id : String) : Blames registry d (id :: ids) (claim id) := by
  intro seen s _ e s' run
  rw [Reads.claim_run] at run
  split at run
  · next mem =>
    cases run
    have seenBefore := List.count_pos_iff.2 mem
    refine .inr ⟨id, rfl, ?_⟩
    rw [List.cons_append, List.count_cons_self, List.count_append]
    omega
  · cases run

/-- What comes next does not fail. -/
protected theorem andThen (first : Blames registry d ids x)
    (next : ∀ a seen s e s', ((f a).run seen).run s ≠ (.error e, s')) :
    Blames registry d ids (x >>= f) := by
  intro seen s distinct e s' run
  rw [Reads.run_bind] at run
  rcases made : (x.run seen).run s with ⟨e' | ⟨a, seen'⟩, s₁⟩ <;> rw [made] at run
  · cases run
    exact first seen s distinct _ _ made
  · exact absurd run (next a seen' s₁ e s')

protected theorem map (first : Blames registry d ids x) (u : α → γ) :
    Blames registry d ids (do let a ← x; return u a) :=
  first.andThen fun a seen s e s' run => by cases run

/-- One thing after the other, each with ids of its own. -/
protected theorem mapM {l : List δ} {u : δ → Parse α} {v : δ → Except Error β} {k : δ → List String}
    (each : ∀ c ∈ l, Blames registry d (k c) (u c)) (reads : ∀ c ∈ l, Reads (u c) g i (v c))
    (within : ∀ c ∈ l, ∀ b, v c = .ok b → (i b).Subperm (k c)) :
    Blames registry d (l.flatMap k) (l.mapM u) := by
  induction l with
  | nil => exact .pure []
  | cons c l ih =>
    rw [List.forall_mem_cons] at each reads within
    rw [List.mapM_cons, List.flatMap_cons]
    refine .bind (each.1.mono (List.sublist_append_left _ _).subperm) reads.1 fun a content => ?_
    exact ⟨l.flatMap k, (List.subperm_append_right _).2 (within.1 _ content),
      (ih each.2 reads.2 within.2).map _⟩

end Blames

/-! ## Reading -/

/-- Reading a block fails only if a block of the document breaks a rule. -/
def Answers (registry : KindRegistry) (d : Document) (b : Block) : Prop :=
  Blames registry d b.ids (block registry b)

/-- A node that is checked after it was made. -/
theorem blames_checked {b : Block} {check : Node → Except Error Unit} (h : Answers registry d b)
    (checked : ∀ n e, content registry b = .ok (Node.bare n) → check n = .error e →
      ∃ b ∈ d.blocks, b.Blamed registry d e) :
    Blames registry d b.ids (do let n ← block registry b; liftM (check n); return n) := by
  refine .bind h (understood b) fun n read =>
    ⟨[], ?_, .lift_bind (checked n · read) fun _ _ => .pure n⟩
  rw [List.append_nil]
  exact (perm_found b read).subperm

/-- The block in a value slot is the parent's. -/
theorem blames_value {slot : String} {o : Option Block} (h : ∀ b ∈ o, Answers registry d b)
    (placed : ∀ b ∈ o, ∃ parent ∈ d.blocks, ⟨slot, b⟩ ∈ parent.layer.values) :
    Blames registry d (o.toList.flatMap Block.ids) (value slot (o.map (inner registry))) := by
  cases o with
  | none => exact .create _
  | some b =>
    rw [Option.toList_some, List.flatMap_singleton]
    refine blames_checked (h b rfl) fun n e read wrong => ?_
    rw [checkValue] at wrong
    split at wrong
    · cases wrong
    · next statement =>
      cases wrong
      obtain ⟨parent, around, there⟩ := placed b rfl
      have known := kind_of_content read
      rw [Node.kind_bare] at known
      refine ⟨b, d.mem_blocks_of_child around ?_, _, rfl, ?_⟩
      · exact List.mem_append_left _ (List.mem_map_of_mem there)
      · exact .statementInValue known (by simpa using statement) around there rfl

/-- The blocks of a chain in a slot are those of the slot. -/
theorem blames_chain {slot : Option String} {blocks : List Block}
    (h : ∀ b ∈ blocks, Answers registry d b)
    (placed : ∀ name ∈ slot, ∀ b ∈ blocks,
      ∃ parent ∈ d.blocks, ∃ s ∈ parent.layer.statements, s.name = name ∧ b ∈ s.blocks) :
    Blames registry d (blocks.flatMap Block.ids) (chain slot (blocks.map (inner registry))) := by
  rw [chain, List.mapM_map]
  refine Blames.andThen (.mapM (v := fun b => do
      let n ← content registry b
      checkStatement slot b n
      return n) (g := Node.bare) (i := Node.blockIds) (fun b hb => ?_) (fun b hb => ?_)
    fun b hb n read => ?_) fun _ _ _ _ _ run => by cases run
  · refine blames_checked (h b hb) fun n e read wrong => ?_
    cases slot with
    | none => cases wrong
    | some name =>
      rw [checkStatement] at wrong
      split at wrong
      · next expression =>
        cases wrong
        obtain ⟨parent, around, s, hs, rfl, inside⟩ := placed name rfl b hb
        have known := kind_of_content read
        rw [Node.kind_bare] at known
        refine ⟨b, d.mem_blocks_of_child around ?_, _, rfl, ?_⟩
        · exact List.mem_append_right _ (List.mem_flatMap.2 ⟨s, hs, inside⟩)
        · exact .expressionInChain known expression around hs inside
      · cases wrong
  · refine (understood b).checked fun n => ?_
    cases slot <;> simp only [checkStatement, Node.kind_bare]
  · obtain ⟨m, read, checked⟩ := Except.bind_eq_ok_iff.1 read
    obtain ⟨_, -, same⟩ := Except.bind_eq_ok_iff.1 checked
    cases same
    exact (perm_found b read).subperm

/-- What a row takes is read slot by slot. -/
theorem blames_portion {parent : Block} (around : parent ∈ d.blocks) {p : Portion Block}
    (within : p.Within parent.layer) (h : ∀ b ∈ p.blocks, Answers registry d b) :
    Blames registry d (p.blocks.flatMap Block.ids)
      ((p.map (inner registry)).fill value fun slot => chain slot) := by
  have placedChain {slot : String} {blocks : List Block}
      (mem : ∀ b ∈ blocks, (slot, blocks) ∈ p.statements) : ∀ name ∈ some slot, ∀ b ∈ blocks,
        ∃ parent ∈ d.blocks, ∃ s ∈ parent.layer.statements, s.name = name ∧ b ∈ s.blocks := by
    intro name hname b hb
    cases hname
    exact ⟨parent, around, _, within.statements _ (mem b hb), rfl, hb⟩
  have nonempty {slot : String} {blocks : List Block} {b : Block} (hb : b ∈ blocks) :
      (slot, blocks) ∈ [(slot, blocks)].filter (!·.2.isEmpty) := by
    cases blocks with
    | nil => cases hb
    | cons => exact List.mem_singleton_self _
  rw [Portion.fill_map]
  cases p with
  | literal slot text => exact .pure _
  | value slot o =>
    rw [Portion.blocks_value] at h ⊢
    refine Blames.map (blames_value (fun b hb => h b (by simpa using hb)) fun b hb => ?_) _
    cases hb
    exact ⟨parent, around, within.values (slot, b) (List.mem_singleton_self _)⟩
  | statement slot blocks =>
    rw [Portion.blocks_statement] at h ⊢
    exact Blames.map (blames_chain h (placedChain fun b hb => nonempty hb)) _
  | optionalStatement slot blocks =>
    rw [Portion.blocks_optionalStatement] at h ⊢
    cases blocks with
    | nil => exact .pure _
    | cons => exact Blames.map (blames_chain h (placedChain fun b hb => nonempty hb)) _
  | repeatedValue members =>
    rw [Portion.blocks_repeatedValue] at h ⊢
    rw [List.filterMap_eq_flatMap_toList, List.flatMap_assoc]
    refine Blames.map (.mapM (fun e he => blames_value (fun b hb => ?_) fun b hb => ?_)
      (fun e he => reads_value fun b _ => understood b) fun e he n read => ?_) _
    · exact h b (List.mem_filterMap.2 ⟨e, he, hb⟩)
    · refine ⟨parent, around, within.values (e.1, b) (List.mem_filterMap.2 ⟨e, he, ?_⟩)⟩
      rw [Option.mem_def.1 hb]
      rfl
    · rw [found_of_valueContent blockIds_structuralContent read]
      exact subperm_flatMap_found _
  | repeatedStatement members =>
    rw [Portion.blocks_repeatedStatement] at h ⊢
    rw [List.flatMap_assoc]
    refine Blames.map (.mapM
      (fun e he => blames_chain (fun b hb => ?_) (placedChain fun b hb => ?_))
      (fun e he => reads_chain fun b _ => understood b) fun e he n read => ?_) _
    · exact h b (List.mem_flatMap.2 ⟨e, he, hb⟩)
    · refine List.mem_filter.2 ⟨he, ?_⟩
      rw [Bool.not_eq_true', List.isEmpty_eq_false_iff]
      exact List.ne_nil_of_mem hb
    · rw [found_of_chainContent blockIds_structuralContent read]
      exact subperm_flatMap_found _

/-- Rows take their slots one after the other, and what they take is read. -/
theorem blames_rows {parent : Block} (around : parent ∈ d.blocks) {kind : Kind}
    (known : registry.lookup parent.layer.type = some kind) {slots : Slots Block}
    (slotsOf : Slots.ofLayer parent.layer = .ok slots)
    (inside : ∀ c ∈ parent.layer.children, Answers registry d c) {before after : List FieldSpec}
    (table : kind.fields = before ++ after) {portions : List (Portion Block)} {s : Slots Block}
    (taken : slots.takeAll parent.layer.id (parent.layer.declared? kind) before =
      .ok (portions, s)) :
    Blames registry d (s.blocks.flatMap Block.ids)
      ((s.map (inner registry)).rows value (fun slot => chain slot) parent.layer.id
        (parent.layer.declared? kind) after) := by
  induction after generalizing before portions s with
  | nil => exact .pure _
  | cons row after ih =>
    rw [Slots.rows, Slots.take_map]
    rcases first : s.take parent.layer.id (parent.layer.declared? kind) row with e | ⟨p, s'⟩
    · obtain ⟨fault, rfl, wrong⟩ := rowFault_of_take first
      have left := perm_leftNames slotsOf taken row.mode.sort
      exact .fail_bind ⟨parent, around, fault, rfl, .row known table (wrong.perm left)⟩
    · have one : s.takeAll parent.layer.id (parent.layer.declared? kind) [row] = .ok ([p], s') :=
        Slots.takeAll_cons_eq_ok_iff.2 ⟨p, s', [], first, rfl, rfl⟩
      have all := Slots.takeAll_append_eq_ok_iff.2 ⟨portions, s, [p], taken, one, rfl⟩
      have within := within_of_takeAll slotsOf all p (by simp)
      have blocks := (Slots.shares_of_take first).perm_blocks
      have ids : (s.blocks.flatMap Block.ids).Perm
          (p.blocks.flatMap Block.ids ++ s'.blocks.flatMap Block.ids) := by
        simpa using blocks.flatMap_right Block.ids
      have here := blames_portion around within fun b hb => inside b (within.mem_children hb)
      have rest := ih (by rw [table, List.append_assoc, List.singleton_append]) all
      change Blames registry d _ (do
        let v ← (p.map (inner registry)).fill value fun slot => chain slot
        let r ← (s'.map (inner registry)).rows value (fun slot => chain slot) parent.layer.id
          (parent.layer.declared? kind) after
        return (v :: r.1, r.2))
      refine .mono (.bind (here.mono (List.sublist_append_left _ _).subperm)
        (reads_portion fun b _ => understood b) fun v read => ?_) ids.symm.subperm
      refine ⟨s'.blocks.flatMap Block.ids, (List.subperm_append_right _).2 ?_, rest.map _⟩
      rw [slotIds, found_of_portionContent blockIds_structuralContent read]
      exact subperm_flatMap_found _

/-- Reading a block of a document fails only if a block of the document breaks a rule. -/
theorem answers (consistent : registry.Consistent) {b : Block} (hb : b ∈ d.blocks) :
    Answers registry d b := by
  induction b using Block.induction with
  | step l ih =>
    have inside (c : Block) (hc : c ∈ l.children) : Answers registry d c :=
      ih c hc (d.mem_blocks_of_child hb hc)
    rw [Answers, block_mk]
    split
    · next empty =>
      rw [String.isEmpty_iff] at empty
      exact .fail_bind ⟨.mk l, hb, _, by rw [← empty]; rfl, .emptyId empty⟩
    rw [Block.ids_mk]
    refine .bind (.claim l.id) (Reads.claim l.id) fun _ _ => ⟨_, List.Subperm.refl _, ?_⟩
    rw [Layout.of_map]
    rcases laid : Layout.of registry l with e | ⟨kind, slots, declared⟩
    · exact .fail_bind ⟨.mk l, hb, blamed_of_layout laid⟩
    obtain ⟨known, slotsOf, count⟩ := Layout.of_eq_ok_iff.1 laid
    have same : declared = l.declared? kind := eq_declared? count
    have rows : Blames registry d (slots.blocks.flatMap Block.ids)
        ((slots.map (inner registry)).rows value (fun slot => chain slot) l.id declared
          kind.fields) := by
      subst same
      have start : slots.takeAll l.id (l.declared? kind) [] = .ok ([], slots) := rfl
      exact blames_rows hb known slotsOf inside rfl start
    change Blames registry d _ (do
      let r ← (slots.map (inner registry)).rows value (fun slot => chain slot) l.id declared
        kind.fields
      let phrase ← liftM (assemble (l.map (inner registry)) kind r.1 r.2)
      liftM (Node.createSealed (some l.id) l.attributes l.comment phrase : Fresh Node))
    refine .mono (.bind rows (reads_rows (Slots.hold_of_ofLayer slotsOf fun b _ => understood b))
      fun r read => ⟨[], ?_, ?_⟩) ((Slots.perm_blocks_ofLayer slotsOf).flatMap_right _).subperm
    · obtain ⟨portions, left, taken, filled, -⟩ := rowsContent_eq_ok_iff.1 read
      have all := ((Slots.shares_of_takeAll taken).perm_blocks.flatMap_right Block.ids).symm
      rw [List.flatMap_append] at all
      rw [List.append_nil]
      exact (subperm_of_filled filled).trans
        ((List.sublist_append_left _ _).subperm.trans all.subperm)
    · obtain ⟨portions, left, taken, filled, rest⟩ := rowsContent_eq_ok_iff.1 read
      refine .lift_bind (fun e wrong => ⟨.mk l, hb, ?_⟩) fun _ _ => .create _
      rw [show r.2 = left.map (inner registry) from rest] at wrong
      exact blamed_of_assemble consistent known slotsOf count taken filled wrong

theorem blames_canvasChain (consistent : registry.Consistent) {c : Chain} (hc : c ∈ d.instances) :
    Blames registry d (c.blocks.flatMap Block.ids) (canvasChain registry c) := by
  refine .map (blames_chain (fun b hb => answers consistent ?_) fun name none => by cases none) _
  refine List.mem_flatMap.2 ⟨c, hc, List.mem_flatMap.2 ⟨b, hb, ?_⟩⟩
  obtain ⟨l⟩ := b
  rw [Block.preorder_mk]
  exact List.mem_cons_self

/-! ## What is read breaks no rule -/

theorem expression_of_hasContent {isExpression : Bool} {b : Block} {kind : Kind}
    (h : HasContent registry isExpression b) (known : registry.lookup b.layer.type = some kind) :
    kind.isExpression = isExpression := by
  obtain ⟨n, read, same⟩ := h
  obtain rfl := Option.some.inj (known.symm.trans (kind_of_content read))
  exact same

/-- A block that is read breaks no rule, if the blocks around it are read and the ids are there
once. -/
theorem not_breaks_of_content (consistent : registry.Consistent)
    (distinct : (d.blocks.map (·.layer.id)).Nodup)
    (read : ∀ b ∈ d.blocks, ∃ n, content registry b = .ok n) {b : Block} (hb : b ∈ d.blocks)
    {fault : BlockFault} : ¬ b.Breaks registry d fault := by
  have contents (b : Block) (hb : b ∈ d.blocks) :=
    (exists_content_iff consistent (l := b.layer)).1 (by
      obtain ⟨l⟩ := b
      exact read _ hb)
  obtain ⟨named, ⟨kind, portions, divided, spelled, last⟩, -, -⟩ := contents b hb
  obtain ⟨slots, declared, known, slotsOf, count, taken⟩ := divide_eq_ok_iff.1 divided
  have same := eq_declared? count
  have once {names : List String} (distinct : names.Nodup) (name : String) :
      ¬ 1 < names.count name := by
    have := List.nodup_iff_count_le_one.1 distinct name
    omega
  intro wrong
  cases wrong with
  | emptyId empty => exact named empty
  | duplicateId twice => exact once distinct _ twice
  | unknownType unknown =>
    rw [known] at unknown
    cases unknown
  | @duplicateSlot sort name twice =>
    obtain ⟨⟨fields, -⟩, ⟨values, -⟩, statements, -⟩ := Slots.ofLayer_eq_ok_iff.1 slotsOf
    cases sort with
    | field => exact once fields _ twice
    | value => exact once values _ twice
    | statement => exact once statements _ twice
  | row known' table wrong =>
    obtain rfl := Option.some.inj (known.symm.trans known')
    subst same
    rw [table] at taken
    exact not_rowFault_of_takeAll slotsOf taken wrong
  | @unusedSlot _ sort name known' unused =>
    obtain rfl := Option.some.inj (known.symm.trans known')
    have mem := (perm_leftNames slotsOf taken sort).mem_iff.2 unused
    cases sort <;> cases mem
  | badChoice known' field misspelled | badFlag known' field misspelled =>
    obtain rfl := Option.some.inj (known.symm.trans known')
    rw [spelled _ field] at misspelled
    cases misspelled
  | badBranchCount known' entry unreadable =>
    obtain rfl := Option.some.inj (known.symm.trans known')
    obtain ⟨n, readable, -⟩ := (declaredCount_eq_ok_iff (l := b.layer)).1 count
    rw [unreadable] at readable
    cases readable
  | badElse known' entry unreadable =>
    obtain rfl := Option.some.inj (known.symm.trans known')
    have readable := (last rfl).readable
    rw [entry] at readable
    simp [unreadable] at readable
  | undeclaredElse known' slot name present undeclared =>
    obtain rfl := Option.some.inj (known.symm.trans known')
    exact undeclared ((last rfl).present ⟨_, slot, name, present⟩)
  | expressionInChain known' expression around slot inside =>
    obtain ⟨-, -, -, statements⟩ := contents _ around
    rw [expression_of_hasContent (statements _ slot _ inside) known'] at expression
    cases expression
  | statementInValue known' statement around slot inside =>
    obtain ⟨-, -, values, -⟩ := contents _ around
    subst inside
    rw [expression_of_hasContent (values _ slot) known'] at statement
    cases statement

/-- If a block is read, so are the blocks in it. -/
theorem exists_content_of_mem_preorder {b c : Block} (read : ∃ n, content registry b = .ok n)
    (hc : c ∈ b.preorder) : ∃ n, content registry c = .ok n := by
  induction b using Block.induction with
  | step l ih =>
    rw [Block.preorder_mk, List.mem_cons, List.mem_flatMap] at hc
    rcases hc with rfl | ⟨q, hq, hc⟩
    · exact read
    · obtain ⟨n, read⟩ := read
      obtain ⟨-, portions, p, divided, filled, -⟩ := content_eq_ok_iff.1 read
      obtain ⟨portion, hp, inside⟩ :=
        List.mem_flatMap.1 ((perm_children_of_divide divided).mem_iff.2 hq)
      obtain ⟨v, taken⟩ := Except.exists_forall₂_iff.1 ⟨_, filled⟩ portion hp
      exact ih q hq (exists_content_of_mem taken inside) hc

end Mapping

/-! ## Documents -/

/-- All blocks of a document that has a content have one. -/
theorem Document.exists_content_of_content {registry : KindRegistry} {d : Document} {q : Program}
    (h : d.content registry = .ok q) {b : Block} (hb : b ∈ d.blocks) :
    ∃ n, Mapping.content registry b = .ok n := by
  obtain ⟨-, is, instances, -⟩ := content_eq_ok_iff.1 h
  simp only [blocks, List.mem_flatMap] at hb
  obtain ⟨chain, hchain, top, htop, hb⟩ := hb
  exact Mapping.exists_content_of_mem_preorder
    (exists_content_of_mem_blocks instances hchain htop) hb

namespace Program

variable {registry : KindRegistry} {d : Document} {s s' : Supply} {e : Error}

theorem exists_blamed_of_ofDocument (consistent : registry.Consistent)
    (version : d.formatVersion ∈ supportedVersions)
    (rejected : (ofDocument registry d).run s = (.error e, s')) :
    ∃ b ∈ d.blocks, b.Blamed registry d e := by
  have blames : Mapping.Blames registry d (d.blocks.map (·.layer.id))
      (d.instances.mapM (Mapping.canvasChain registry)) := by
    rw [Document.ids_blocks]
    refine .mapM (fun c hc => Mapping.blames_canvasChain consistent hc)
      (fun c _ => Mapping.reads_canvasChain c) fun c _ i read => ?_
    obtain ⟨body, chain, rfl⟩ := Mapping.canvasContent_eq_ok_iff.1 read
    rw [Mapping.found_of_chainContent Mapping.blockIds_structuralContent chain]
    exact Mapping.subperm_flatMap_found _
  rw [ofDocument_run s (checkVersion_eq_ok_iff.2 version)] at rejected
  rcases read : ((d.instances.mapM (Mapping.canvasChain registry)).run []).run s with
    ⟨e' | ⟨is, seen⟩, s₁⟩ <;> rw [read] at rejected <;> cases rejected
  rcases blames [] s .nil e s' read with blamed | ⟨id, rfl, twice⟩
  · exact blamed
  · -- no id was seen before the document
    rw [List.append_nil] at twice
    obtain ⟨b, hb, rfl⟩ := List.mem_map.1 (List.count_pos_iff.1 (Nat.zero_lt_of_lt twice))
    exact ⟨b, hb, _, rfl, .duplicateId twice⟩

/-- A document of a supported version is read if none of its blocks breaks a rule. -/
theorem exists_ofDocument_iff_not_breaks (consistent : registry.Consistent)
    (version : d.formatVersion ∈ supportedVersions) :
    (∃ p s', (ofDocument registry d).run s = (.ok p, s')) ↔
      ∀ b ∈ d.blocks, ∀ fault, ¬ b.Breaks registry d fault := by
  refine ⟨fun h => ?_, fun h => ?_⟩
  · obtain ⟨p, s', read⟩ := h
    obtain ⟨content, distinct⟩ := ofDocument_eq_ok_iff.1 ⟨p, s', read, rfl⟩
    rw [(Document.perm_of_content content).nodup_iff] at distinct
    intro b hb fault
    exact Mapping.not_breaks_of_content consistent distinct
      (fun c hc => Document.exists_content_of_content content hc) hb
  · rcases run : (ofDocument registry d).run s with ⟨e | p, s'⟩
    · obtain ⟨b, hb, fault, -, broken⟩ := exists_blamed_of_ofDocument consistent version run
      exact absurd broken (h b hb fault)
    · exact ⟨p, s', rfl⟩

/-- If a document of a supported version is rejected, a block of it breaks a rule, and the error is
this fault of this block. The error never is about what the rows of a table have made of the slots
of the block. -/
theorem blamed_of_ofDocument {specs : List ExtensionSpec}
    (registered : KindRegistry.core.registerAll specs = .ok registry)
    (version : d.formatVersion ∈ supportedVersions)
    (rejected : (ofDocument registry d).run s = (.error e, s')) :
    ∃ id fault, e = .malformed id fault ∧ fault.isMismatch = false ∧
      ∃ b ∈ d.blocks, b.layer.id = id ∧ b.Breaks registry d fault := by
  have consistent := KindRegistry.consistent_of_registerAll registered
  obtain ⟨b, hb, fault, rfl, broken⟩ := exists_blamed_of_ofDocument consistent version rejected
  exact ⟨_, fault, rfl, broken.isMismatch, b, hb, rfl, broken⟩

/-- A block inside another has a chain whose number is much too high. -/
def sparseFork : Document where
  formatVersion := "3.1"
  instances := [{ blocks := [.mk {
    id := "a", type := "fork"
    statements := [⟨"DO0", [.mk { id := "b", type := "fork", statements := [⟨"DO70", []⟩] }]⟩] }] }]

theorem ofDocument_sparseFork : ∃ s', (ofDocument forkRegistry sparseFork).run {} =
    (.error (.malformed "b" (.tooFewPresent "DO" 71 1)), s') := by
  have computed : (((ofDocument forkRegistry sparseFork).run {}).1.map fun _ => ()) =
    .error (.malformed "b" (.tooFewPresent "DO" 71 1)) := by decide +kernel
  rcases run : (ofDocument forkRegistry sparseFork).run {} with ⟨e | p, s'⟩ <;>
    rw [run] at computed <;> cases computed
  exact ⟨s', rfl⟩

theorem blamed_sparseFork : ∃ b ∈ sparseFork.blocks, b.layer.id = "b" ∧
    b.Breaks forkRegistry sparseFork (.tooFewPresent "DO" 71 1) := by
  obtain ⟨s', rejected⟩ := ofDocument_sparseFork
  obtain ⟨id, fault, same, -, b, hb, named, broken⟩ :=
    blamed_of_ofDocument registerAll_fork (by decide) rejected
  cases same
  exact ⟨b, hb, named, broken⟩

end Program

end BlockGraph

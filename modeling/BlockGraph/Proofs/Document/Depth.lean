import BlockGraph.Proofs.Document.Canonical
import BlockGraph.Proofs.Document.Format
import BlockGraph.Proofs.Json.Depth

/-!
# How deep documents nest

A document may be written deeper than the value it was read from: the list of a chain stands there
even if the chain has no blocks and the value had no list. The canonical form has no such chains
and no annotations. All that it is written with, the value had too, as an object or as an array.
Only the lists of the document and of its instances are written always.

* `BlockLayer.Nests`: the depth of a block in terms of its parts.
* `Document.span_le_of_ofJson`: the canonical form of a document nests no deeper than the value the
  document was read from, apart from these lists.
-/

namespace BlockGraph

open Json

variable {α β : Type}

/-! ## Values without arrays and objects inside -/

theorem depth_flat {members : List (String × Json)} (flat : ∀ m ∈ members, m.2.depth = 0) :
    (Json.obj members).depth = 1 := by
  refine Nat.le_antisymm ((depth_obj_le_iff 0).2 ⟨Nat.le_refl 1, fun m hm => ?_⟩)
    ((depth_obj_le_iff 0).1 (Nat.le_refl _)).1
  rw [flat m hm]

theorem Comment.depth_toJson (c : Comment) : c.toJson.depth = 1 := by
  refine depth_flat fun m hm => ?_
  simp only [List.mem_append, List.mem_singleton, mem_unlessDefault, mem_ifPresent] at hm
  rcases hm with ((rfl | ⟨-, rfl⟩) | ⟨w, -, rfl⟩) | ⟨h, -, rfl⟩ <;> rfl

theorem FieldSlot.depth_toJson (s : FieldSlot) : s.toJson.depth = 1 := rfl

theorem Annotation.depth_toJson (a : Annotation) : a.toJson.depth = 1 := rfl

section Members

variable {name : String} {v : Json} {P : String × Json → Prop}

theorem forall_mem_unlessDefault {isDefault : Bool} :
    (∀ m ∈ unlessDefault name isDefault v, P m) ↔ (isDefault = false → P (name, v)) := by
  cases isDefault <;> simp [unlessDefault]

theorem forall_mem_unlessEmpty {f : α → Json} {l : List α} :
    (∀ m ∈ unlessEmpty name (l.map f), P m) ↔ (l ≠ [] → P (name, .arr (l.map f))) := by
  cases l <;> simp [unlessEmpty, unlessDefault]

theorem forall_mem_ifPresent {f : α → Json} {o : Option α} :
    (∀ m ∈ ifPresent name (o.map f), P m) ↔ ∀ a ∈ o, P (name, f a) := by
  cases o <;> simp [ifPresent]

end Members

/-! ## Blocks -/

/-- Whether a block nests at most `n` deep, given how deep the blocks inside nest, apart from its
annotations and its empty chains. -/
structure BlockLayer.Nests (depth : α → Nat) (l : BlockLayer α) (n : Nat) : Prop where
  object : 1 ≤ n
  mutation : l.attributes.mutation.isEmpty = false → 2 ≤ n
  comment : l.comment.isSome = true → 2 ≤ n
  fields : l.fields ≠ [] → 3 ≤ n
  values : ∀ s ∈ l.values, depth s.block + 3 ≤ n
  statements : ∀ s ∈ l.statements, ∀ b ∈ s.blocks, depth b + 4 ≤ n

theorem ValueSlot.depth_toJson_le_iff (k : Nat) {s : ValueSlot Block} {n : Nat} :
    s.toJson.depth + k ≤ n ↔ k + 1 ≤ n ∧ s.block.toJson.depth + (k + 1) ≤ n := by
  rw [toJson, depth_obj_le_iff]
  simp

theorem StatementSlot.depth_toJson_le_iff (k : Nat) {s : StatementSlot Block} {n : Nat} :
    s.toJson.depth + k ≤ n ↔ k + 2 ≤ n ∧ ∀ b ∈ s.blocks, b.toJson.depth + (k + 2) ≤ n := by
  rw [toJson, depth_obj_le_iff]
  simp only [List.forall_mem_cons, List.not_mem_nil, false_imp_iff, implies_true, and_true,
    depth_str, depth_arr_le_iff, List.forall_mem_map]
  constructor
  · exact fun h => h.2.2
  · exact fun h => ⟨by omega, by omega, h⟩

theorem Attributes.depth_toMembers_le_iff {a : Attributes} {n : Nat} (object : 1 ≤ n) :
    (∀ m ∈ a.toMembers, m.2.depth + 1 ≤ n) ↔ (a.mutation.isEmpty = false → 2 ≤ n) := by
  have mutation : (Json.obj (a.mutation.entries.map fun e => (e.1, .str e.2))).depth = 1 :=
    depth_flat fun m hm => by
      obtain ⟨e, -, rfl⟩ := List.mem_map.1 hm
      rfl
  unfold toMembers
  simp only [List.forall_mem_append, forall_mem_unlessDefault, forall_mem_ifPresent, depth_bool,
    mutation, Nat.zero_add, object, implies_true, true_and]

theorem forall_mem_const {l : List α} {p : Prop} : (∀ a ∈ l, p) ↔ (l ≠ [] → p) := by
  refine ⟨fun h given => ?_, fun h a ha => h (List.ne_nil_of_mem ha)⟩
  obtain ⟨a, ha⟩ := List.exists_mem_of_ne_nil l given
  exact h a ha

/-- A list that is written unless it is empty. -/
theorem depth_list_le_iff {f : α → Json} {l : List α} {n : Nat} :
    (l ≠ [] → (Json.arr (l.map f)).depth + 1 ≤ n) ↔ ∀ a ∈ l, (f a).depth + 2 ≤ n := by
  rw [depth_arr_le_iff, List.forall_mem_map]
  refine ⟨fun h a ha => (h (List.ne_nil_of_mem ha)).2 a ha, fun h given => ⟨?_, h⟩⟩
  exact forall_mem_const.1 (fun a ha => by have room := h a ha; omega) given

theorem depth_records_le_iff {f : α → Json} {l : List α} (flat : ∀ a ∈ l, (f a).depth = 1)
    {n : Nat} : (l ≠ [] → (Json.arr (l.map f)).depth + 1 ≤ n) ↔ (l ≠ [] → 3 ≤ n) := by
  rw [depth_list_le_iff, ← forall_mem_const]
  exact forall₂_congr fun a ha => by rw [flat a ha]

theorem depth_values_le_iff {l : List (ValueSlot Block)} {n : Nat} :
    (l ≠ [] → (Json.arr (l.map ValueSlot.toJson)).depth + 1 ≤ n) ↔
      ∀ s ∈ l, s.block.toJson.depth + 3 ≤ n := by
  simp only [depth_list_le_iff, ValueSlot.depth_toJson_le_iff]
  exact forall₂_congr fun s hs => and_iff_right_of_imp fun room => by omega

theorem depth_statements_le_iff {l : List (StatementSlot Block)} {n : Nat} :
    (l ≠ [] → (Json.arr (l.map StatementSlot.toJson)).depth + 1 ≤ n) ↔
      (∀ s ∈ l, ∀ b ∈ s.blocks, b.toJson.depth + 4 ≤ n) ∧ (l ≠ [] → 4 ≤ n) := by
  simp only [depth_list_le_iff, StatementSlot.depth_toJson_le_iff]
  rw [and_comm, ← forall_mem_const, ← forall₂_and]

theorem Block.depth_toJson_le_iff {l : BlockLayer Block} {n : Nat} :
    (mk l).toJson.depth ≤ n ↔ l.Nests (·.toJson.depth) n ∧
      (l.statements ≠ [] → 4 ≤ n) ∧ (l.annotations ≠ [] → 3 ≤ n) := by
  rw [toJson_mk]
  refine (depth_obj_le_iff 0).trans ?_
  by_cases object : 1 ≤ n
  · have fields := @depth_records_le_iff _ _ l.fields (fun f _ => f.depth_toJson) n
    have annotations := @depth_records_le_iff _ _ l.annotations (fun a _ => a.depth_toJson) n
    have comment : (∀ c ∈ l.comment, c.toJson.depth + 1 ≤ n) ↔
        (l.comment.isSome = true → 2 ≤ n) := by
      simp only [Comment.depth_toJson]
      cases l.comment <;> simp
    unfold BlockLayer.toMembers
    simp only [List.forall_mem_append, List.forall_mem_cons, List.not_mem_nil, false_imp_iff,
      implies_true, and_true, depth_str, forall_mem_ifPresent, forall_mem_unlessEmpty, comment,
      Attributes.depth_toMembers_le_iff object, fields, annotations, depth_values_le_iff,
      depth_statements_le_iff]
    constructor
    · rintro ⟨-, ⟨⟨⟨⟨⟨-, mutation⟩, comment⟩, fields⟩, values⟩, statements, chains⟩, annotations⟩
      exact ⟨⟨object, mutation, comment, fields, values, statements⟩, chains, annotations⟩
    · rintro ⟨⟨-, mutation, comment, fields, values, statements⟩, chains, annotations⟩
      exact ⟨object, ⟨⟨⟨⟨⟨⟨object, object⟩, mutation⟩, comment⟩, fields⟩, values⟩, statements,
        chains⟩, annotations⟩
  · exact iff_of_false (fun h => object h.1) fun h => object h.1.object

/-! ## Canonical forms -/

/-- How deep the canonical form of a block nests. -/
def Block.span (b : Block) : Nat := b.canonical.toJson.depth

namespace BlockLayer

variable {depth : β → Nat} {n : Nat}

theorem nests_map_iff {f : α → β} {l : BlockLayer α} :
    (l.map f).Nests depth n ↔ l.Nests (fun a => depth (f a)) n := by
  constructor
  · rintro ⟨object, mutation, comment, fields, values, statements⟩
    simp only [map, List.forall_mem_map, ValueSlot.map, StatementSlot.map] at values statements
    exact ⟨object, mutation, comment, fields, values, statements⟩
  · rintro ⟨object, mutation, comment, fields, values, statements⟩
    refine ⟨object, mutation, comment, fields, ?_, ?_⟩
    · simpa only [map, List.forall_mem_map, ValueSlot.map] using values
    · simpa only [map, List.forall_mem_map, StatementSlot.map] using statements

theorem mem_sortByName {name : α → String} {l : List α} {a : α} : a ∈ sortByName name l ↔ a ∈ l :=
  (List.mergeSort_perm l _).mem_iff

/-- Neither the order of the slots nor the chains without blocks count. -/
theorem nests_canonical_iff {l : BlockLayer β} : l.canonical.Nests depth n ↔ l.Nests depth n := by
  have sorted : l.canonical.fields.Perm l.fields := List.mergeSort_perm _ _
  have fields : l.canonical.fields ≠ [] ↔ l.fields ≠ [] := by
    rw [← List.length_pos_iff, sorted.length_eq, List.length_pos_iff]
  have statements : (∀ s ∈ l.canonical.statements, ∀ b ∈ s.blocks, depth b + 4 ≤ n) ↔
      ∀ s ∈ l.statements, ∀ b ∈ s.blocks, depth b + 4 ≤ n := by
    simp only [canonical, mem_sortByName, List.mem_filter]
    refine forall_congr' fun s => ⟨fun h hs b hb => h ⟨hs, ?_⟩ b hb, fun h hs => h hs.1⟩
    simpa using List.ne_nil_of_mem hb
  have values : (∀ s ∈ l.canonical.values, depth s.block + 3 ≤ n) ↔
      ∀ s ∈ l.values, depth s.block + 3 ≤ n := by
    simp only [canonical, mem_sortByName]
  constructor
  · exact fun h => ⟨h.object, h.mutation, h.comment, fun given => h.fields (fields.2 given),
      values.1 h.values, statements.1 h.statements⟩
  · exact fun h => ⟨h.object, h.mutation, h.comment, fun given => h.fields (fields.1 given),
      values.2 h.values, statements.2 h.statements⟩

/-- Chains that have blocks leave room for their lists. -/
theorem Nests.chains {l : BlockLayer β} (h : l.Nests depth n)
    (full : ∀ s ∈ l.statements, s.blocks ≠ []) (given : l.statements ≠ []) : 4 ≤ n := by
  obtain ⟨s, hs⟩ := List.exists_mem_of_ne_nil _ given
  obtain ⟨b, hb⟩ := List.exists_mem_of_ne_nil _ (full s hs)
  have room := h.statements s hs b hb
  omega

end BlockLayer

theorem Block.span_le_iff {l : BlockLayer Block} {n : Nat} :
    (mk l).span ≤ n ↔ l.Nests span n := by
  have same : (l.map canonical).canonical.Nests (·.toJson.depth) n ↔ l.Nests span n := by
    rw [BlockLayer.nests_canonical_iff, BlockLayer.nests_map_iff]
    rfl
  rw [span, canonical_mk, depth_toJson_le_iff, same]
  refine and_iff_left_of_imp fun h => ⟨(same.2 h).chains fun s hs => ?_, absurd rfl⟩
  rw [BlockLayer.canonical, BlockLayer.mem_sortByName, List.mem_filter] at hs
  simpa using hs.2

theorem Block.one_le_span (b : Block) : 1 ≤ b.span := by
  obtain ⟨l⟩ := b
  exact (span_le_iff.1 (Nat.le_refl _)).object

/-! ## Reading -/

section Reading

variable {j : Json}

/-- Arrays and objects are at least one deep. -/
theorem one_le_depth_of_readRecord {σ : Type} {l : Layout} {start t : σ}
    {field : σ → String → (v : Json) → v ∈ j.children → Shaped σ}
    (read : readRecord l start j field = .ok t) : 1 ≤ j.depth := by
  rcases isRecord_of_readRecord read with ⟨members, rfl⟩ | ⟨items, rfl⟩
  · exact ((depth_obj_le_iff 0).1 (Nat.le_refl _)).1
  · exact ((depth_arr_le_iff 0).1 (Nat.le_refl _)).1

/-- The items of a list nest less deep than the list. -/
theorem exists_depth_of_readList {as : List α} {read : (v : Json) → v ∈ j.children → Shaped α}
    (h : readList j read = .ok as) {P : α → Nat → Prop}
    (each : ∀ v mem a, read v mem = .ok a → P a v.depth) :
    ∀ a ∈ as, ∃ n, n + 1 ≤ j.depth ∧ P a n := by
  obtain ⟨items, -, all⟩ := exists_items_of_readList h
  intro a ha
  obtain ⟨v, mem, given⟩ := all a ha
  exact ⟨v.depth, depth_lt_of_mem_children mem, each v mem a given⟩

theorem ValueSlot.span_le_of_ofJson {s : ValueSlot Block}
    {readBlock : (b : Json) → b ∈ j.children → Shaped Block}
    (inside : ∀ v mem b, readBlock v mem = .ok b → b.span ≤ v.depth)
    (read : ofJson j readBlock = .ok s) : s.block.span + 1 ≤ j.depth := by
  have block {v : Json} {mem : v ∈ j.children} {b : Block} (h : readBlock v mem = .ok b) :
      b.span + 1 ≤ j.depth :=
    Nat.le_trans (Nat.add_le_add_right (inside v mem b h) 1) (depth_lt_of_mem_children mem)
  -- A block must be given, so that there is room for the default one.
  obtain ⟨_, v, mem, _, given⟩ :=
    exists_field_of_required (show ("block", true) ∈ Layouts.value.fields by decide) read
  obtain ⟨b, given, -⟩ := Except.bind_eq_ok_iff.1 given
  have room := block given
  have some := b.one_le_span
  refine readRecord_induction (P := fun s => s.block.span + 1 ≤ j.depth) ?_ ?_ read
  · intro s name v mem s' hs h
    split at h
    · obtain ⟨_, -, e⟩ := Except.bind_eq_ok_iff.1 h
      cases e
      exact hs
    · obtain ⟨b, given, e⟩ := Except.bind_eq_ok_iff.1 h
      cases e
      exact block given
    · cases h
      exact hs
  · have least : (Block.mk {}).span ≤ 1 :=
      Block.span_le_iff.2 ⟨Nat.le_refl 1, by simp [SortedMap.isEmpty], by simp, by simp, by simp, by simp⟩
    show (Block.mk {}).span + 1 ≤ j.depth
    omega

theorem StatementSlot.span_le_of_ofJson {s : StatementSlot Block}
    {readBlocks : (bs : Json) → bs ∈ j.children → Shaped (List Block)}
    (inside : ∀ v mem bs, readBlocks v mem = .ok bs → ∀ b ∈ bs, b.span + 1 ≤ v.depth)
    (read : ofJson j readBlocks = .ok s) : ∀ b ∈ s.blocks, b.span + 2 ≤ j.depth := by
  refine readRecord_induction (P := fun s => ∀ b ∈ s.blocks, b.span + 2 ≤ j.depth) ?_
    (fun b hb => by cases hb) read
  intro s name v mem s' hs h
  split at h
  · obtain ⟨_, -, e⟩ := Except.bind_eq_ok_iff.1 h
    cases e
    exact hs
  · obtain ⟨bs, given, e⟩ := Except.bind_eq_ok_iff.1 h
    cases e
    intro b hb
    have room := inside v mem bs given b hb
    have below := depth_lt_of_mem_children mem
    omega
  · cases h
    exact hs

theorem one_le_depth_of_readTextMap {m : SortedMap String String} (read : readTextMap j = .ok m) :
    1 ≤ j.depth := by
  cases j with
  | obj members => exact ((depth_obj_le_iff 0).1 (Nat.le_refl _)).1
  | _ => cases read

theorem one_le_depth_of_readComment {c : Option Comment}
    (read : readOptional Comment.ofJson j = .ok c) (some : c.isSome = true) : 1 ≤ j.depth := by
  unfold readOptional at read
  split at read
  · cases read
    cases some
  · obtain ⟨c, read, -⟩ := Except.map_eq_ok_iff.1 read
    exact one_le_depth_of_readRecord read

theorem two_le_depth_of_readFields {fields : List FieldSlot}
    (read : readList j (fun f _ => FieldSlot.ofJson f) = .ok fields) (some : fields ≠ []) :
    2 ≤ j.depth := by
  obtain ⟨f, hf⟩ := List.exists_mem_of_ne_nil _ some
  obtain ⟨n, below, object⟩ := exists_depth_of_readList read (P := fun _ n => 1 ≤ n)
    (fun v mem f h => one_le_depth_of_readRecord h) f hf
  omega

/-- The fields of a block without blocks inside. -/
theorem BlockLayer.nests_setField {l l' : BlockLayer Block} {name : String} {v : Json}
    {n : Nat} (below : v.depth + 1 ≤ n) (h : l.Nests Block.span n)
    (set : l.setField name v = .ok l') : l'.Nests Block.span n := by
  unfold setField at set
  dsimp only at set
  split at set
  case h_10 =>
    obtain ⟨m, given, e⟩ := Except.bind_eq_ok_iff.1 set
    cases e
    have object := one_le_depth_of_readTextMap given
    exact { h with mutation := fun _ => by omega }
  case h_11 =>
    obtain ⟨c, given, e⟩ := Except.bind_eq_ok_iff.1 set
    cases e
    refine { h with comment := fun some => ?_ }
    have object := one_le_depth_of_readComment given some
    omega
  case h_12 =>
    obtain ⟨fs, given, e⟩ := Except.bind_eq_ok_iff.1 set
    cases e
    refine { h with fields := fun some => ?_ }
    have object := two_le_depth_of_readFields given some
    omega
  case h_14 =>
    cases set
    exact h
  all_goals
    obtain ⟨_, -, e⟩ := Except.bind_eq_ok_iff.1 set
    cases e
    exact { h with }

/-- The canonical form of a block nests no deeper than the value the block was read from. -/
theorem Block.span_le_of_ofJson {b : Block} (read : ofJson j = .ok b) : b.span ≤ j.depth := by
  induction size : sizeOf j using Nat.strong_induction_on generalizing j b with
  | h size ih =>
    have inside {v w : Json} (hv : v ∈ j.children) (hw : sizeOf w < sizeOf v) {b : Block}
        (h : ofJson w = .ok b) : b.span ≤ w.depth :=
      ih (sizeOf w) (by have := Json.sizeOf_lt_of_mem_children hv; omega) h rfl
    rw [ofJson] at read
    obtain ⟨l, fields, e⟩ := Except.bind_eq_ok_iff.1 read
    cases e
    have object := one_le_depth_of_readRecord fields
    refine span_le_iff.2 (readRecord_induction (P := (·.Nests span j.depth)) ?_ ?_ fields)
    · intro l name v mem l' hl set
      have below := depth_lt_of_mem_children mem
      split at set
      · obtain ⟨values, given, e⟩ := Except.bind_eq_ok_iff.1 set
        cases e
        refine { hl with values := fun s hs => ?_ }
        obtain ⟨n, slot, room⟩ := exists_depth_of_readList given
          (P := fun s n => s.block.span + 1 ≤ n) (fun w hw s h => by
            refine ValueSlot.span_le_of_ofJson (fun u hu b h => inside mem ?_ h) h
            have := Json.sizeOf_lt_of_mem_children hw
            have := Json.sizeOf_lt_of_mem_children hu
            omega) s hs
        omega
      · obtain ⟨statements, given, e⟩ := Except.bind_eq_ok_iff.1 set
        cases e
        refine { hl with statements := fun s hs b hb => ?_ }
        obtain ⟨n, slot, room⟩ := exists_depth_of_readList given
          (P := fun s n => ∀ b ∈ s.blocks, b.span + 2 ≤ n) (fun w hw s h => by
            refine StatementSlot.span_le_of_ofJson (fun u hu bs h b hb => ?_) h
            obtain ⟨n, chain, room⟩ := exists_depth_of_readList h (P := fun b n => b.span ≤ n)
              (fun t ht b h => by
                refine inside mem ?_ h
                have := Json.sizeOf_lt_of_mem_children hw
                have := Json.sizeOf_lt_of_mem_children hu
                have := Json.sizeOf_lt_of_mem_children ht
                omega) b hb
            omega) s hs
        have := room b hb
        omega
      · exact BlockLayer.nests_setField below hl set
    · exact ⟨object, by simp [SortedMap.isEmpty], by simp, by simp, by simp, by simp⟩

theorem Chain.span_le_of_ofJson {c : Chain} (read : ofJson j = .ok c) :
    ∀ b ∈ c.blocks, b.span + 2 ≤ j.depth := by
  refine readRecord_induction (P := fun c => ∀ b ∈ c.blocks, b.span + 2 ≤ j.depth) ?_
    (fun b hb => by cases hb) read
  intro c name v mem c' hc h
  split at h
  case h_3 =>
    obtain ⟨bs, given, e⟩ := Except.bind_eq_ok_iff.1 h
    cases e
    intro b hb
    obtain ⟨n, list, room⟩ := exists_depth_of_readList given (P := fun b n => b.span ≤ n)
      (fun _ _ b h => b.span_le_of_ofJson h) b hb
    have below := depth_lt_of_mem_children mem
    omega
  case h_4 =>
    cases h
    exact hc
  all_goals
    obtain ⟨_, -, e⟩ := Except.bind_eq_ok_iff.1 h
    cases e
    exact hc

/-- The canonical forms of the blocks of a document nest no deeper than the value the document was
read from. -/
theorem Document.span_le_of_ofJson {d : Document} (read : ofJson j = .ok d) :
    ∀ c ∈ d.instances, ∀ b ∈ c.blocks, b.span + 4 ≤ j.depth := by
  refine readRecord_induction
    (P := fun d => ∀ c ∈ d.instances, ∀ b ∈ c.blocks, b.span + 4 ≤ j.depth) ?_
    (fun c hc => by cases hc) read
  intro d name v mem d' hd h
  split at h
  case h_4 =>
    obtain ⟨cs, given, e⟩ := Except.bind_eq_ok_iff.1 h
    cases e
    intro c hc b hb
    obtain ⟨n, list, room⟩ := exists_depth_of_readList given
      (P := fun c n => ∀ b ∈ c.blocks, b.span + 2 ≤ n) (fun _ _ c h => c.span_le_of_ofJson h) c hc
    have := room b hb
    have below := depth_lt_of_mem_children mem
    omega
  case h_5 =>
    cases h
    exact hd
  all_goals
    obtain ⟨_, -, e⟩ := Except.bind_eq_ok_iff.1 h
    cases e
    exact hd

theorem Document.exists_ofJson_of_read {text : String} {d : Document}
    (h : read text = .ok d) : ∃ j, Json.read text = .ok j ∧ ofJson j = .ok d := by
  unfold read at h
  split at h
  · cases h
  · cases h
  · next j text =>
    obtain ⟨_, -, h⟩ := Except.bind_eq_ok_iff.1 h
    split at h
    · next shape =>
      cases h
      exact ⟨j, text, shape⟩
    · cases h

end Reading

/-! ## Writing documents -/

/-- The lists of a document and of its chains are written always. -/
theorem Document.depth_toJson_le {d : Document} {n : Nat} (room : 4 ≤ n)
    (blocks : ∀ c ∈ d.instances, ∀ b ∈ c.blocks, b.toJson.depth + 4 ≤ n) : d.toJson.depth ≤ n := by
  refine (depth_obj_le_iff 0).2 ⟨by omega, ?_⟩
  have tags : d.tags ≠ [] → (Json.arr (d.tags.map Json.str)).depth + 1 ≤ n := fun _ =>
    (depth_arr_le_iff 1).2 ⟨by omega, by simp; omega⟩
  have chains : (Json.arr (d.instances.map Chain.toJson)).depth + 1 ≤ n := by
    refine (depth_arr_le_iff 1).2 ⟨by omega, List.forall_mem_map.2 fun c hc => ?_⟩
    refine (depth_obj_le_iff 2).2 ⟨by omega, ?_⟩
    simp only [List.forall_mem_cons, List.not_mem_nil, false_imp_iff, implies_true, and_true,
      depth_int, depth_arr_le_iff, List.forall_mem_map]
    exact ⟨by omega, by omega, room, blocks c hc⟩
  simp only [List.forall_mem_append, List.forall_mem_cons, List.not_mem_nil, false_imp_iff,
    implies_true, and_true, depth_str, forall_mem_unlessDefault, forall_mem_unlessEmpty]
  exact ⟨⟨⟨by omega, fun _ => by omega⟩, tags⟩, chains⟩

end BlockGraph

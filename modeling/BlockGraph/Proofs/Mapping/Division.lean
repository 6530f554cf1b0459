import BlockGraph.Proofs.Mapping.Slots
import Mathlib.Data.List.Perm.Basic

/-!
# The division of slots

The rows of a table divide the slots of a block among each other: nothing is lost, invented or
renamed (`Slots.Shares`), and chains without blocks make a difference only to how many members a
family of numbered chains has (`Portion.Compact`).

* `divide`: the portions of a block's rows.
* `Slots.shares_of_takeAll`: together the portions have all slots.
-/

namespace BlockGraph

namespace Mapping

variable {α β : Type}

/-! ## Nothing is lost -/

/-- The texts in a portion, under the names of their slots. -/
def Portion.fields : Portion α → List (String × String)
  | literal slot text => [(slot, text)]
  | _ => []

/-- The single blocks in a portion. -/
def Portion.values : Portion α → List (String × α)
  | value slot block => block.toList.map (slot, ·)
  | repeatedValue members => members.filterMap fun e => e.2.map (e.1, ·)
  | _ => []

/-- The chains with blocks in a portion. -/
def Portion.statements : Portion α → List (String × List α)
  | statement slot blocks | optionalStatement slot blocks =>
    [(slot, blocks)].filter (!·.2.isEmpty)
  | repeatedStatement members => members.filter (!·.2.isEmpty)
  | _ => []

/-- The slots without the chains that have no blocks. -/
def Slots.prune (s : Slots α) : Slots α :=
  { s with statements := s.statements.filterValues (!·.isEmpty) }

/-- The slots of `s` are those of the portions and those of `left`, up to chains without blocks. -/
structure Slots.Shares (s : Slots α) (portions : List (Portion α)) (left : Slots α) : Prop where
  fields : s.fields.entries.Perm (portions.flatMap Portion.fields ++ left.fields.entries)
  values : s.values.entries.Perm (portions.flatMap Portion.values ++ left.values.entries)
  statements : s.prune.statements.entries.Perm
    (portions.flatMap Portion.statements ++ left.prune.statements.entries)

namespace Slots

theorem Shares.trans {s t u : Slots α} {ps qs : List (Portion α)} (h : s.Shares ps t)
    (h' : t.Shares qs u) : s.Shares (ps ++ qs) u := by
  constructor <;> rw [List.flatMap_append, List.append_assoc]
  · exact h.fields.trans (h'.fields.append_left _)
  · exact h.values.trans (h'.values.append_left _)
  · exact h.statements.trans (h'.statements.append_left _)

theorem entries_erase_getD (m : SortedMap String α) (name : String) :
    m.entries.Perm ((m.get? name).toList.map (name, ·) ++ (m.erase name).entries) := by
  cases h : m.get? name with
  | none => rw [SortedMap.erase_of_get?_eq_none h]; exact .rfl
  | some v => exact SortedMap.entries_erase_perm h

/-- What a chain slot holds, if it has blocks. -/
theorem statement_entries (m : SortedMap String (List α)) (name : String) :
    (m.filterValues (!·.isEmpty)).entries.Perm
      ([(name, (m.get? name).getD [])].filter (!·.2.isEmpty) ++
        ((m.erase name).filterValues (!·.isEmpty)).entries) := by
  rw [← SortedMap.erase_filterValues]
  refine (entries_erase_getD _ name).trans (.append_right _ (.of_eq ?_))
  rw [SortedMap.get?_filterValues]
  rcases m.get? name with _ | (_ | ⟨_, _⟩) <;> rfl

/-- The members of a family of which each may be absent. -/
theorem filterMap_members {found : SortedMap Nat α} {count : Nat} (family : String)
    (below : ∀ i ∈ found.keys, i < count) :
    (((List.range count).map fun i => (family ++ toString i, found.get? i)).filterMap
      fun e => e.2.map (e.1, ·)) = found.entries.map (member family) := by
  rw [← filterMap_range_get? below, List.filterMap_map, List.map_filterMap]
  simp only [Function.comp_def, Option.map_map, member]

theorem filter_members {found : SortedMap Nat (List α)} {count : Nat} (family : String)
    (below : ∀ i ∈ found.keys, i < count) :
    ((List.range count).map fun i => (family ++ toString i, (found.get? i).getD [])).filter
      (!·.2.isEmpty) = (found.entries.map (member family)).filter (!·.2.isEmpty) := by
  rw [← filterMap_range_get? below, List.map_filterMap]
  induction List.range count with
  | nil => rfl
  | cons i is ih =>
    rw [List.map_cons, List.filterMap_cons]
    rcases h : found.get? i with _ | (_ | ⟨b, bs⟩) <;>
      simp only [Option.map_none, Option.map_some, Option.getD_none, Option.getD_some, member,
        List.filter_cons, List.isEmpty_nil, List.isEmpty_cons, Bool.not_true, Bool.not_false,
        Bool.false_eq_true, if_true, if_false, ih]

/-- What is left after a row, and what it takes. -/
theorem shares_of_take {blockId : String} {declared : Option Nat} {s s' : Slots α}
    {spec : FieldSpec} {portion : Portion α}
    (h : s.take blockId declared spec = .ok (portion, s')) : s.Shares [portion] s' := by
  cases take_eq_ok_iff.1 h with
  | @literal name internal text present =>
    exact ⟨SortedMap.entries_erase_perm present, .rfl, .rfl⟩
  | @value name =>
    refine ⟨.rfl, ?_, .rfl⟩
    simpa [Portion.values] using entries_erase_getD s.values name
  | @statement name | @optionalStatement name =>
    refine ⟨.rfl, .rfl, ?_⟩
    simpa [Portion.statements, prune] using statement_entries s.statements name
  | @repeatedValue name internal found rest count split counts =>
    refine ⟨.rfl, ?_, .rfl⟩
    simp only [List.flatMap_singleton, Portion.values, filterMap_members name counts.below]
    rw [split.others]
    exact (SortedMap.entries_filterKeys_perm _ _).trans (split.members.append_right _)
  | @repeatedStatement name internal found rest count split counts =>
    refine ⟨.rfl, .rfl, ?_⟩
    simp only [List.flatMap_singleton, Portion.statements, filter_members name counts.below]
    rw [split.others]
    have all := (SortedMap.entries_filterKeys_perm (isNumbered name) s.statements).trans
      (split.members.append_right _)
    have kept := all.filter (!·.2.isEmpty)
    rwa [List.filter_append] at kept

/-- Together the portions and what is left have all slots. -/
theorem shares_of_takeAll {blockId : String} {declared : Option Nat} {s left : Slots α}
    {specs : List FieldSpec} {portions : List (Portion α)}
    (h : s.takeAll blockId declared specs = .ok (portions, left)) : s.Shares portions left := by
  induction specs generalizing s portions with
  | nil =>
    cases h
    exact ⟨.rfl, .rfl, .rfl⟩
  | cons spec specs ih =>
    obtain ⟨portion, s', others, first, rest, rfl⟩ := takeAll_cons_eq_ok_iff.1 h
    exact (shares_of_take first).trans (ih rest)

end Slots

/-! ## Blocks in slots -/

/-- The blocks in a portion. -/
def Portion.blocks (p : Portion α) : List α :=
  p.values.map (·.2) ++ p.statements.flatMap (·.2)

@[simp] theorem Portion.blocks_literal (slot text : String) :
    (literal slot text : Portion α).blocks = [] := rfl

@[simp] theorem Portion.blocks_value (slot : String) (block : Option α) :
    (value slot block).blocks = block.toList := by
  cases block <;> rfl

@[simp] theorem Portion.blocks_statement (slot : String) (blocks : List α) :
    (statement slot blocks).blocks = blocks := by
  cases blocks <;> simp [Portion.blocks, values, statements]

@[simp] theorem Portion.blocks_optionalStatement (slot : String) (blocks : List α) :
    (optionalStatement slot blocks).blocks = blocks := by
  cases blocks <;> simp [Portion.blocks, values, statements]

@[simp] theorem Portion.blocks_repeatedValue (members : List (String × Option α)) :
    (repeatedValue members).blocks = members.filterMap (·.2) := by
  simp [Portion.blocks, values, statements, List.map_filterMap, Function.comp_def]

@[simp] theorem Portion.blocks_repeatedStatement (members : List (String × List α)) :
    (repeatedStatement members).blocks = members.flatMap (·.2) := by
  simp only [Portion.blocks, values, statements, List.map_nil, List.nil_append]
  induction members with
  | nil => rfl
  | cons e members ih =>
    obtain ⟨name, _ | ⟨b, blocks⟩⟩ := e <;> simp [ih]

/-- All blocks in slots have the property `P`. -/
structure Slots.Hold (P : α → Prop) (s : Slots α) : Prop where
  values : ∀ e ∈ s.values.entries, P e.2
  statements : ∀ e ∈ s.statements.entries, ∀ b ∈ e.2, P b

theorem mem_prune {s : Slots α} {e : String × List α} {b : α} (mem : b ∈ e.2) :
    e ∈ s.prune.statements.entries ↔ e ∈ s.statements.entries := by
  have some : (!e.2.isEmpty) = true := by
    rw [Bool.not_eq_true', List.isEmpty_eq_false_iff]
    exact List.ne_nil_of_mem mem
  exact List.mem_filter.trans (and_iff_left some)

theorem Slots.Shares.hold {P : α → Prop} {s left : Slots α} {portions : List (Portion α)}
    (h : s.Shares portions left) (all : s.Hold P) :
    (∀ p ∈ portions, ∀ b ∈ p.blocks, P b) ∧ left.Hold P := by
  refine ⟨fun p hp b hb => ?_, fun e he => ?_, fun e he b hb => ?_⟩
  · rcases List.mem_append.1 hb with hb | hb
    · obtain ⟨e, he, rfl⟩ := List.mem_map.1 hb
      exact all.values e (h.values.mem_iff.2
        (List.mem_append_left _ (List.mem_flatMap.2 ⟨p, hp, he⟩)))
    · obtain ⟨e, he, hb⟩ := List.mem_flatMap.1 hb
      exact all.statements e ((mem_prune hb).1 (h.statements.mem_iff.2
        (List.mem_append_left _ (List.mem_flatMap.2 ⟨p, hp, he⟩)))) b hb
  · exact all.values e (h.values.mem_iff.2 (List.mem_append_right _ he))
  · exact all.statements e ((mem_prune hb).1 (h.statements.mem_iff.2
      (List.mem_append_right _ ((mem_prune hb).2 he)))) b hb

/-- The blocks in slots: single ones, then those of chains. -/
def Slots.blocks (s : Slots α) : List α :=
  s.values.entries.map (·.2) ++ s.statements.entries.flatMap (·.2)

/-- Together the portions and what is left have all blocks. -/
theorem Slots.Shares.perm_blocks {s left : Slots α} {portions : List (Portion α)}
    (h : s.Shares portions left) :
    s.blocks.Perm (portions.flatMap Portion.blocks ++ left.blocks) := by
  have full (t : Slots α) :
      t.prune.statements.entries.flatMap (·.2) = t.statements.entries.flatMap (·.2) := by
    change (t.statements.entries.filter (!·.2.isEmpty)).flatMap (·.2) = _
    induction t.statements.entries with
    | nil => rfl
    | cons e entries ih => cases blocks : e.2 <;> simp [blocks, ih]
  have single := h.values.map (·.2)
  have chains := h.statements.flatMap_right (·.2)
  rw [full, List.flatMap_append, full, List.flatMap_assoc] at chains
  rw [List.map_append, List.map_flatMap] at single
  have parts := List.flatMap_append_perm portions (fun p => p.values.map (·.2))
    fun p => p.statements.flatMap (·.2)
  refine (single.append chains).trans ?_
  rw [List.append_assoc]
  refine ((List.perm_append_comm_assoc _ _ _).append_left _).trans ?_
  rw [← List.append_assoc]
  exact parts.append_right _

theorem Slots.ofLayer_eq_ok_iff {l : BlockLayer α} {s : Slots α} :
    Slots.ofLayer l = .ok s ↔
      ((l.fields.map (·.name)).Nodup ∧
        s.fields.entries.Perm (l.fields.map fun f => (f.name, f.value))) ∧
      ((l.values.map (·.name)).Nodup ∧
        s.values.entries.Perm (l.values.map fun v => (v.name, v.block))) ∧
      ((l.statements.map (·.name)).Nodup ∧
        s.statements.entries.Perm (l.statements.map fun c => (c.name, c.blocks))) := by
  simp only [ofLayer, Except.bind_eq_ok_iff, indexed_eq_ok_iff, Except.pure_eq_ok_iff,
    List.map_map, Function.comp_def]
  refine ⟨fun h => ?_, fun h => ?_⟩
  · obtain ⟨fields, hf, values, hv, statements, hs, rfl⟩ := h
    exact ⟨hf, hv, hs⟩
  · obtain ⟨hf, hv, hs⟩ := h
    exact ⟨s.fields, hf, s.values, hv, s.statements, hs, rfl⟩

theorem Slots.hold_of_ofLayer {P : α → Prop} {l : BlockLayer α} {s : Slots α}
    (h : Slots.ofLayer l = .ok s) (all : ∀ b ∈ l.children, P b) : s.Hold P := by
  obtain ⟨-, ⟨-, values⟩, -, statements⟩ := ofLayer_eq_ok_iff.1 h
  refine ⟨fun e he => ?_, fun e he b hb => ?_⟩
  · obtain ⟨slot, hs, rfl⟩ := List.mem_map.1 (values.mem_iff.1 he)
    exact all _ (List.mem_append_left _ (List.mem_map_of_mem hs))
  · obtain ⟨slot, hs, rfl⟩ := List.mem_map.1 (statements.mem_iff.1 he)
    exact all _ (List.mem_append_right _ (List.mem_flatMap.2 ⟨slot, hs, hb⟩))

theorem Slots.perm_blocks_ofLayer {l : BlockLayer α} {s : Slots α} (h : Slots.ofLayer l = .ok s) :
    s.blocks.Perm l.children := by
  obtain ⟨-, ⟨-, values⟩, -, statements⟩ := ofLayer_eq_ok_iff.1 h
  have single := values.map (·.2)
  have chains := statements.flatMap_right (·.2)
  rw [List.map_map] at single
  rw [List.flatMap_map] at chains
  exact single.append chains

/-! ## Chains without blocks -/

/-- How many members a family has. -/
def Portion.size : Portion α → Nat
  | repeatedValue members => members.length
  | repeatedStatement members => members.length
  | _ => 0

/-- A family of chains keeps its number of members if the empty ones, marked by `true`, are left
out: not too many are absent then, and the last one is there unless the number is declared. -/
def Dense (isDeclared : Prop) (empty : List Bool) : Prop :=
  empty.count true ≤ maxAbsent ∧ (isDeclared ∨ empty.getLast? ≠ some true)

/-- Whether a portion stays what it is if empty chains are left out. -/
def Portion.Compact (isDeclared : Prop) : Portion α → Prop
  | repeatedStatement members => Dense isDeclared (members.map (·.2.isEmpty))
  | _ => True

theorem getD_filterValues {κ : Type} [Ord κ] [Std.LawfulEqOrd κ] (m : SortedMap κ (List α))
    (k : κ) : ((m.filterValues (!·.isEmpty)).get? k).getD [] = (m.get? k).getD [] := by
  rw [SortedMap.get?_filterValues]
  rcases m.get? k with _ | (_ | ⟨_, _⟩) <;> rfl

theorem isNone_filterValues {κ : Type} [Ord κ] [Std.LawfulEqOrd κ] (m : SortedMap κ (List α))
    (k : κ) : ((m.filterValues (!·.isEmpty)).get? k).isNone = ((m.get? k).getD []).isEmpty := by
  rw [SortedMap.get?_filterValues]
  rcases m.get? k with _ | (_ | ⟨_, _⟩) <;> rfl

theorem Split.filterValues {family : String} {slots rest : SortedMap String α}
    {found : SortedMap Nat α} (p : α → Bool) (h : Split family slots found rest) :
    Split family (slots.filterValues p) (found.filterValues p) (rest.filterValues p) where
  members := by
    rw [SortedMap.filterKeys_filterValues]
    have kept := h.members.filter fun e => p e.2
    rwa [List.filter_map] at kept
  bounded i hi := by
    obtain ⟨e, he, rfl⟩ := List.mem_map.1 hi
    exact h.bounded _ (List.mem_map_of_mem (List.mem_filter.1 he).1)
  others := by rw [h.others, SortedMap.filterKeys_filterValues]

/-- Whether a count is still accepted after the chains without blocks are left out. -/
theorem counts_filterValues_iff {declared : Option Nat} {found : SortedMap Nat (List α)}
    {count : Nat} (family : String) (h : Counts declared found count) :
    Counts declared (found.filterValues (!·.isEmpty)) count ↔
      (Portion.repeatedStatement ((List.range count).map fun i =>
        (family ++ toString i, (found.get? i).getD []))).Compact (declared.isSome = true) := by
  have below : ∀ i ∈ (found.filterValues (!·.isEmpty)).keys, i < count := fun i hi => by
    obtain ⟨e, he, rfl⟩ := List.mem_map.1 hi
    exact h.below _ (List.mem_map_of_mem (List.mem_filter.1 he).1)
  have absent : ((List.range count).map fun i => ((found.get? i).getD []).isEmpty).count true =
      count - (found.filterValues (!·.isEmpty)).size := by
    rw [← countP_absent below, List.count_eq_countP, List.countP_map]
    simp only [isNone_filterValues, Function.comp_def, beq_true]
  have last : count = 0 ∨ count - 1 ∈ (found.filterValues (!·.isEmpty)).keys ↔
      ((List.range count).map fun i => ((found.get? i).getD []).isEmpty).getLast? ≠ some true := by
    cases count with
    | zero => simp
    | succ k =>
      rw [Nat.add_sub_cancel, ← SortedMap.contains_iff, SortedMap.contains, ← Option.not_isNone,
        isNone_filterValues, List.range_succ, List.map_append, List.map_singleton,
        List.getLast?_concat]
      simp
  rw [Portion.Compact, Dense, List.map_map]
  simp only [Function.comp_def]
  rw [absent, ← last]
  refine ⟨fun h => ?_, fun h => ?_⟩
  · obtain ⟨-, few, source⟩ := h
    refine ⟨by omega, ?_⟩
    cases declared with
    | none => exact .inr source.2
    | some n => exact .inl rfl
  · obtain ⟨few, source⟩ := h
    refine ⟨below, by omega, ?_⟩
    have before := h.source
    cases declared with
    | none => exact ⟨before.1, source.resolve_left (by simp)⟩
    | some n => exact before

theorem Slots.prune_erase (s : Slots α) (name : String) :
    { s with statements := s.statements.erase name }.prune =
      { s.prune with statements := s.prune.statements.erase name } := by
  rw [prune, prune, SortedMap.erase_filterValues]

/-- A row of the slots without empty chains takes a portion of the same size only if it takes the
same, and that needs a compact portion. -/
theorem Slots.Takes.prune_iff {declared : Option Nat} {s s' t : Slots α} {spec : FieldSpec}
    {portion q : Portion α} (h : s.Takes declared spec portion s') :
    s.prune.Takes declared spec q t ∧ q.size = portion.size ↔
      q = portion ∧ t = s'.prune ∧ portion.Compact (declared.isSome = true) := by
  cases h with
  | literal present =>
    refine ⟨fun h => ?_, fun h => ?_⟩
    · obtain ⟨⟨present'⟩, -⟩ := h
      cases present.symm.trans present'
      exact ⟨rfl, rfl, trivial⟩
    · obtain ⟨rfl, rfl, -⟩ := h
      exact ⟨.literal present, rfl⟩
  | value =>
    refine ⟨fun h => ?_, fun h => ?_⟩
    · obtain ⟨⟨⟩, -⟩ := h
      exact ⟨rfl, rfl, trivial⟩
    · obtain ⟨rfl, rfl, -⟩ := h
      exact ⟨.value, rfl⟩
  | @statement name =>
    refine ⟨fun h => ?_, fun h => ?_⟩
    · obtain ⟨⟨⟩, -⟩ := h
      exact ⟨congrArg _ (getD_filterValues _ _), (prune_erase s name).symm, trivial⟩
    · obtain ⟨rfl, rfl, -⟩ := h
      rw [← getD_filterValues, prune_erase]
      exact ⟨.statement, rfl⟩
  | @optionalStatement name =>
    refine ⟨fun h => ?_, fun h => ?_⟩
    · obtain ⟨⟨⟩, -⟩ := h
      exact ⟨congrArg _ (getD_filterValues _ _), (prune_erase s name).symm, trivial⟩
    · obtain ⟨rfl, rfl, -⟩ := h
      rw [← getD_filterValues, prune_erase]
      exact ⟨.optionalStatement, rfl⟩
  | @repeatedValue name internal found rest count split counts =>
    refine ⟨fun h => ?_, fun h => ?_⟩
    · obtain ⟨taken, size⟩ := h
      cases taken with
      | repeatedValue split' _ =>
        obtain ⟨rfl, rfl⟩ := split.unique split'
        simp only [Portion.size, List.length_map, List.length_range] at size
        exact ⟨by rw [size], rfl, trivial⟩
    · obtain ⟨rfl, rfl, -⟩ := h
      exact ⟨.repeatedValue split counts, rfl⟩
  | @repeatedStatement name internal found rest count split counts =>
    have pruned := split.filterValues (!·.isEmpty)
    have compact := counts_filterValues_iff name counts
    refine ⟨fun h => ?_, fun h => ?_⟩
    · obtain ⟨taken, size⟩ := h
      cases taken with
      | repeatedStatement split' counts' =>
        obtain ⟨rfl, rfl⟩ := pruned.unique split'
        simp only [Portion.size, List.length_map, List.length_range] at size
        subst size
        simp only [getD_filterValues]
        exact ⟨trivial, rfl, compact.1 counts'⟩
    · obtain ⟨rfl, rfl, h⟩ := h
      have taken : s.prune.Takes declared ⟨name, internal, .repeatedStatement⟩ _ _ :=
        repeatedStatement pruned (compact.2 h)
      simp only [getD_filterValues] at taken
      exact ⟨taken, rfl⟩

/-- Reading again what was divided before, without the empty chains. -/
theorem Slots.takeAll_prune_iff {blockId : String} {declared : Option Nat} {s left t : Slots α}
    {specs : List FieldSpec} {portions qs : List (Portion α)}
    (h : s.takeAll blockId declared specs = .ok (portions, left)) :
    s.prune.takeAll blockId declared specs = .ok (qs, t) ∧
        qs.map Portion.size = portions.map Portion.size ↔
      qs = portions ∧ t = left.prune ∧ ∀ p ∈ portions, p.Compact (declared.isSome = true) := by
  induction specs generalizing s portions qs with
  | nil =>
    cases h
    refine ⟨fun h => ?_, fun h => ?_⟩
    · obtain ⟨e, -⟩ := h
      cases e
      exact ⟨rfl, rfl, by simp⟩
    · obtain ⟨rfl, rfl, -⟩ := h
      exact ⟨rfl, rfl⟩
  | cons spec specs ih =>
    obtain ⟨portion, s', others, first, rest, rfl⟩ := takeAll_cons_eq_ok_iff.1 h
    have row (q : Portion α) (t : Slots α) := (take_eq_ok_iff.1 first).prune_iff (q := q) (t := t)
    refine ⟨fun h => ?_, fun h => ?_⟩
    · obtain ⟨again, sizes⟩ := h
      obtain ⟨q, t', qs, first', rest', rfl⟩ := takeAll_cons_eq_ok_iff.1 again
      rw [List.map_cons, List.map_cons, List.cons.injEq] at sizes
      obtain ⟨rfl, rfl, compact⟩ := (row q t').1 ⟨take_eq_ok_iff.1 first', sizes.1⟩
      obtain ⟨rfl, rfl, all⟩ := (ih rest).1 ⟨rest', sizes.2⟩
      exact ⟨rfl, rfl, List.forall_mem_cons.2 ⟨compact, all⟩⟩
    · obtain ⟨rfl, rfl, all⟩ := h
      rw [List.forall_mem_cons] at all
      have first' := ((row portion s'.prune).2 ⟨rfl, rfl, all.1⟩).1
      have rest' := ((ih rest).2 ⟨rfl, rfl, all.2⟩).1
      exact ⟨takeAll_cons_eq_ok_iff.2 ⟨_, _, _, take_eq_ok_iff.2 first', rest', rfl⟩, rfl⟩

/-! ## Blocks -/

/-- The kind of a block and how the rows of its table divide its slots. Every slot is taken. -/
def divide (registry : KindRegistry) (l : BlockLayer α) :
    Except Error (Kind × List (Portion α)) := do
  let layout ← Layout.of registry l
  let (portions, left) ← layout.slots.takeAll l.id layout.declared layout.kind.fields
  if let some name := left.leftover? then throw (.malformed l.id (.unusedSlot name l.type))
  return (layout.kind, portions)

theorem Slots.leftover?_eq_none_iff {s : Slots α} : s.leftover? = none ↔ s = {} := by
  obtain ⟨⟨fields, _⟩, ⟨values, _⟩, ⟨statements, _⟩⟩ := s
  simp [leftover?, SortedMap.keys, SortedMap.empty]

theorem Layout.of_eq_ok_iff {registry : KindRegistry} {l : BlockLayer α} {layout : Layout α} :
    Layout.of registry l = .ok layout ↔ registry.lookup l.type = some layout.kind ∧
      Slots.ofLayer l = .ok layout.slots ∧
        declaredCount layout.kind l.id l.attributes.mutation = .ok layout.declared := by
  rw [Layout.of]
  cases registry.lookup l.type with
  | none => simp
  | some kind =>
    simp only [Except.bind_eq_ok_iff, Except.pure_eq_ok_iff, Option.some.injEq]
    constructor
    · rintro ⟨slots, h, declared, h', rfl⟩
      exact ⟨rfl, h, h'⟩
    · obtain ⟨kind', slots, declared⟩ := layout
      rintro ⟨rfl, h, h'⟩
      exact ⟨slots, h, declared, h', rfl⟩

/-- What it takes to divide a block. -/
theorem divide_eq_ok_iff {registry : KindRegistry} {l : BlockLayer α} {kind : Kind}
    {portions : List (Portion α)} :
    divide registry l = .ok (kind, portions) ↔ ∃ slots declared,
      registry.lookup l.type = some kind ∧ Slots.ofLayer l = .ok slots ∧
        declaredCount kind l.id l.attributes.mutation = .ok declared ∧
          slots.takeAll l.id declared kind.fields = .ok (portions, {}) := by
  simp only [divide, Except.bind_eq_ok_iff, Layout.of_eq_ok_iff]
  refine ⟨fun h => ?_, fun h => ?_⟩
  · obtain ⟨⟨kind, slots, declared⟩, known, ⟨portions, left⟩, taken, h⟩ := h
    cases unused : left.leftover? with
    | some name =>
      rw [unused] at h
      cases h
    | none =>
      rw [unused] at h
      cases h
      obtain rfl := Slots.leftover?_eq_none_iff.1 unused
      exact ⟨slots, declared, known.1, known.2.1, known.2.2, taken⟩
  · obtain ⟨slots, declared, known, named, count, taken⟩ := h
    exact ⟨⟨kind, slots, declared⟩, ⟨known, named, count⟩, (portions, {}), taken, rfl⟩

@[simp] theorem Slots.leftover?_map (f : α → β) (s : Slots α) :
    (s.map f).leftover? = s.leftover? := by
  simp [leftover?, map]

/-- Applies `f` to everything that the slots hold. -/
def Layout.map (f : α → β) (l : Layout α) : Layout β where
  kind := l.kind
  slots := l.slots.map f
  declared := l.declared

theorem Layout.of_map (f : α → β) (registry : KindRegistry) (l : BlockLayer α) :
    Layout.of registry (l.map f) = (Layout.of registry l).map (Layout.map f) := by
  rw [Layout.of, Slots.ofLayer_map, Layout.of]
  simp only [BlockLayer.map]
  cases registry.lookup l.type with
  | none => rfl
  | some kind =>
    rcases Slots.ofLayer l with _ | slots
    · rfl
    change (declaredCount kind l.id l.attributes.mutation >>= _) = Except.map _
      (declaredCount kind l.id l.attributes.mutation >>= _)
    rcases declaredCount kind l.id l.attributes.mutation with _ | declared <;> rfl

theorem divide_map (f : α → β) (registry : KindRegistry) (l : BlockLayer α) :
    divide registry (l.map f) =
      (divide registry l).map (Prod.map id (List.map (Portion.map f))) := by
  rw [divide, Layout.of_map, divide, Except.map_bind]
  rcases Layout.of registry l with _ | ⟨kind, slots, declared⟩
  · rfl
  change ((slots.map f).takeAll l.id declared kind.fields >>= _) = Except.map _
    (slots.takeAll l.id declared kind.fields >>= _)
  rw [Slots.takeAll_map]
  rcases slots.takeAll l.id declared kind.fields with _ | ⟨portions, left⟩
  · rfl
  simp only [Except.map, Prod.map, bind, Except.bind, Slots.leftover?_map]
  cases left.leftover? <;> rfl

theorem mem_children_of_divide {l : BlockLayer α} {registry : KindRegistry} {kind : Kind}
    {portions : List (Portion α)} (h : divide registry l = .ok (kind, portions))
    {p : Portion α} (hp : p ∈ portions) {b : α} (hb : b ∈ p.blocks) : b ∈ l.children := by
  obtain ⟨slots, declared, -, named, -, taken⟩ := divide_eq_ok_iff.1 h
  have all := Slots.hold_of_ofLayer (P := (· ∈ l.children)) named fun b hb => hb
  exact ((Slots.shares_of_takeAll taken).hold all).1 p hp b hb

end Mapping

end BlockGraph

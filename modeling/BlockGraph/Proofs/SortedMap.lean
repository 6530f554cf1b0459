import BlockGraph.SortedMap
import Mathlib.Data.List.Sort

/-!
# Lookup in sorted maps

A sorted map is determined by its lookup (`SortedMap.ext_get?`), so every operation is described by
what it does to the lookup, and by what it does to the entries up to order. `SortedMap.mapValues`
applies a function to all values.
-/

namespace BlockGraph.SortedMap

open scoped List

variable {κ α β : Type} [Ord κ]

/-! ## Images and restrictions -/

/-- Applies `f` to every value. -/
def mapValues (f : α → β) (m : SortedMap κ α) : SortedMap κ β :=
  ⟨m.entries.map fun e => (e.1, f e.2), m.ascending.map _ fun _ _ h => h⟩

@[simp] theorem keys_mapValues (f : α → β) (m : SortedMap κ α) : (m.mapValues f).keys = m.keys := by
  simp [keys, mapValues]

@[simp] theorem size_mapValues (f : α → β) (m : SortedMap κ α) : (m.mapValues f).size = m.size := by
  simp [size, mapValues]

@[simp] theorem filterKeys_mapValues (p : κ → Bool) (f : α → β) (m : SortedMap κ α) :
    (m.mapValues f).filterKeys p = (m.filterKeys p).mapValues f :=
  ext_entries (by simp [filterKeys, mapValues, List.filter_map, Function.comp_def])

theorem erase_eq_filterKeys (m : SortedMap κ α) (k : κ) :
    m.erase k = m.filterKeys fun k' => compare k k' != .eq := rfl

@[simp] theorem erase_mapValues (f : α → β) (m : SortedMap κ α) (k : κ) :
    (m.mapValues f).erase k = (m.erase k).mapValues f := by
  rw [erase_eq_filterKeys, filterKeys_mapValues, erase_eq_filterKeys]

/-- Keeps the entries whose value satisfies `p`. -/
def filterValues (p : α → Bool) (m : SortedMap κ α) : SortedMap κ α :=
  ⟨m.entries.filter fun e => p e.2, m.ascending.filter _⟩

theorem filterKeys_filterValues (q : κ → Bool) (p : α → Bool) (m : SortedMap κ α) :
    (m.filterValues p).filterKeys q = (m.filterKeys q).filterValues p :=
  ext_entries (by simp only [filterKeys, filterValues, List.filter_filter, Bool.and_comm])

theorem erase_filterValues (p : α → Bool) (m : SortedMap κ α) (k : κ) :
    (m.filterValues p).erase k = (m.erase k).filterValues p := by
  rw [erase_eq_filterKeys, filterKeys_filterValues, erase_eq_filterKeys]

/-- A restriction and its complement have all entries. -/
theorem entries_filterKeys_perm (p : κ → Bool) (m : SortedMap κ α) :
    m.entries.Perm ((m.filterKeys p).entries ++ (m.filterKeys (!p ·)).entries) :=
  (List.filter_append_perm (fun e : κ × α => p e.1) m.entries).symm

/-- A map without keys is empty. -/
theorem eq_empty_iff {m : SortedMap κ α} : m = empty ↔ ∀ k, k ∉ m.keys := by
  rw [← List.eq_nil_iff_forall_not_mem, keys, List.map_eq_nil_iff]
  exact ⟨fun h => h ▸ rfl, fun h => ext_entries h⟩

theorem keys_filterKeys (p : κ → Bool) (m : SortedMap κ α) :
    (m.filterKeys p).keys = m.keys.filter p := by
  rw [keys, filterKeys, keys, List.filter_map]
  rfl

theorem mem_keys_filterKeys {p : κ → Bool} {m : SortedMap κ α} {k : κ} :
    k ∈ (m.filterKeys p).keys ↔ k ∈ m.keys ∧ p k = true := by
  rw [keys_filterKeys, List.mem_filter]

theorem contains_eq_false_iff {m : SortedMap κ α} {k : κ} :
    m.contains k = false ↔ m.get? k = none := by
  rw [contains, Option.isSome_eq_false_iff, Option.isNone_iff_eq_none]

/-! ## Entries and lookup -/

variable [Std.LawfulEqOrd κ]

theorem keys_nodup (m : SortedMap κ α) : m.keys.Nodup := by
  refine m.keys_pairwise.imp fun {a b} h e => ?_
  subst e
  rw [Std.ReflOrd.compare_self] at h
  cases h

theorem entries_nodup (m : SortedMap κ α) : m.entries.Nodup := m.keys_nodup.of_map _

/-- A key has one entry. -/
theorem entry_unique {m : SortedMap κ α} {k : κ} {v w : α} (hv : (k, v) ∈ m.entries)
    (hw : (k, w) ∈ m.entries) : v = w := by
  have := List.inj_on_of_nodup_map m.keys_nodup hv hw rfl
  exact congrArg Prod.snd this

theorem get?_eq_some_iff {m : SortedMap κ α} {k : κ} {v : α} :
    m.get? k = some v ↔ (k, v) ∈ m.entries := by
  refine ⟨fun h => ?_, fun h => ?_⟩
  · obtain ⟨⟨k', w⟩, found, rfl⟩ := Option.map_eq_some_iff.1 h
    have key := List.find?_some found
    obtain rfl := Std.LawfulEqCmp.eq_of_compare (beq_iff_eq.1 key)
    exact List.mem_of_find?_eq_some found
  · have found : (m.entries.find? fun e => compare k e.1 == .eq).isSome :=
      List.find?_isSome.2 ⟨(k, v), h, by simp [Std.ReflOrd.compare_self]⟩
    obtain ⟨⟨k', w⟩, hw⟩ := Option.isSome_iff_exists.1 found
    have key := List.find?_some hw
    obtain rfl := Std.LawfulEqCmp.eq_of_compare (beq_iff_eq.1 key)
    rw [get?, hw, entry_unique h (List.mem_of_find?_eq_some hw)]
    rfl

theorem get?_eq_none_iff {m : SortedMap κ α} {k : κ} : m.get? k = none ↔ k ∉ m.keys := by
  constructor
  · intro h mem
    obtain ⟨⟨k', v⟩, he, rfl⟩ := List.mem_map.1 mem
    rw [get?_eq_some_iff.2 he] at h
    cases h
  · intro h
    rw [Option.eq_none_iff_forall_ne_some]
    intro v hv
    exact h (List.mem_map.2 ⟨(k, v), get?_eq_some_iff.1 hv, rfl⟩)

theorem contains_iff {m : SortedMap κ α} {k : κ} : m.contains k = true ↔ k ∈ m.keys := by
  rw [contains, Option.isSome_iff_ne_none, ne_eq, get?_eq_none_iff, not_not]

theorem get?_filterKeys (p : κ → Bool) (m : SortedMap κ α) (k : κ) :
    (m.filterKeys p).get? k = if p k then m.get? k else none := by
  refine Option.ext fun v => ?_
  rw [get?_eq_some_iff]
  simp only [filterKeys, List.mem_filter]
  split
  · next h => rw [get?_eq_some_iff]; simp [h]
  · next h => simp [h]

theorem get?_erase [DecidableEq κ] (m : SortedMap κ α) (k k' : κ) :
    (m.erase k).get? k' = if k' = k then none else m.get? k' := by
  rw [erase_eq_filterKeys, get?_filterKeys]
  by_cases h : k' = k
  · subst h
    simp [Std.ReflOrd.compare_self]
  · have : compare k k' ≠ .eq := fun e => h (Std.LawfulEqCmp.eq_of_compare e).symm
    simp [h, this]

theorem mem_keys_of_get? {m : SortedMap κ α} {k : κ} {v : α} (h : m.get? k = some v) :
    k ∈ m.keys :=
  List.mem_map_of_mem (get?_eq_some_iff.1 h)

theorem exists_get?_of_mem {m : SortedMap κ α} {k : κ} (h : k ∈ m.keys) :
    ∃ v, m.get? k = some v := by
  obtain ⟨e, mem, rfl⟩ := List.mem_map.1 h
  exact ⟨e.2, get?_eq_some_iff.2 mem⟩

theorem keys_erase [DecidableEq κ] (m : SortedMap κ α) (k : κ) :
    (m.erase k).keys = m.keys.filter fun k' => !decide (k' = k) := by
  rw [erase_eq_filterKeys, keys_filterKeys]
  refine List.filter_congr fun k' _ => ?_
  by_cases same : k' = k
  · simp [same]
  · simp [same, Ne.symm same]

theorem mem_keys_erase [DecidableEq κ] {m : SortedMap κ α} {k k' : κ} :
    k' ∈ (m.erase k).keys ↔ k' ∈ m.keys ∧ k' ≠ k := by
  simp [keys_erase]

theorem forall_mem_keys_erase_iff [DecidableEq κ] {m : SortedMap κ α} {k : κ} {P : κ → Prop} :
    (∀ k' ∈ (m.erase k).keys, P k') ↔ ∀ k' ∈ m.keys, k' = k ∨ P k' := by
  simp only [mem_keys_erase, and_imp]
  exact forall₂_congr fun _ _ => Decidable.or_iff_not_imp_left.symm

theorem get?_mapValues (f : α → β) (m : SortedMap κ α) (k : κ) :
    (m.mapValues f).get? k = (m.get? k).map f := by
  refine Option.ext fun w => ?_
  rw [get?_eq_some_iff]
  refine ⟨fun h => ?_, fun h => ?_⟩
  · obtain ⟨⟨k', v⟩, mem, e⟩ := List.mem_map.1 h
    obtain ⟨rfl, rfl⟩ := Prod.mk.inj e
    rw [get?_eq_some_iff.2 mem]
    rfl
  · obtain ⟨v, hv, rfl⟩ := Option.map_eq_some_iff.1 h
    exact List.mem_map.2 ⟨(k, v), get?_eq_some_iff.1 hv, rfl⟩

@[simp] theorem contains_mapValues (f : α → β) (m : SortedMap κ α) (k : κ) :
    (m.mapValues f).contains k = m.contains k := by
  rw [contains, get?_mapValues, Option.isSome_map, contains]

theorem get?_filterValues (p : α → Bool) (m : SortedMap κ α) (k : κ) :
    (m.filterValues p).get? k = (m.get? k).filter p := by
  refine Option.ext fun v => ?_
  rw [get?_eq_some_iff, Option.filter_eq_some_iff, get?_eq_some_iff]
  exact List.mem_filter

/-- Removal takes out the one entry of the key. -/
theorem entries_erase_perm [DecidableEq κ] {m : SortedMap κ α} {k : κ} {v : α}
    (h : m.get? k = some v) : m.entries.Perm ((k, v) :: (m.erase k).entries) := by
  have gone : (k, v) ∉ (m.erase k).entries := by
    rw [← get?_eq_some_iff, get?_erase]
    simp
  refine (List.perm_ext_iff_of_nodup m.entries_nodup
    (List.nodup_cons.2 ⟨gone, entries_nodup _⟩)).2 ?_
  rintro ⟨k', w⟩
  rw [List.mem_cons, ← get?_eq_some_iff, ← get?_eq_some_iff, get?_erase, Prod.mk.injEq]
  by_cases hk : k' = k
  · subst hk
    simp [h, eq_comm]
  · simp [hk]

/-! ## Extensionality and insertion -/

variable [Std.TransOrd κ]

/-- Two maps with the same lookup are equal. -/
theorem ext_get? {m m' : SortedMap κ α} (h : ∀ k, m.get? k = m'.get? k) : m = m' := by
  have mem (e : κ × α) : e ∈ m.entries ↔ e ∈ m'.entries := by
    rw [← get?_eq_some_iff, ← get?_eq_some_iff, h]
  refine ext_entries (((List.perm_ext_iff_of_nodup m.entries_nodup m'.entries_nodup).2
    mem).eq_of_pairwise (fun a b _ _ hab hba => ?_) m.ascending m'.ascending)
  rw [Std.OrientedCmp.gt_of_lt hba] at hab
  cases hab

/-- Two maps with the same entries up to order are equal. -/
theorem ext_perm {m m' : SortedMap κ α} (h : m.entries.Perm m'.entries) : m = m' :=
  ext_get? fun k => Option.ext fun v => by rw [get?_eq_some_iff, get?_eq_some_iff, h.mem_iff]

theorem get?_insert [DecidableEq κ] (m : SortedMap κ α) (k k' : κ) (v : α) :
    (m.insert k v).get? k' = if k' = k then some v else m.get? k' := by
  split
  · next h => rw [h, get?_insert_self]
  · next h => exact get?_insert_of_ne m v h

theorem insert_mapValues [DecidableEq κ] (f : α → β) (m : SortedMap κ α) (k : κ) (v : α) :
    (m.mapValues f).insert k (f v) = (m.insert k v).mapValues f :=
  ext_get? fun k' => by
    rw [get?_insert, get?_mapValues, get?_mapValues, get?_insert]
    split <;> rfl

/-- A new key adds one entry. -/
theorem entries_insert_perm [DecidableEq κ] {m : SortedMap κ α} {k : κ} (v : α)
    (h : m.get? k = none) : (m.insert k v).entries.Perm ((k, v) :: m.entries) := by
  have fresh : (k, v) ∉ m.entries := fun mem => by
    rw [get?_eq_some_iff.2 mem] at h
    cases h
  refine (List.perm_ext_iff_of_nodup (entries_nodup _)
    (List.nodup_cons.2 ⟨fresh, m.entries_nodup⟩)).2 ?_
  rintro ⟨k', w⟩
  rw [← get?_eq_some_iff, List.mem_cons, Prod.mk.injEq, ← get?_eq_some_iff, get?_insert]
  by_cases hk : k' = k
  · subst hk
    simp [h, eq_comm]
  · simp [hk]

/-- Insertion of new keys one after the other. -/
theorem entries_foldl_insert_perm [DecidableEq κ] {l : List (κ × α)} {m : SortedMap κ α}
    (distinct : (l.map (·.1)).Nodup) (fresh : ∀ e ∈ l, m.get? e.1 = none) :
    (l.foldl (fun m e => m.insert e.1 e.2) m).entries.Perm (l ++ m.entries) := by
  induction l generalizing m with
  | nil => simp
  | cons e l ih =>
    simp only [List.map_cons, List.nodup_cons] at distinct
    have later : ∀ e' ∈ l, (m.insert e.1 e.2).get? e'.1 = none := fun e' he => by
      have ne : e'.1 ≠ e.1 := fun same => distinct.1 (same ▸ List.mem_map_of_mem he)
      rw [get?_insert, if_neg ne]
      exact fresh e' (List.mem_cons_of_mem _ he)
    calc _ ~ l ++ (m.insert e.1 e.2).entries := ih distinct.2 later
      _ ~ l ++ (e :: m.entries) :=
        (entries_insert_perm e.2 (fresh e List.mem_cons_self)).append_left l
      _ ~ e :: l ++ m.entries := List.perm_middle

theorem entries_ofList_perm [DecidableEq κ] {l : List (κ × α)} (distinct : (l.map (·.1)).Nodup) :
    (ofList l).entries.Perm l := by
  simpa [ofList] using entries_foldl_insert_perm (m := empty) distinct fun _ _ => rfl

@[simp] theorem ofList_entries [DecidableEq κ] (m : SortedMap κ α) : ofList m.entries = m :=
  ext_perm (entries_ofList_perm m.keys_nodup)

theorem erase_of_get?_eq_none [DecidableEq κ] {m : SortedMap κ α} {k : κ} (h : m.get? k = none) :
    m.erase k = m := by
  refine ext_get? fun k' => ?_
  rw [get?_erase]
  split
  · next e => rw [e, h]
  · rfl

/-- A key and the entries of all other keys. -/
theorem get?_of_perm [DecidableEq κ] {m : SortedMap κ α} {k : κ} {o : Option α}
    {rest : List (κ × α)} (h : m.entries.Perm (o.toList.map (k, ·) ++ rest))
    (fresh : k ∉ rest.map (·.1)) : m.get? k = o ∧ (m.erase k).entries.Perm rest := by
  cases o with
  | none =>
    have absent : m.get? k = none := get?_eq_none_iff.2 fun mem =>
      fresh ((h.map (·.1)).mem_iff.1 mem)
    rw [erase_of_get?_eq_none absent]
    exact ⟨absent, h⟩
  | some v =>
    have present : m.get? k = some v := get?_eq_some_iff.2 (h.mem_iff.2 List.mem_cons_self)
    exact ⟨present, ((entries_erase_perm present).symm.trans h).cons_inv⟩

end SortedMap

/-- Members are added in any order. -/
theorem SortedSet.add_right_comm {κ : Type} [Ord κ] [Std.TransOrd κ] [Std.LawfulEqOrd κ]
    [DecidableEq κ] (s : SortedSet κ) (a b : κ) : (s.add a).add b = (s.add b).add a := by
  refine SortedMap.ext_get? fun k => ?_
  rw [add, add, add, add, SortedMap.get?_insert, SortedMap.get?_insert, SortedMap.get?_insert,
    SortedMap.get?_insert]
  split <;> split <;> rfl

theorem SortedSet.contains_foldl_add_iff {κ : Type} [Ord κ] [Std.TransOrd κ] [Std.LawfulEqOrd κ]
    [DecidableEq κ] {l : List κ} {s : SortedSet κ} {k : κ} :
    (l.foldl SortedSet.add s).contains k = true ↔ s.contains k = true ∨ k ∈ l := by
  induction l generalizing s with
  | nil => simp
  | cons a l ih =>
    rw [List.foldl_cons, ih, SortedMap.contains, add, SortedMap.get?_insert, List.mem_cons,
      ← or_assoc]
    refine or_congr_left ?_
    by_cases same : k = a <;> simp [same, SortedMap.contains]

end BlockGraph

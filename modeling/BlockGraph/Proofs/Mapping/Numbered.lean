import BlockGraph.Mapping.Numbered
import BlockGraph.Proofs.Decimal
import BlockGraph.Proofs.SortedMap
import Mathlib.Data.List.Basic

/-!
# Members of numbered families

The names of the members of a family are the family's name and the decimals of a number:

* `numbered?_eq_some_iff`: which name has which number.
* `takeNumbered_eq_ok_iff`: what is split off is every numbered slot, under its number (`Split`).
* `repeatCount_eq_ok_iff`: which counts are accepted (`Counts`).
-/

namespace BlockGraph

namespace Mapping

/-! ## Names of members -/

theorem suffix?_eq_some_iff {family name : String} {ds : List Char} :
    suffix? family name = some ds ↔ name.toList = family.toList ++ ds := by
  rw [suffix?]
  split
  · next h =>
    obtain ⟨rest, hr⟩ := List.isPrefixOf_iff_prefix.1 h
    rw [← hr, ← String.length_toList, List.drop_left, Option.some.injEq, List.append_cancel_left_eq]
  · next h =>
    simp only [reduceCtorEq, false_iff]
    exact fun e => h (List.isPrefixOf_iff_prefix.2 ⟨ds, e.symm⟩)

theorem countOf?_eq_some_iff {ds : List Char} {n : Nat} :
    countOf? ds = some n ↔
      ds ≠ [] ∧ ds.all Char.isDigit = true ∧ Decimal.ofDigits ds = n ∧ n ≤ maxCount := by
  rw [countOf?]
  split
  · next h =>
    simp only [reduceCtorEq, false_iff, not_and]
    intro ne digits
    simp [ne, digits] at h
  · next h =>
    simp only [Bool.or_eq_true, List.isEmpty_iff, Bool.not_eq_true', not_or,
      Bool.not_eq_false] at h
    simp only [h.1, h.2, ne_eq, not_false_eq_true, true_and]
    split
    · next le =>
      rw [Option.some.injEq]
      exact ⟨fun e => ⟨e, e ▸ le⟩, And.left⟩
    · next gt =>
      simp only [reduceCtorEq, false_iff, not_and]
      exact fun e le => gt (e ▸ le)

theorem isNumbered_iff {family name : String} :
    isNumbered family name = true ↔
      ∃ ds, name.toList = family.toList ++ ds ∧ ds ≠ [] ∧ ds.all Char.isDigit = true := by
  rw [isNumbered]
  split
  · next ds h =>
    have e := suffix?_eq_some_iff.1 h
    refine ⟨fun digits => ?_, fun h => ?_⟩
    · simp only [Bool.and_eq_true, Bool.not_eq_true', List.isEmpty_eq_false_iff] at digits
      exact ⟨ds, e, digits⟩
    · obtain ⟨ds', e', digits⟩ := h
      obtain rfl := List.append_cancel_left (e.symm.trans e')
      simpa using digits
  · next h =>
    simp only [Bool.false_eq_true, false_iff, not_exists, not_and]
    intro ds e
    rw [suffix?_eq_some_iff.2 e] at h
    cases h

theorem toList_member (family : String) (n : Nat) :
    (family ++ toString n).toList = family.toList ++ Nat.toDigits 10 n := by
  rw [String.toList_append, Nat.toString_eq_repr, Nat.toList_repr]

/-- Which name has which number. -/
theorem numbered?_eq_some_iff {family name : String} {n : Nat} :
    numbered? family name = some n ↔ name = family ++ toString n ∧ n ≤ maxCount := by
  rw [← String.toList_inj, toList_member, numbered?]
  split
  · next c cs h =>
    have e := suffix?_eq_some_iff.1 h
    simp only [reduceCtorEq, false_iff, not_and]
    intro e'
    exact absurd (List.append_cancel_left (e.symm.trans e')).symm
      (Decimal.toDigits_ne_zero_cons n c cs)
  · next ds canonical h =>
    have e := suffix?_eq_some_iff.1 h
    rw [countOf?_eq_some_iff, e, List.append_cancel_left_eq]
    refine ⟨fun h => ?_, fun h => ?_⟩
    · obtain ⟨ne, digits, rfl, le⟩ := h
      exact ⟨(Decimal.toDigits_ofDigits digits ne fun c cs he => canonical c cs he).symm, le⟩
    · obtain ⟨rfl, le⟩ := h
      exact ⟨Nat.toDigits_ne_nil, Decimal.toDigits_all_isDigit n, Decimal.ofDigits_toDigits n, le⟩
  · next h =>
    simp only [reduceCtorEq, false_iff, not_and]
    intro e
    rw [suffix?_eq_some_iff.2 e] at h
    cases h

theorem isNumbered_member (family : String) (n : Nat) :
    isNumbered family (family ++ toString n) = true :=
  isNumbered_iff.2 ⟨_, toList_member family n, Nat.toDigits_ne_nil, Decimal.toDigits_all_isDigit n⟩

/-- A number has one name. -/
theorem member_injective {family : String} {i j : Nat}
    (h : family ++ toString i = family ++ toString j) : i = j := by
  have := congrArg String.toList h
  rw [toList_member, toList_member, List.append_cancel_left_eq] at this
  rw [← Decimal.ofDigits_toDigits i, this, Decimal.ofDigits_toDigits]

/-! ## Splitting off a family -/

variable {α β : Type}

/-- A member of a family under its name. -/
def member (family : String) (e : Nat × α) : String × α := (family ++ toString e.1, e.2)

/-- `found` and `rest` are the members of a family under their numbers and the other slots. -/
structure Split (family : String) (slots : SortedMap String α) (found : SortedMap Nat α)
    (rest : SortedMap String α) : Prop where
  members : (slots.filterKeys (isNumbered family)).entries.Perm (found.entries.map (member family))
  bounded : ∀ i ∈ found.keys, i ≤ maxCount
  others : rest = slots.filterKeys (!isNumbered family ·)

theorem Split.get? {family : String} {slots rest : SortedMap String α} {found : SortedMap Nat α}
    (h : Split family slots found rest) {i : Nat} (_ : i ≤ maxCount) :
    found.get? i = slots.get? (family ++ toString i) := by
  refine Option.ext fun v => ?_
  have step : (family ++ toString i, v) ∈ (slots.filterKeys (isNumbered family)).entries ↔
      (i, v) ∈ found.entries := by
    rw [h.members.mem_iff, List.mem_map]
    constructor
    · rintro ⟨⟨j, w⟩, mem, e⟩
      obtain ⟨name, rfl⟩ := Prod.mk.inj e
      rwa [← member_injective name]
    · exact fun mem => ⟨(i, v), mem, rfl⟩
  rw [SortedMap.get?_eq_some_iff, ← step, ← SortedMap.get?_eq_some_iff, SortedMap.get?_filterKeys,
    if_pos (isNumbered_member family i)]

theorem Split.unique {family : String} {slots r r' : SortedMap String α} {f f' : SortedMap Nat α}
    (h : Split family slots f r) (h' : Split family slots f' r') : f = f' ∧ r = r' := by
  refine ⟨SortedMap.ext_get? fun i => ?_, h.others.trans h'.others.symm⟩
  by_cases le : i ≤ maxCount
  · rw [h.get? le, h'.get? le]
  · rw [SortedMap.get?_eq_none_iff.2 fun mem => le (h.bounded i mem),
      SortedMap.get?_eq_none_iff.2 fun mem => le (h'.bounded i mem)]

/-- One step of `takeNumbered`'s fold. -/
def foundStep (blockId family : String) (found : SortedMap Nat α) (e : String × α) :
    Except Error (SortedMap Nat α) :=
  match numbered? family e.1 with
  | none => throw (.malformed blockId (.badNumber e.1 family))
  | some n =>
    if found.contains n then throw (.malformed blockId (.numberTwice family n))
    else pure (found.insert n e.2)

theorem takeNumbered_eq (blockId family : String) (slots : SortedMap String α) :
    takeNumbered blockId family slots =
      ((slots.filterKeys (isNumbered family)).entries.foldlM (foundStep blockId family) .empty >>=
        fun found => pure (found, slots.filterKeys (!isNumbered family ·))) := rfl

/-- Names with distinct numbers are put under these numbers. -/
theorem foldlM_foundStep {blockId family : String} {numbers : List (Nat × α)}
    {m : SortedMap Nat α} (distinct : (numbers.map (·.1)).Nodup)
    (bounded : ∀ e ∈ numbers, e.1 ≤ maxCount) (fresh : ∀ e ∈ numbers, m.get? e.1 = none) :
    (numbers.map (member family)).foldlM (foundStep blockId family) m =
      .ok (numbers.foldl (fun m e => m.insert e.1 e.2) m) := by
  induction numbers generalizing m with
  | nil => rfl
  | cons e numbers ih =>
    simp only [List.map_cons, List.nodup_cons] at distinct
    have number : numbered? family (member family e).1 = some e.1 :=
      numbered?_eq_some_iff.2 ⟨rfl, bounded e List.mem_cons_self⟩
    have free := SortedMap.contains_eq_false_iff.2 (fresh e List.mem_cons_self)
    have step : foundStep blockId family m (member family e) = .ok (m.insert e.1 e.2) := by
      rw [foundStep, number]
      simp only [free, Bool.false_eq_true, if_false]
      rfl
    rw [List.map_cons, List.foldlM_cons, step]
    refine ih distinct.2 (fun e' he => bounded e' (List.mem_cons_of_mem _ he)) fun e' he => ?_
    have ne : e'.1 ≠ e.1 := fun same => distinct.1 (same ▸ List.mem_map_of_mem he)
    rw [SortedMap.get?_insert, if_neg ne]
    exact fresh e' (List.mem_cons_of_mem _ he)

/-- Names have numbers up to the first one that has none. -/
theorem exists_numbers (family : String) (entries : List (String × α)) :
    ∃ numbers : List (Nat × α), (∀ e ∈ numbers, e.1 ≤ maxCount) ∧
      (entries = numbers.map (member family) ∨
        ∃ bad rest, entries = numbers.map (member family) ++ bad :: rest ∧
          numbered? family bad.1 = none) := by
  induction entries with
  | nil => exact ⟨[], by simp, .inl rfl⟩
  | cons e entries ih =>
    cases hn : numbered? family e.1 with
    | none => exact ⟨[], by simp, .inr ⟨e, entries, rfl, hn⟩⟩
    | some n =>
      obtain ⟨numbers, bounded, split⟩ := ih
      obtain ⟨name, le⟩ := numbered?_eq_some_iff.1 hn
      have first : e = member family (n, e.2) := by rw [member, ← name]
      refine ⟨(n, e.2) :: numbers, List.forall_mem_cons.2 ⟨le, bounded⟩, ?_⟩
      rw [List.map_cons, ← first]
      rcases split with rfl | ⟨bad, rest, rfl, none⟩
      · exact .inl rfl
      · exact .inr ⟨bad, rest, rfl, none⟩

theorem nodup_of_members {family : String} {numbers : List (Nat × α)}
    (h : ((numbers.map (member family)).map (·.1)).Nodup) : (numbers.map (·.1)).Nodup := by
  rw [List.map_map] at h
  refine List.Nodup.of_map (fun n : Nat => family ++ toString n) ?_
  rwa [List.map_map]

/-- A family is split off unless a name has needless zeros or a number that is too large. No
number is ever met twice. -/
theorem takeNumbered_cases (blockId family : String) (slots : SortedMap String α) :
    (∃ found rest, takeNumbered blockId family slots = .ok (found, rest) ∧
      Split family slots found rest) ∨
    ∃ name ∈ slots.keys, isNumbered family name = true ∧ numbered? family name = none ∧
      takeNumbered blockId family slots = .error (.malformed blockId (.badNumber name family)) := by
  have distinct := (slots.filterKeys (isNumbered family)).keys_nodup
  obtain ⟨numbers, bounded, all | ⟨bad, rest, split, none⟩⟩ :=
    exists_numbers family (slots.filterKeys (isNumbered family)).entries
  · rw [SortedMap.keys, all] at distinct
    have numbersDistinct := nodup_of_members distinct
    have perm := SortedMap.entries_ofList_perm numbersDistinct
    refine .inl ⟨.ofList numbers, slots.filterKeys (!isNumbered family ·), ?_, ?_⟩
    · rw [takeNumbered_eq, all, foldlM_foundStep numbersDistinct bounded fun _ _ => rfl]
      rfl
    · refine ⟨all ▸ (perm.map _).symm, fun i hi => ?_, rfl⟩
      obtain ⟨e, he, rfl⟩ := List.mem_map.1 hi
      exact bounded e (perm.mem_iff.1 he)
  · have mem : bad ∈ (slots.filterKeys (isNumbered family)).entries := by rw [split]; simp
    obtain ⟨inSlots, numbered⟩ := List.mem_filter.1 mem
    refine .inr ⟨bad.1, List.mem_map_of_mem inSlots, numbered, none, ?_⟩
    rw [SortedMap.keys, split, List.map_append] at distinct
    have before := nodup_of_members distinct.of_append_left
    rw [takeNumbered_eq, split, List.foldlM_append,
      foldlM_foundStep before bounded fun _ _ => rfl]
    simp only [List.foldlM_cons, foundStep, none]
    rfl

theorem takeNumbered_eq_ok_iff {blockId family : String} {slots rest : SortedMap String α}
    {found : SortedMap Nat α} :
    takeNumbered blockId family slots = .ok (found, rest) ↔ Split family slots found rest := by
  rcases takeNumbered_cases blockId family slots with ⟨f, r, ok, split⟩ | ⟨name, mem, num, none, e⟩
  · rw [ok, Except.ok.injEq, Prod.mk.injEq]
    constructor
    · rintro ⟨rfl, rfl⟩
      exact split
    · exact split.unique
  · rw [e]
    simp only [reduceCtorEq, false_iff]
    intro h
    obtain ⟨⟨name', v⟩, inSlots, rfl⟩ := List.mem_map.1 mem
    have mem := h.members.mem_iff.1 (List.mem_filter.2 ⟨inSlots, num⟩)
    obtain ⟨⟨i, w⟩, he, e⟩ := List.mem_map.1 mem
    have number := numbered?_eq_some_iff.2
      ⟨(Prod.mk.inj e).1.symm, h.bounded i (List.mem_map_of_mem he)⟩
    rw [none] at number
    cases number

/-! ## Counting -/

/-- `count` is accepted as the number of members of a family of which `found` are present. -/
structure Counts (declared : Option Nat) (found : SortedMap Nat α) (count : Nat) : Prop where
  below : ∀ i ∈ found.keys, i < count
  few : count ≤ found.size + maxAbsent
  source : match declared with
    | some n => count = n
    | none => count ≤ maxCount ∧ (count = 0 ∨ count - 1 ∈ found.keys)

theorem le_of_keys_getLast? {found : SortedMap Nat α} {top : Nat}
    (h : found.keys.getLast? = some top) : top ∈ found.keys ∧ ∀ i ∈ found.keys, i ≤ top := by
  obtain ⟨lower, e⟩ := List.getLast?_eq_some_iff.1 h
  have ascending := found.keys_pairwise
  rw [e, List.pairwise_append] at ascending
  refine ⟨by simp [e], fun i hi => ?_⟩
  rw [e, List.mem_append, List.mem_singleton] at hi
  rcases hi with hi | rfl
  · have := ascending.2.2 i hi top (by simp)
    rw [Nat.compare_eq_lt] at this
    exact this.le
  · exact le_rfl

/-- The last check of `repeatCount`. -/
theorem checkAbsent_eq_ok_iff {n size count : Nat} {e : Error} :
    (if maxAbsent < n - size then (do throw e; pure n) else pure n : Except Error Nat) = .ok count ↔
      n = count ∧ count ≤ size + maxAbsent := by
  split
  · next h =>
    refine iff_of_false (fun h => by cases h) fun counts => ?_
    omega
  · next h =>
    simp only [pure, Except.pure, Except.ok.injEq]
    omega

theorem repeatCount_eq_ok_iff {blockId family : String} {declared : Option Nat}
    {found : SortedMap Nat α} {count : Nat} :
    repeatCount blockId family declared found = .ok count ↔ Counts declared found count := by
  unfold repeatCount
  cases last : found.keys.getLast? with
  | none =>
    have empty : found.keys = [] := List.getLast?_eq_none_iff.1 last
    have size : found.size = 0 := by simpa [SortedMap.keys, SortedMap.size] using empty
    cases declared with
    | none =>
      simp only [pure_bind]
      rw [checkAbsent_eq_ok_iff]
      refine ⟨fun h => ?_, fun h => ?_⟩
      · obtain ⟨rfl, few⟩ := h
        exact ⟨by simp [empty], few, by simp⟩
      · obtain ⟨-, few, -, h | h⟩ := h
        · exact ⟨h.symm, few⟩
        · simp [empty] at h
    | some n =>
      simp only [pure_bind]
      rw [checkAbsent_eq_ok_iff]
      refine ⟨fun h => ?_, fun h => ⟨h.source.symm, h.few⟩⟩
      exact ⟨by simp [empty], h.2, h.1.symm⟩
  | some top =>
    obtain ⟨mem, highest⟩ := le_of_keys_getLast? last
    cases declared with
    | none =>
      simp only []
      split
      · next lt =>
        simp only [pure_bind]
        rw [checkAbsent_eq_ok_iff]
        refine ⟨fun h => ?_, fun h => ?_⟩
        · obtain ⟨rfl, few⟩ := h
          exact ⟨fun i hi => Nat.lt_succ_of_le (highest i hi), few, lt, .inr (by simpa using mem)⟩
        · obtain ⟨below, few, -, source⟩ := h
          have above := below top mem
          rcases source with rfl | h
          · omega
          · have := highest _ h
            exact ⟨by omega, few⟩
      · next ge =>
        refine iff_of_false (fun h => by cases h) fun counts => ?_
        have above := counts.below top mem
        obtain ⟨le, -⟩ := counts.source
        omega
    | some n =>
      simp only []
      split
      · next le =>
        refine iff_of_false (fun h => by cases h) fun counts => ?_
        have above := counts.below top mem
        have source : count = n := counts.source
        omega
      · next gt =>
        simp only [pure_bind]
        rw [checkAbsent_eq_ok_iff]
        refine ⟨fun h => ⟨fun i hi => ?_, h.2, h.1.symm⟩, fun h => ⟨h.source.symm, h.few⟩⟩
        have := highest i hi
        omega

/-! ## Members in order -/

/-- The members of a family in the order of their numbers, below a count. -/
theorem filterMap_range_get? {found : SortedMap Nat α} {count : Nat}
    (below : ∀ i ∈ found.keys, i < count) :
    ((List.range count).filterMap fun i => (found.get? i).map (i, ·)) = found.entries := by
  have ascending : ((List.range count).filterMap fun i => (found.get? i).map (i, ·)).Pairwise
      (fun a b => compare a.1 b.1 = .lt) := by
    refine List.Pairwise.filterMap _ (fun i j lt a ha b hb => ?_) List.pairwise_lt_range
    obtain ⟨v, -, rfl⟩ := Option.map_eq_some_iff.1 ha
    obtain ⟨w, -, rfl⟩ := Option.map_eq_some_iff.1 hb
    exact Nat.compare_eq_lt.2 lt
  refine congrArg SortedMap.entries (SortedMap.ext_get? (m := ⟨_, ascending⟩) fun i =>
    Option.ext fun v => ?_)
  rw [SortedMap.get?_eq_some_iff, SortedMap.get?_eq_some_iff]
  simp only [List.mem_filterMap, List.mem_range, Option.map_eq_some_iff, Prod.mk.injEq]
  refine ⟨fun h => ?_, fun h => ?_⟩
  · obtain ⟨j, -, w, h, rfl, rfl⟩ := h
    exact SortedMap.get?_eq_some_iff.1 h
  · exact ⟨i, below i (List.mem_map_of_mem h), v, SortedMap.get?_eq_some_iff.2 h, rfl, rfl⟩

/-- As many members are absent as there are fewer entries than members. -/
theorem countP_absent {found : SortedMap Nat α} {count : Nat}
    (below : ∀ i ∈ found.keys, i < count) :
    (List.range count).countP (fun i => (found.get? i).isNone) = count - found.size := by
  have present : (List.range count).countP (fun i => (found.get? i).isSome) = found.size := by
    rw [SortedMap.size, ← filterMap_range_get? below, List.length_filterMap_eq_countP]
    exact List.countP_congr fun i _ => by simp
  have all := List.length_eq_countP_add_countP (l := List.range count)
    fun i => (found.get? i).isSome
  rw [List.length_range, present] at all
  simp only [Bool.not_eq_true, Option.isSome_eq_false_iff, Bool.decide_eq_true] at all
  omega

end Mapping

end BlockGraph

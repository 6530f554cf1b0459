import BlockGraph.Proofs.Mapping.Faults

/-!
# Families without loss

A family of numbered slots is split off the slots of a block and counted. Nothing gets lost on the
way and nothing gets to another number:

* `Mapping.HasDigits`: the names that belong to a family.
* `Mapping.Lossless`: what is known of a family that was read.
* `Mapping.repeatCount_of_last`: the count of a family that declares none.
* `Mapping.lossless_iff`: splitting off and counting succeed exactly with such a result.
-/

namespace BlockGraph.Mapping

variable {α : Type} {family : String} {declared : Option Nat} {slots rest : SortedMap String α}
  {found : SortedMap Nat α} {count : Nat}

/-- A name is that of the family with decimal digits behind it. -/
def HasDigits (family name : String) : Prop :=
  ∃ digits : List Char, digits ≠ [] ∧ (∀ c ∈ digits, c.isDigit = true) ∧
    name.toList = family.toList ++ digits

theorem isNumbered_iff_hasDigits {name : String} :
    isNumbered family name = true ↔ HasDigits family name := by
  rw [isNumbered_iff, HasDigits]
  refine exists_congr fun digits => ?_
  rw [List.all_eq_true]
  constructor
  · intro ⟨behind, present, all⟩
    exact ⟨present, all, behind⟩
  · intro ⟨present, all, behind⟩
    exact ⟨behind, present, all⟩

/-- What is known of a family that was split off `slots` and counted: `found` are its members under
their numbers and `rest` are the other slots. Numbers are words of 64 bits. -/
structure Lossless (family : String) (declared : Option Nat) (slots : SortedMap String α)
    (found : SortedMap Nat α) (rest : SortedMap String α) (count : Nat) : Prop where
  /-- Under a number is what was under the name with this number. -/
  entry : ∀ i, found.get? i = slots.get? (family ++ toString i)
  /-- Every name with digits is the name of a number. -/
  named : ∀ name ∈ slots.keys, HasDigits family name →
    ∃ i ∈ found.keys, name = family ++ toString i
  /-- Exactly the entries under the other names are left. -/
  others : ∀ name v, rest.get? name = some v ↔ slots.get? name = some v ∧ ¬HasDigits family name
  words : ∀ i ∈ found.keys, i < 2 ^ 64
  below : ∀ i ∈ found.keys, i < count
  asDeclared : ∀ n, declared = some n → count = n
  /-- A family that declares no count goes up to its highest number, which has a successor. -/
  undeclared : declared = none → count < 2 ^ 64 ∧ (count = 0 ∨ count - 1 ∈ found.keys)
  few : count ≤ found.size + 64

/-! ## Splitting off -/

theorem le_maxCount_iff {n : Nat} : n ≤ maxCount ↔ n < 2 ^ 64 := by
  rw [maxCount]
  omega

theorem Split.get?_found (h : Split family slots found rest) (i : Nat) :
    found.get? i = slots.get? (family ++ toString i) := by
  by_cases small : i ≤ maxCount
  · exact h.get? small
  · -- a number that is too large would be one of `found`, were its name in the slots
    rw [SortedMap.get?_eq_none_iff.2 fun mem => small (h.bounded i mem), eq_comm,
      SortedMap.get?_eq_none_iff]
    intro present
    obtain ⟨j, hj, same⟩ := h.exists_number present (isNumbered_member family i)
    obtain rfl := member_injective same
    exact small (h.bounded i hj)

theorem Split.get?_rest (h : Split family slots found rest) (name : String) (v : α) :
    rest.get? name = some v ↔ slots.get? name = some v ∧ ¬HasDigits family name := by
  rw [h.others, SortedMap.get?_filterKeys, ← isNumbered_iff_hasDigits]
  cases isNumbered family name <;> simp

theorem Lossless.split (h : Lossless family declared slots found rest count) :
    Split family slots found rest where
  members := by
    have names : Function.Injective (member (α := α) family) := by
      intro e e' same
      obtain ⟨name, value⟩ := Prod.mk.inj same
      exact Prod.ext (member_injective name) value
    rw [List.perm_ext_iff_of_nodup (SortedMap.entries_nodup _) (found.entries_nodup.map names)]
    intro e
    rw [List.mem_map]
    constructor
    · intro mem
      obtain ⟨inSlots, digits⟩ := List.mem_filter.1 mem
      obtain ⟨i, -, name⟩ := h.named e.1 (List.mem_map_of_mem inSlots)
        (isNumbered_iff_hasDigits.1 digits)
      have here : found.get? i = some e.2 := by
        rw [h.entry, ← name]
        exact SortedMap.get?_eq_some_iff.2 inSlots
      exact ⟨(i, e.2), SortedMap.get?_eq_some_iff.1 here, Prod.ext name.symm rfl⟩
    · rintro ⟨⟨i, v⟩, mem, rfl⟩
      have here := h.entry i
      rw [SortedMap.get?_eq_some_iff.2 mem] at here
      exact List.mem_filter.2
        ⟨SortedMap.get?_eq_some_iff.1 here.symm, isNumbered_member family i⟩
  bounded i hi := le_maxCount_iff.2 (h.words i hi)
  others := by
    refine SortedMap.ext_get? fun name => Option.ext fun v => ?_
    rw [h.others, SortedMap.get?_filterKeys, ← isNumbered_iff_hasDigits]
    cases isNumbered family name <;> simp

/-! ## Counting -/

theorem Lossless.counts (h : Lossless family declared slots found rest count) :
    Counts declared found count where
  below := h.below
  few := h.few
  source := by
    cases declared with
    | none => exact (h.undeclared rfl).imp_left le_maxCount_iff.2
    | some n => exact h.asDeclared n rfl

/-- A family that declares no count has as many members as its highest number says, and a number
without a successor counts for itself. No block has so many slots that this makes a difference. -/
theorem repeatCount_of_last {blockId : String} {top : Nat}
    (last : found.keys.getLast? = some top) (size : found.size + maxAbsent < maxCount) :
    repeatCount blockId family none found =
      if maxAbsent < min (top + 1) maxCount - found.size then
        .error (.malformed blockId (.tooFewPresent family (min (top + 1) maxCount) found.size))
      else .ok (min (top + 1) maxCount) := by
  unfold repeatCount
  simp only [last]
  by_cases next : top < maxCount
  · rw [if_pos next, Nat.min_eq_left next, pure_bind]
    split <;> rfl
  · rw [if_neg next, Nat.min_eq_right (by omega), if_pos (by omega)]
    rfl

/-- The error that a number is given twice is raised by no family. -/
theorem takeNumbered_ne_numberTwice (blockId family : String) (slots : SortedMap String α)
    (id other : String) (n : Nat) :
    takeNumbered blockId family slots ≠ .error (.malformed id (.numberTwice other n)) := by
  intro twice
  rcases takeNumbered_cases blockId family slots with ⟨f, r, ok, -⟩ | ⟨name, -, -, -, bad⟩
  · rw [ok] at twice
    cases twice
  · rw [bad] at twice
    cases twice

/-! ## Reading a family -/

/-- A name has a number if it is the name of the family with the decimals of this number, which is
a word. Splitting off a family and counting it succeed exactly with what `Lossless` says, and never
fail because a number is given twice. -/
theorem lossless_iff (family : String) :
    (∀ name n, numbered? family name = some n ↔ n < 2 ^ 64 ∧ name = family ++ toString n) ∧
    ∀ {α : Type} (blockId : String) (declared : Option Nat) (slots : SortedMap String α),
      (∀ found rest count, takeNumbered blockId family slots = .ok (found, rest) ∧
          repeatCount blockId family declared found = .ok count ↔
        Lossless family declared slots found rest count) ∧
      ∀ id other n,
        takeNumbered blockId family slots ≠ .error (.malformed id (.numberTwice other n)) := by
  constructor
  · intro name n
    rw [numbered?_eq_some_iff, le_maxCount_iff, and_comm]
  · intro α blockId declared slots
    refine ⟨fun found rest count => ?_, takeNumbered_ne_numberTwice blockId family slots⟩
    rw [takeNumbered_eq_ok_iff, repeatCount_eq_ok_iff]
    refine ⟨fun ⟨split, counts⟩ => ?_, fun h => ⟨h.split, h.counts⟩⟩
    constructor
    case entry => exact split.get?_found
    case named =>
      exact fun name present digits =>
        split.exists_number present (isNumbered_iff_hasDigits.2 digits)
    case others => exact split.get?_rest
    case words => exact fun i hi => le_maxCount_iff.1 (split.bounded i hi)
    case below => exact counts.below
    case few => exact counts.few
    case asDeclared =>
      intro n isDeclared
      subst isDeclared
      exact counts.source
    case undeclared =>
      intro none
      subst none
      exact counts.source.imp_left le_maxCount_iff.1

/-- Two members among other slots, of four that are declared. -/
def sparseSlots : SortedMap String Nat :=
  .ofList [("IF0", 10), ("DO0", 11), ("IF2", 12), ("IFX", 13)]

theorem lossless_sparseSlots :
    takeNumbered "a" "IF" sparseSlots =
      .ok (.ofList [(0, 10), (2, 12)], .ofList [("DO0", 11), ("IFX", 13)]) ∧
    repeatCount "a" "IF" (some 4) (.ofList [(0, 10), (2, 12)]) = .ok 4 ∧
    Lossless "IF" (some 4) sparseSlots (.ofList [(0, 10), (2, 12)])
      (.ofList [("DO0", 11), ("IFX", 13)]) 4 := by
  have taken : takeNumbered "a" "IF" sparseSlots =
      .ok (.ofList [(0, 10), (2, 12)], .ofList [("DO0", 11), ("IFX", 13)]) := by
    decide +kernel
  have counted : repeatCount "a" "IF" (some 4) (.ofList [(0, 10), (2, 12)]) = .ok 4 := by
    rfl
  exact ⟨taken, counted, (((lossless_iff "IF").2 "a" (some 4) sparseSlots).1 _ _ _).1
    ⟨taken, counted⟩⟩

end BlockGraph.Mapping

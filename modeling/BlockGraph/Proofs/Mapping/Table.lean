import BlockGraph.Proofs.Mapping.Division

/-!
# Slots that fit a table

Which slots the rows of a table take up without leaving any.

* `exists_takeAll_iff`: for tables without families the names decide.
* `exists_takeAll_ifElse_iff`: the slots of a conditional are members of its two families and the
  last branch.
-/

namespace BlockGraph

namespace Mapping

variable {α : Type}

/-! ## Tables without families -/

/-- Whether a row is a family of numbered slots. -/
def isFamily (row : FieldSpec) : Bool := row.mode = .repeatedValue || row.mode = .repeatedStatement

/-- The names of the rows with one of the given modes. -/
def rowNames (modes : List FieldMode) (specs : List FieldSpec) : List String :=
  (specs.filter (·.mode ∈ modes)).map (·.external)

theorem rowNames_cons (modes : List FieldMode) (row : FieldSpec) (specs : List FieldSpec) :
    rowNames modes (row :: specs) =
      if row.mode ∈ modes then row.external :: rowNames modes specs else rowNames modes specs := by
  by_cases h : row.mode ∈ modes <;> simp [rowNames, h]

/-- Rows that are no families take all slots if these have their names. -/
theorem exists_takeAll_iff {blockId : String} {declared : Option Nat} {specs : List FieldSpec}
    (plain : ∀ row ∈ specs, isFamily row = false) (distinct : (rowNames [.literal] specs).Nodup)
    {s : Slots α} :
    (∃ portions, s.takeAll blockId declared specs = .ok (portions, {})) ↔
      (∀ name, name ∈ s.fields.keys ↔ name ∈ rowNames [.literal] specs) ∧
        (∀ name ∈ s.values.keys, name ∈ rowNames [.value] specs) ∧
          ∀ name ∈ s.statements.keys, name ∈ rowNames [.statement, .optionalStatement] specs := by
  induction specs generalizing s with
  | nil =>
    have none (modes : List FieldMode) (name : String) : name ∉ rowNames modes [] := by
      simp [rowNames]
    simp only [none, iff_false, imp_false, ← SortedMap.eq_empty_iff]
    obtain ⟨fields, values, statements⟩ := s
    simp [Slots.takeAll, eq_comm]
  | cons spec specs ih =>
    rw [List.forall_mem_cons] at plain
    have step : (∃ portions, s.takeAll blockId declared (spec :: specs) = .ok (portions, {})) ↔
        ∃ portion s', s.Takes declared spec portion s' ∧
          ∃ others, s'.takeAll blockId declared specs = .ok (others, {}) := by
      simp only [Slots.takeAll_cons_eq_ok_iff, Slots.take_eq_ok_iff]
      refine ⟨fun h => ?_, fun h => ?_⟩
      · obtain ⟨_, p, s', others, first, rest, -⟩ := h
        exact ⟨p, s', first, others, rest⟩
      · obtain ⟨p, s', first, others, rest⟩ := h
        exact ⟨_, p, s', others, first, rest, rfl⟩
    obtain ⟨name, internal, mode⟩ := spec
    rw [step]
    cases mode with
    | repeatedValue | repeatedStatement => exact absurd plain.1 (by simp [isFamily])
    | literal =>
      simp only [rowNames_cons, List.mem_cons, List.not_mem_nil, or_false, reduceCtorEq, if_true,
        if_false, List.nodup_cons] at distinct ⊢
      have ih (s : Slots α) := ih (s := s) plain.2 distinct.2
      refine ⟨fun h => ?_, fun h => ?_⟩
      · obtain ⟨_, _, ⟨present⟩, others⟩ := h
        obtain ⟨fields, others⟩ := (ih _).1 others
        have mem := SortedMap.mem_keys_of_get? present
        refine ⟨fun name' => ?_, others⟩
        rw [← fields, SortedMap.mem_keys_erase]
        by_cases same : name' = name <;> simp [same, mem]
      · obtain ⟨fields, others⟩ := h
        obtain ⟨text, present⟩ := SortedMap.exists_get?_of_mem ((fields name).2 (.inl rfl))
        refine ⟨_, _, .literal present, (ih _).2 ⟨fun name' => ?_, others⟩⟩
        rw [SortedMap.mem_keys_erase, fields]
        constructor
        · rintro ⟨rfl | mem, ne⟩
          · exact absurd rfl ne
          · exact mem
        · exact fun mem => ⟨.inr mem, fun same => distinct.1 (same ▸ mem)⟩
    | value =>
      simp only [rowNames_cons, List.mem_cons, List.not_mem_nil, or_false, reduceCtorEq, if_true,
        if_false] at distinct ⊢
      rw [← SortedMap.forall_mem_keys_erase_iff]
      refine Iff.trans ?_ (ih (s := { s with values := s.values.erase name }) plain.2 distinct)
      constructor
      · rintro ⟨_, _, ⟨⟩, rest⟩
        exact rest
      · exact fun rest => ⟨_, _, .value, rest⟩
    | statement | optionalStatement =>
      simp only [rowNames_cons, List.mem_cons, List.not_mem_nil, or_false, or_true, reduceCtorEq,
        if_true, if_false] at distinct ⊢
      rw [← SortedMap.forall_mem_keys_erase_iff]
      refine Iff.trans ?_
        (ih (s := { s with statements := s.statements.erase name }) plain.2 distinct)
      refine ⟨fun h => ?_, fun rest => ?_⟩
      · obtain ⟨_, _, ⟨⟩, rest⟩ := h
        exact rest
      · exact ⟨_, { s with statements := s.statements.erase name }, by constructor, rest⟩

/-! ## Families -/

/-- Whether a name is that of a member of a family with `count` members. -/
def IsMember (family : String) (count : Nat) (name : String) : Prop :=
  ∃ i < count, name = family ++ toString i

/-- How many members of a family with `count` members are not among `names`. -/
def absent (family : String) (count : Nat) (names : List String) : Nat :=
  (List.range count).countP fun i => decide (family ++ toString i ∉ names)

/-- A family with `count` members can be split off if all its slots are members and not too many
members are absent. -/
theorem exists_split_iff {family : String} {count : Nat} (small : count ≤ maxCount)
    {slots : SortedMap String α} :
    (∃ found, Split family slots found (slots.filterKeys (!isNumbered family ·)) ∧
        Counts (some count) found count) ↔
      (∀ name ∈ slots.keys, isNumbered family name = true → IsMember family count name) ∧
        absent family count slots.keys ≤ maxAbsent := by
  have missing {found : SortedMap Nat α} {rest : SortedMap String α}
      (split : Split family slots found rest) (below : ∀ i ∈ found.keys, i < count) :
      absent family count slots.keys = count - found.size := by
    rw [← countP_absent below]
    refine List.countP_congr fun i hi => ?_
    have le : i ≤ maxCount := (List.mem_range.1 hi).le.trans small
    rw [split.get? le, decide_eq_true_iff, ← SortedMap.get?_eq_none_iff, Option.isNone_iff_eq_none]
  refine ⟨fun h => ?_, fun h => ?_⟩
  · obtain ⟨found, split, below, few, -⟩ := h
    refine ⟨fun name mem numbered => ?_, by rw [missing split below]; omega⟩
    obtain ⟨v, present⟩ := SortedMap.exists_get?_of_mem mem
    obtain ⟨e, he, same⟩ := List.mem_map.1 (split.members.mem_iff.1
      (List.mem_filter.2 ⟨SortedMap.get?_eq_some_iff.1 present, numbered⟩))
    exact ⟨e.1, below _ (List.mem_map_of_mem he), (Prod.mk.inj same).1.symm⟩
  · obtain ⟨members, few⟩ := h
    rcases takeNumbered_cases "" family slots with
      ⟨found, rest, -, split⟩ | ⟨name, mem, num, bad, -⟩
    · have below : ∀ i ∈ found.keys, i < count := fun i hi => by
        obtain ⟨v, present⟩ := SortedMap.exists_get?_of_mem hi
        rw [split.get? (split.bounded i hi)] at present
        obtain ⟨j, hj, same⟩ := members _ (SortedMap.mem_keys_of_get? present)
          (isNumbered_member family i)
        rwa [member_injective same]
      rw [missing split below] at few
      exact ⟨found, split.others ▸ split, below, by omega, rfl⟩
    · obtain ⟨i, hi, rfl⟩ := members name mem num
      rw [numbered?_eq_some_iff.2 ⟨rfl, hi.le.trans small⟩] at bad
      cases bad

theorem isNumbered_of_isMember {family name : String} {count : Nat}
    (h : IsMember family count name) : isNumbered family name = true := by
  obtain ⟨i, -, rfl⟩ := h
  exact isNumbered_member family i

/-- What a conditional with `count` branches is divided into. -/
theorem takeAll_ifElse_iff {blockId : String} {count : Nat} {s : Slots α}
    {portions : List (Portion α)} :
    s.takeAll blockId (some count) Kind.ifElse.fields = .ok (portions, {}) ↔
      ∃ conditions branches,
        (Split "IF" s.values conditions (s.values.filterKeys (!isNumbered "IF" ·)) ∧
          Counts (some count) conditions count) ∧
        (Split "DO" s.statements branches (s.statements.filterKeys (!isNumbered "DO" ·)) ∧
          Counts (some count) branches count) ∧
        s.fields = .empty ∧ s.values.filterKeys (!isNumbered "IF" ·) = .empty ∧
        (s.statements.filterKeys (!isNumbered "DO" ·)).erase "ELSE" = .empty ∧
        portions = [
          .repeatedValue ((List.range count).map fun i => ("IF" ++ toString i, conditions.get? i)),
          .repeatedStatement ((List.range count).map fun i =>
            ("DO" ++ toString i, (branches.get? i).getD [])),
          .optionalStatement "ELSE" ((s.statements.get? "ELSE").getD [])] := by
  have other : (s.statements.filterKeys (!isNumbered "DO" ·)).get? "ELSE" =
      s.statements.get? "ELSE" := by
    rw [SortedMap.get?_filterKeys, if_pos (by decide +kernel)]
  simp only [Kind.fields, Slots.takeAll_cons_eq_ok_iff, Slots.take_eq_ok_iff]
  refine ⟨fun h => ?_, fun h => ?_⟩
  · obtain ⟨_, _, _, first, ⟨_, _, _, second, ⟨_, _, _, third, last, rfl⟩, rfl⟩, rfl⟩ := h
    cases first with | repeatedValue split counts =>
    cases second with | repeatedStatement split' counts' =>
    cases third
    obtain rfl := counts.source
    obtain rfl := counts'.source
    obtain rfl := split.others
    obtain rfl := split'.others
    obtain ⟨rfl, rest⟩ := Prod.mk.inj (Except.ok.inj last)
    obtain ⟨fields, values, statements⟩ := Slots.mk.inj rest
    exact ⟨_, _, ⟨split, counts⟩, ⟨split', counts'⟩, fields, values, statements, by rw [other]⟩
  · obtain ⟨conditions, branches, ⟨split, counts⟩, ⟨split', counts'⟩, fields, values, statements,
      rfl⟩ := h
    rw [← other]
    refine ⟨_, _, _, .repeatedValue split counts, ⟨_, _, _, .repeatedStatement split' counts',
      ⟨_, _, _, .optionalStatement, ?_, rfl⟩, rfl⟩, rfl⟩
    rw [fields, values, statements]
    rfl

/-- The names in and outside a family, if the latter are restricted. -/
theorem forall_keys_iff {family : String} {P : String → Prop}
    (foreign : ∀ name, P name → isNumbered family name = false) (count : Nat)
    (slots : SortedMap String α) :
    ((∀ name ∈ slots.keys, isNumbered family name = true → IsMember family count name) ∧
        ∀ name ∈ (slots.filterKeys (!isNumbered family ·)).keys, P name) ↔
      ∀ name ∈ slots.keys, P name ∨ IsMember family count name := by
  simp only [SortedMap.mem_keys_filterKeys, Bool.not_eq_true', and_imp]
  rw [← forall₂_and]
  refine forall₂_congr fun name _ => ⟨fun h => ?_, fun h => ⟨fun num => ?_, fun no => ?_⟩⟩
  · obtain ⟨inside, outside⟩ := h
    rcases num : isNumbered family name
    · exact .inl (outside num)
    · exact .inr (inside num)
  · exact h.resolve_left fun other => by rw [foreign name other] at num; cases num
  · exact h.resolve_right fun member => by rw [isNumbered_of_isMember member] at no; cases no

/-- Which slots a conditional with `count` branches may have. -/
theorem exists_takeAll_ifElse_iff {blockId : String} {count : Nat} (small : count ≤ maxCount)
    {s : Slots α} :
    (∃ portions, s.takeAll blockId (some count) Kind.ifElse.fields = .ok (portions, {})) ↔
      s.fields = .empty ∧
        ((∀ name ∈ s.values.keys, IsMember "IF" count name) ∧
          absent "IF" count s.values.keys ≤ maxAbsent) ∧
        (∀ name ∈ s.statements.keys, name = "ELSE" ∨ IsMember "DO" count name) ∧
          absent "DO" count s.statements.keys ≤ maxAbsent := by
  have parts :
      (∃ portions, s.takeAll blockId (some count) Kind.ifElse.fields = .ok (portions, {})) ↔
      s.fields = .empty ∧
        ((∃ found, Split "IF" s.values found (s.values.filterKeys (!isNumbered "IF" ·)) ∧
          Counts (some count) found count) ∧ s.values.filterKeys (!isNumbered "IF" ·) = .empty) ∧
        (∃ found, Split "DO" s.statements found (s.statements.filterKeys (!isNumbered "DO" ·)) ∧
          Counts (some count) found count) ∧
          (s.statements.filterKeys (!isNumbered "DO" ·)).erase "ELSE" = .empty := by
    simp only [takeAll_ifElse_iff]
    refine ⟨fun h => ?_, fun h => ?_⟩
    · obtain ⟨_, cs, bs, hc, hb, fields, values, statements, -⟩ := h
      exact ⟨fields, ⟨⟨cs, hc⟩, values⟩, ⟨bs, hb⟩, statements⟩
    · obtain ⟨fields, ⟨⟨cs, hc⟩, values⟩, ⟨bs, hb⟩, statements⟩ := h
      exact ⟨_, cs, bs, hc, hb, fields, values, statements, rfl⟩
  have noValue (name : String) (no : False) : isNumbered "IF" name = false := no.elim
  have noChain (name : String) (e : name = "ELSE") : isNumbered "DO" name = false :=
    e ▸ by decide +kernel
  have conditions := forall_keys_iff noValue count s.values
  have branches := forall_keys_iff noChain count s.statements
  simp only [false_or] at conditions
  rw [parts, exists_split_iff small, exists_split_iff small, ← conditions, ← branches,
    SortedMap.eq_empty_iff (m := SortedMap.filterKeys _ s.values),
    SortedMap.eq_empty_iff (m := SortedMap.erase _ "ELSE")]
  have last := SortedMap.forall_mem_keys_erase_iff (P := fun _ => False) (k := "ELSE")
    (m := s.statements.filterKeys (!isNumbered "DO" ·))
  simp only [or_false] at last
  refine and_congr_right fun _ => and_congr ?_ ?_
  · exact and_right_comm
  · rw [← last]
    exact and_right_comm

end Mapping

end BlockGraph

import BlockGraph.Proofs.Mapping.Grammar
import BlockGraph.Proofs.Mapping.Writing

/-!
# Blocks put together from portions

A block that is put together from portions, one for each row of its table, is divided into these
portions again: rows have distinct names, and the members of a family cannot be mistaken for
another row.

* `divide_tabular`: the blocks without families.
* `divide_conditional`: the conditionals.
-/

namespace BlockGraph

namespace Mapping

variable {α : Type}

/-- The slots are those of the portions, without empty chains. -/
structure Slots.Comprises (s : Slots α) (portions : List (Portion α)) : Prop where
  fields : s.fields.entries.Perm (portions.flatMap Portion.fields)
  values : s.values.entries.Perm (portions.flatMap Portion.values)
  statements : s.statements.entries.Perm (portions.flatMap Portion.statements)

/-! ## Rows without families -/

/-- Whether no two rows of a sort have the same name. -/
structure Distinct (specs : List FieldSpec) : Prop where
  fields : (rowNames [.literal] specs).Nodup
  values : (rowNames [.value] specs).Nodup
  statements : (rowNames [.statement, .optionalStatement] specs).Nodup

theorem rowNames_append (modes : List FieldMode) (row : FieldSpec) (specs : List FieldSpec) :
    rowNames modes (row :: specs) = rowNames modes [row] ++ rowNames modes specs := by
  rw [rowNames, rowNames, rowNames, ← List.singleton_append, List.filter_append, List.map_append]

theorem Distinct.of_cons {row : FieldSpec} {specs : List FieldSpec}
    (h : Distinct (row :: specs)) : Distinct specs := by
  obtain ⟨fields, values, statements⟩ := h
  rw [rowNames_append] at fields values statements
  exact ⟨fields.of_append_right, values.of_append_right, statements.of_append_right⟩

theorem Portion.Of.sublist_names {row : FieldSpec} {p : Portion α} (of : p.Of row)
    (plain : isFamily row = false) :
    (p.fields.map (·.1)).Sublist (rowNames [.literal] [row]) ∧
      (p.values.map (·.1)).Sublist (rowNames [.value] [row]) ∧
        (p.statements.map (·.1)).Sublist (rowNames [.statement, .optionalStatement] [row]) := by
  cases of with
  | literal => simp [Portion.fields, Portion.values, Portion.statements, rowNames]
  | @value name internal block =>
    cases block <;> simp [Portion.fields, Portion.values, Portion.statements, rowNames]
  | @statement name internal blocks | @optionalStatement name internal blocks =>
    cases blocks <;> simp [Portion.fields, Portion.values, Portion.statements, rowNames]
  | repeatedValue | repeatedStatement => cases plain

/-- Portions have slots of the names of their rows, each at most once. -/
theorem sublist_names {specs : List FieldSpec} {portions : List (Portion α)}
    (of : List.Forall₂ (fun row p => p.Of row) specs portions)
    (plain : ∀ row ∈ specs, isFamily row = false) :
    ((portions.flatMap Portion.fields).map (·.1)).Sublist (rowNames [.literal] specs) ∧
      ((portions.flatMap Portion.values).map (·.1)).Sublist (rowNames [.value] specs) ∧
        ((portions.flatMap Portion.statements).map (·.1)).Sublist
          (rowNames [.statement, .optionalStatement] specs) := by
  induction of with
  | nil => simp [rowNames]
  | cons first _ ih =>
    rw [List.forall_mem_cons] at plain
    obtain ⟨fields, values, statements⟩ := first.sublist_names plain.1
    obtain ⟨fields', values', statements'⟩ := ih plain.2
    simp only [List.flatMap_cons, List.map_append]
    rw [rowNames_append, rowNames_append [.value], rowNames_append [.statement, .optionalStatement]]
    exact ⟨fields.append fields', values.append values', statements.append statements'⟩

/-- A chain that has blocks. -/
def nonempty? (blocks : List α) : Option (List α) := if blocks.isEmpty then none else some blocks

theorem getD_nonempty? (blocks : List α) : (nonempty? blocks).getD [] = blocks := by
  cases blocks <;> rfl

theorem isNone_nonempty? (blocks : List α) : (nonempty? blocks).isNone = blocks.isEmpty := by
  cases blocks <;> rfl

theorem filter_singleton_eq (name : String) (blocks : List α) :
    [(name, blocks)].filter (!·.2.isEmpty) = (nonempty? blocks).toList.map (name, ·) := by
  cases blocks <;> rfl

/-- A chain slot is taken as it is in the portions. -/
theorem get?_of_statements {m : SortedMap String (List α)} {name : String} {blocks : List α}
    {rest : List (String × List α)}
    (h : m.entries.Perm ([(name, blocks)].filter (!·.2.isEmpty) ++ rest))
    (fresh : name ∉ rest.map (·.1)) :
    (m.get? name).getD [] = blocks ∧ (m.erase name).entries.Perm rest := by
  rw [filter_singleton_eq] at h
  obtain ⟨present, erased⟩ := SortedMap.get?_of_perm h fresh
  rw [present]
  exact ⟨getD_nonempty? blocks, erased⟩

/-- Rows that are no families take the portions that make up the slots. -/
theorem takeAll_of_comprises {blockId : String} {declared : Option Nat} {specs : List FieldSpec}
    {portions : List (Portion α)} (of : List.Forall₂ (fun row p => p.Of row) specs portions)
    (plain : ∀ row ∈ specs, isFamily row = false) (distinct : Distinct specs) {s : Slots α}
    (h : s.Comprises portions) : s.takeAll blockId declared specs = .ok (portions, {}) := by
  induction of generalizing s with
  | nil =>
    obtain ⟨⟨fields, _⟩, ⟨values, _⟩, ⟨statements, _⟩⟩ := s
    obtain rfl : fields = [] := List.perm_nil.1 h.fields
    obtain rfl : values = [] := List.perm_nil.1 h.values
    obtain rfl : statements = [] := List.perm_nil.1 h.statements
    rfl
  | @cons row p specs portions first others ih =>
    rw [List.forall_mem_cons] at plain
    obtain ⟨fieldNames, valueNames, statementNames⟩ := sublist_names others plain.2
    have next {s' : Slots α} (taken : s.Takes declared row p s') (rest : s'.Comprises portions) :
        s.takeAll blockId declared (row :: specs) = .ok (p :: portions, {}) :=
      Slots.takeAll_cons_eq_ok_iff.2
        ⟨_, _, _, Slots.take_eq_ok_iff.2 taken, ih plain.2 distinct.of_cons rest, rfl⟩
    obtain ⟨fields, values, statements⟩ := h
    cases first with
    | @literal name internal text =>
      have fresh : name ∉ (portions.flatMap Portion.fields).map (·.1) := fun mem =>
        (List.nodup_cons.1 distinct.fields).1 (fieldNames.subset mem)
      obtain ⟨present, erased⟩ := SortedMap.get?_of_perm (o := some text) fields fresh
      exact next (.literal present) ⟨erased, values, statements⟩
    | @value name internal block =>
      have fresh : name ∉ (portions.flatMap Portion.values).map (·.1) := fun mem =>
        (List.nodup_cons.1 distinct.values).1 (valueNames.subset mem)
      obtain ⟨rfl, erased⟩ := SortedMap.get?_of_perm values fresh
      exact next .value ⟨fields, erased, statements⟩
    | @statement name internal blocks =>
      have fresh : name ∉ (portions.flatMap Portion.statements).map (·.1) := fun mem =>
        (List.nodup_cons.1 distinct.statements).1 (statementNames.subset mem)
      obtain ⟨rfl, erased⟩ := get?_of_statements statements fresh
      exact next .statement ⟨fields, values, erased⟩
    | @optionalStatement name internal blocks =>
      have fresh : name ∉ (portions.flatMap Portion.statements).map (·.1) := fun mem =>
        (List.nodup_cons.1 distinct.statements).1 (statementNames.subset mem)
      obtain ⟨rfl, erased⟩ := get?_of_statements statements fresh
      exact next .optionalStatement ⟨fields, values, erased⟩
    | repeatedValue | repeatedStatement => cases plain.1

/-! ## Conditionals -/

/-- The members of a family that are present. -/
def present (family : String) (contents : List (Option α)) : List (String × α) :=
  (members family 0 contents).filterMap fun e => e.2.map (e.1, ·)

theorem mem_present {family name : String} {contents : List (Option α)} {v : α} :
    (name, v) ∈ present family contents ↔
      ∃ i : Nat, contents[i]? = some (some v) ∧ name = family ++ toString i := by
  simp only [present, members, List.mem_filterMap, List.mem_map, List.mem_zipIdx_iff_getElem?]
  constructor
  · rintro ⟨_, ⟨⟨o, i⟩, at_i, rfl⟩, e⟩
    obtain ⟨w, rfl, e⟩ := Option.map_eq_some_iff.1 e
    cases e
    exact ⟨i, at_i, rfl⟩
  · rintro ⟨i, at_i, rfl⟩
    exact ⟨_, ⟨(some v, i), at_i, rfl⟩, rfl⟩

/-- A family whose members are told apart from the other entries. -/
theorem family_of_perm {m : SortedMap String α} {family : String} {contents : List (Option α)}
    {rest : List (String × α)} (h : m.entries.Perm (present family contents ++ rest))
    (foreign : ∀ e ∈ rest, isNumbered family e.1 = false) :
    (∀ i : Nat, m.get? (family ++ toString i) = contents[i]?.join) ∧
      (m.filterKeys (!isNumbered family ·)).entries.Perm rest := by
  constructor
  · intro i
    refine Option.ext fun v => ?_
    rw [SortedMap.get?_eq_some_iff, h.mem_iff, List.mem_append, Option.join_eq_some_iff,
      mem_present]
    constructor
    · rintro (⟨j, at_j, name⟩ | mem)
      · rwa [member_injective name]
      · have other := foreign _ mem
        rw [isNumbered_member] at other
        cases other
    · exact fun at_i => .inl ⟨i, at_i, rfl⟩
  · have kept := h.filter fun e => !isNumbered family e.1
    have none : (present family contents).filter (fun e => !isNumbered family e.1) = [] := by
      refine List.filter_eq_nil_iff.2 fun e he => ?_
      obtain ⟨i, -, name⟩ := mem_present.1 he
      rw [name, isNumbered_member]
      decide
    have all : rest.filter (fun e => !isNumbered family e.1) = rest :=
      List.filter_eq_self.2 fun e he => by simp [foreign e he]
    rwa [List.filter_append, none, all] at kept

/-- A family is split off with as many members as it has contents, if not too many are absent. -/
theorem exists_split_of_perm {m : SortedMap String α} {family : String}
    {contents : List (Option α)} {rest : List (String × α)}
    (h : m.entries.Perm (present family contents ++ rest))
    (foreign : ∀ e ∈ rest, isNumbered family e.1 = false) (small : contents.length ≤ maxCount)
    (few : contents.countP (·.isNone) ≤ maxAbsent) :
    ∃ found, (Split family m found (m.filterKeys (!isNumbered family ·)) ∧
      Counts (some contents.length) found contents.length) ∧
        (List.range contents.length).map found.get? = contents := by
  obtain ⟨lookup, -⟩ := family_of_perm h foreign
  have places : (List.range contents.length).map (fun i => contents[i]?.join) = contents :=
    List.ext_getElem (by simp) fun i _ hi => by simp [hi]
  have member : ∀ name ∈ m.keys, isNumbered family name = true →
      IsMember family contents.length name := fun name mem numbered => by
    obtain ⟨⟨_, v⟩, he, rfl⟩ := List.mem_map.1 mem
    rcases List.mem_append.1 (h.mem_iff.1 he) with inside | outside
    · obtain ⟨i, at_i, name⟩ := mem_present.1 inside
      exact ⟨i, (List.getElem?_eq_some_iff.1 at_i).1, name⟩
    · rw [foreign _ outside] at numbered
      cases numbered
  have missing : absent family contents.length m.keys = contents.countP (·.isNone) := by
    rw [absent]
    conv_rhs => rw [← places, List.countP_map]
    refine List.countP_congr fun i _ => ?_
    rw [decide_eq_true_iff, ← SortedMap.get?_eq_none_iff, lookup, Function.comp_apply,
      Option.isNone_iff_eq_none]
  obtain ⟨found, split, counts⟩ :=
    (exists_split_iff small).2 ⟨member, missing.trans_le few⟩
  refine ⟨found, ⟨split, counts⟩, ?_⟩
  refine Eq.trans (List.map_congr_left fun i hi => ?_) places
  have le : i ≤ maxCount := (List.mem_range.1 hi).le.trans small
  rw [split.get? le, lookup]

/-- The chains of a family that have blocks. -/
theorem filter_members_eq_present (family : String) (contents : List (List α)) :
    (members family 0 contents).filter (!·.2.isEmpty) =
      present family (contents.map nonempty?) := by
  rw [present, ← map_members, List.filterMap_map, ← List.filterMap_eq_filter]
  refine List.filterMap_congr fun e _ => ?_
  obtain ⟨name, _ | ⟨b, blocks⟩⟩ := e <;> rfl

/-- The portions of a conditional. -/
def conditionalPortions (conditions : List (Option α)) (branches : List (List α))
    (last : List α) : List (Portion α) :=
  [.repeatedValue (members "IF" 0 conditions), .repeatedStatement (members "DO" 0 branches),
    .optionalStatement "ELSE" last]

theorem isNumbered_else : isNumbered "DO" "ELSE" = false := by decide +kernel

theorem takeAll_conditional_of_comprises {blockId : String} {conditions : List (Option α)}
    {branches : List (List α)} {last : List α} (same : branches.length = conditions.length)
    (small : conditions.length ≤ maxCount)
    (fewConditions : conditions.countP (·.isNone) ≤ maxAbsent)
    (fewBranches : branches.countP (·.isEmpty) ≤ maxAbsent) {s : Slots α}
    (h : s.Comprises (conditionalPortions conditions branches last)) :
    s.takeAll blockId (some conditions.length) Kind.ifElse.fields =
      .ok (conditionalPortions conditions branches last, {}) := by
  let others : List (String × List α) := [("ELSE", last)].filter (!·.2.isEmpty)
  have fields : s.fields = .empty :=
    SortedMap.ext_perm (by simpa [conditionalPortions, Portion.fields] using h.fields)
  have values : s.values.entries.Perm (present "IF" conditions ++ []) := by
    simpa only [conditionalPortions, Portion.values, present, List.flatMap_cons,
      List.flatMap_nil, List.append_nil] using h.values
  have statements :
      s.statements.entries.Perm (present "DO" (branches.map nonempty?) ++ others) := by
    simpa only [conditionalPortions, Portion.statements, filter_members_eq_present, others,
      List.flatMap_cons, List.flatMap_nil, List.append_nil, List.nil_append] using h.statements
  have foreign : ∀ e ∈ others, isNumbered "DO" e.1 = false := fun e he => by
    obtain rfl := List.mem_singleton.1 (List.mem_filter.1 he).1
    exact isNumbered_else
  have length : (branches.map nonempty?).length = conditions.length := by simpa using same
  have few : (branches.map nonempty?).countP (·.isNone) ≤ maxAbsent := by
    simpa only [List.countP_map, Function.comp_def, isNone_nonempty?] using fewBranches
  obtain ⟨cs, hc, conditions_eq⟩ := exists_split_of_perm values (by simp) small fewConditions
  obtain ⟨bs, hb, branches_eq⟩ := exists_split_of_perm statements foreign (length ▸ small) few
  obtain ⟨-, noValues⟩ := family_of_perm values (by simp)
  obtain ⟨-, noBranches⟩ := family_of_perm statements foreign
  rw [length] at hb branches_eq
  -- After the family of branches only the last branch is left.
  have final := get?_of_statements (noBranches.trans (.of_eq (others.append_nil).symm)) (by simp)
  rw [SortedMap.get?_filterKeys, if_pos (by rw [isNumbered_else]; rfl)] at final
  refine takeAll_ifElse_iff.2 ⟨cs, bs, hc, hb, fields, SortedMap.ext_perm noValues,
    SortedMap.ext_perm final.2, ?_⟩
  have branches_eq :
      (List.range conditions.length).map (fun i => (bs.get? i).getD []) = branches := by
    have back := congrArg (List.map (·.getD [])) branches_eq
    simpa only [List.map_map, Function.comp_def, getD_nonempty?, List.map_id'] using back
  rw [map_range_eq_members, map_range_eq_members, branches_eq, final.1]
  rw [show (List.range conditions.length).map (fun i => cs.get? i) = conditions from conditions_eq]
  rfl

/-! ## Blocks -/

theorem exists_comprises {l : BlockLayer α} {portions : List (Portion α)}
    (fields : ((portions.flatMap Portion.fields).map (·.1)).Nodup)
    (values : ((portions.flatMap Portion.values).map (·.1)).Nodup)
    (statements : ((portions.flatMap Portion.statements).map (·.1)).Nodup) :
    ∃ s, Slots.ofLayer (tidyLayer l portions) = .ok s ∧ s.Comprises portions := by
  have indexed : ∃ s, Slots.ofLayer (tidyLayer l portions) = .ok s := exists_ofLayer_iff.2
    ⟨by simpa [BlockLayer.fieldNames, tidyLayer, Function.comp_def] using fields,
      by simpa [BlockLayer.valueNames, tidyLayer, Function.comp_def] using values,
      by simpa [BlockLayer.statementNames, tidyLayer, Function.comp_def] using statements⟩
  obtain ⟨s, of⟩ := indexed
  obtain ⟨⟨-, fields⟩, ⟨-, values⟩, -, statements⟩ := Slots.ofLayer_eq_ok_iff.1 of
  refine ⟨s, of, ⟨?_, ?_, ?_⟩⟩
  · simpa [tidyLayer, Function.comp_def] using fields
  · simpa [tidyLayer, Function.comp_def] using values
  · simpa [tidyLayer, Function.comp_def] using statements

theorem distinct_core : ∀ kind ∈ Kind.coreBlockKinds, kind ≠ .ifElse →
    (rowNames [.value] kind.fields).Nodup ∧
      (rowNames [.statement, .optionalStatement] kind.fields).Nodup := by
  decide +kernel

/-- A block of a core kind is divided into the portions that it was put together from. -/
theorem divide_tabular {l : BlockLayer α} {kind : Kind} {portions : List (Portion α)}
    (known : KindRegistry.core.lookup l.type = some kind) (conditional : kind ≠ .ifElse)
    (of : List.Forall₂ (fun row p => p.Of row) kind.fields portions) :
    divide .core (tidyLayer l portions) = .ok (kind, portions) := by
  obtain ⟨plain, fields⟩ := plain_core kind (KindRegistry.lookup_core known).1 conditional
  obtain ⟨values, statements⟩ := distinct_core kind (KindRegistry.lookup_core known).1 conditional
  obtain ⟨fieldNames, valueNames, statementNames⟩ := sublist_names of plain
  obtain ⟨s, slotsOf, comprises⟩ := exists_comprises (l := l) (fieldNames.nodup fields)
    (valueNames.nodup values) (statementNames.nodup statements)
  refine divide_eq_ok_iff.2 ⟨s, none, known, slotsOf, ?_, ?_⟩
  · rw [declaredCount, if_neg conditional]
  · exact takeAll_of_comprises of plain ⟨fields, values, statements⟩ comprises

theorem nodup_present (family : String) (contents : List (Option α)) :
    ((present family contents).map (·.1)).Nodup := by
  have names : ((members family 0 contents).map (·.1)).Nodup := by
    have numbers : ((List.range contents.length).map fun i => family ++ toString i).Nodup :=
      List.nodup_range.map fun _ _ => member_injective
    rw [List.range_eq_range', ← List.zipIdx_map_snd, List.map_map] at numbers
    rwa [members, List.map_map]
  rw [List.Nodup, List.pairwise_map] at names ⊢
  refine names.filterMap _ fun a a' ne b hb b' hb' => ?_
  obtain ⟨_, -, rfl⟩ := Option.map_eq_some_iff.1 hb
  obtain ⟨_, -, rfl⟩ := Option.map_eq_some_iff.1 hb'
  exact ne

/-- A conditional is divided into the portions that it was put together from. -/
theorem divide_conditional {l : BlockLayer α} {conditions : List (Option α)}
    {branches : List (List α)} {last : List α}
    (known : KindRegistry.core.lookup l.type = some .ifElse)
    (declared : declaredCount .ifElse l.id l.attributes.mutation = .ok (some conditions.length))
    (same : branches.length = conditions.length) (small : conditions.length ≤ maxCount)
    (fewConditions : conditions.countP (·.isNone) ≤ maxAbsent)
    (fewBranches : branches.countP (·.isEmpty) ≤ maxAbsent) :
    divide .core (tidyLayer l (conditionalPortions conditions branches last)) =
      .ok (.ifElse, conditionalPortions conditions branches last) := by
  let portions := conditionalPortions conditions branches last
  have values : ((portions.flatMap Portion.values).map (·.1)).Nodup := by
    simpa only [portions, conditionalPortions, Portion.values, present, List.flatMap_cons,
      List.flatMap_nil, List.append_nil] using nodup_present "IF" conditions
  have statements : ((portions.flatMap Portion.statements).map (·.1)).Nodup := by
    simp only [portions, conditionalPortions, Portion.statements, filter_members_eq_present,
      List.flatMap_cons, List.flatMap_nil, List.nil_append, List.append_nil, List.map_append]
    refine (nodup_present "DO" _).append ?_ fun name mem mem' => ?_
    · exact (List.nodup_singleton _).sublist (List.filter_sublist.map _)
    · obtain ⟨e, he, rfl⟩ := List.mem_map.1 mem
      obtain ⟨i, -, numbered⟩ := mem_present.1 he
      obtain ⟨e', he', same⟩ := List.mem_map.1 mem'
      obtain rfl := List.mem_singleton.1 (List.mem_filter.1 he').1
      have number := isNumbered_member "DO" i
      rw [← numbered, ← same, isNumbered_else] at number
      cases number
  obtain ⟨s, slotsOf, comprises⟩ := exists_comprises (l := l)
    (by simp [portions, conditionalPortions, Portion.fields]) values statements
  exact divide_eq_ok_iff.2 ⟨s, _, known, slotsOf, declared,
    takeAll_conditional_of_comprises same small fewConditions fewBranches comprises⟩

end Mapping

end BlockGraph

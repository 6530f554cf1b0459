import BlockGraph.Proofs.Mapping.Grammar
import BlockGraph.Proofs.Refusal

/-!
# Faults of blocks

Which rule a block has broken that is blamed for a fault. The rules are those of any table: a row
finds the slots that the rows before it have left.

* `Block.Breaks`: the rules, fault by fault.
* `Mapping.blamed_of_layout`: why the table and the slots of a block are not found.
* `Mapping.rowFault_of_take`: why a row does not take its slots.
* `Mapping.blamed_of_assemble`: why what the rows have taken makes no phrase.
-/

namespace BlockGraph

open Mapping

variable {α : Type}

/-! ## The rules -/

/-- The sorts of slots. The same name may stand in every sort. -/
inductive SlotSort where
  | field
  | value
  | statement
  deriving DecidableEq

def FieldMode.sort : FieldMode → SlotSort
  | literal => .field
  | value | repeatedValue => .value
  | statement | optionalStatement | repeatedStatement => .statement

/-- Whether a row takes the slot of this sort and name. -/
def FieldSpec.takes (row : FieldSpec) (sort : SlotSort) (name : String) : Bool :=
  row.mode.sort = sort &&
    if row.mode.isRepeated then isNumbered row.external name else name = row.external

namespace BlockLayer

def names (l : BlockLayer α) : SlotSort → List String
  | .field => l.fieldNames
  | .value => l.valueNames
  | .statement => l.statementNames

/-- The names of the slots of a sort that none of the rows takes. -/
def leftNames (l : BlockLayer α) (rows : List FieldSpec) (sort : SlotSort) : List String :=
  (l.names sort).filter fun name => rows.all fun row => !row.takes sort name

/-- The number of members that the families of a block must have. Only conditionals declare it. -/
def declared? (l : BlockLayer α) (kind : Kind) : Option Nat :=
  if kind = .ifElse then l.branches? else none

end BlockLayer

namespace Mapping

/-- The numbers of the members of a family among slots with these names. -/
def numbersOf (family : String) (names : List String) : List Nat :=
  names.filterMap (numbered? family)

/-- What is wrong with the slots that are left to a row, given their names. -/
inductive RowFault (declared : Option Nat) (names : List String) :
    FieldSpec → BlockFault → Prop where
  | missingField {name internal : String} (missing : name ∉ names) :
      RowFault declared names ⟨name, internal, .literal⟩ (.missingField name)
  /-- The digits after the name of the family are no canonical number, or one that is too large. -/
  | badNumber {row : FieldSpec} {name : String} (family : row.mode.isRepeated = true)
      (present : name ∈ names) (digits : isNumbered row.external name = true)
      (spelled : ∀ n ≤ maxCount, name ≠ row.external ++ toString n) :
      RowFault declared names row (.badNumber name row.external)
  | beyondCount {row : FieldSpec} {number count : Nat} (family : row.mode.isRepeated = true)
      (isDeclared : declared = some count) (present : number ∈ numbersOf row.external names)
      (beyond : count ≤ number) :
      RowFault declared names row (.beyondCount row.external number count)
  | fewDeclared {row : FieldSpec} {count : Nat} (family : row.mode.isRepeated = true)
      (isDeclared : declared = some count)
      (few : (numbersOf row.external names).length + 64 < count) :
      RowFault declared names row
        (.tooFewPresent row.external count (numbersOf row.external names).length)
  /-- The largest number has no successor, so a family whose member has it has no count. -/
  | fewNumbered {row : FieldSpec} {highest : Nat} (family : row.mode.isRepeated = true)
      (undeclared : declared = none) (present : highest ∈ numbersOf row.external names)
      (upper : ∀ n ∈ numbersOf row.external names, n ≤ highest)
      (few : (numbersOf row.external names).length + 64 < highest + 1 ∨ highest = maxCount) :
      RowFault declared names row (.tooFewPresent row.external (min (highest + 1) maxCount)
        (numbersOf row.external names).length)

end Mapping

/-- A block of the document breaks a rule, and this is its fault. No rule leads to a fault in what
the rows of a table have made of the slots. -/
inductive Block.Breaks (registry : KindRegistry) (d : Document) (b : Block) :
    BlockFault → Prop where
  | emptyId (empty : b.layer.id = "") : Breaks registry d b (.emptyId b.layer.type)
  | duplicateId (twice : 1 < (d.blocks.map (·.layer.id)).count b.layer.id) :
      Breaks registry d b .duplicateId
  | unknownType (unknown : registry.lookup b.layer.type = none) :
      Breaks registry d b (.unknownType b.layer.type)
  | duplicateSlot {sort : SlotSort} {name : String} (twice : 1 < (b.layer.names sort).count name) :
      Breaks registry d b (.duplicateSlot name)
  | row {kind : Kind} {before after : List FieldSpec} {row : FieldSpec} {fault : BlockFault}
      (known : registry.lookup b.layer.type = some kind)
      (table : kind.fields = before ++ row :: after)
      (wrong : RowFault (b.layer.declared? kind) (b.layer.leftNames before row.mode.sort) row
        fault) :
      Breaks registry d b fault
  | unusedSlot {kind : Kind} {sort : SlotSort} {name : String}
      (known : registry.lookup b.layer.type = some kind)
      (unused : name ∈ b.layer.leftNames kind.fields sort) :
      Breaks registry d b (.unusedSlot name b.layer.type)
  | badChoice {kind : Kind} {s : FieldSlot} (known : registry.lookup b.layer.type = some kind)
      (field : s ∈ b.layer.fields) (misspelled : kind.allows s.name s.value = false) :
      Breaks registry d b (.badChoice s.value (some s.name))
  | badFlag {kind : Kind} {s : FieldSlot} (known : registry.lookup b.layer.type = some kind)
      (field : s ∈ b.layer.fields) (misspelled : kind.allows s.name s.value = false) :
      Breaks registry d b (.badFlag s.value (some s.name))
  | badBranchCount {text : String} (known : registry.lookup b.layer.type = some .ifElse)
      (entry : b.layer.attributes.mutation.get? "elseif" = some text)
      (unreadable : b.layer.branches? = none) : Breaks registry d b (.badBranchCount text)
  | badElse {text : String} (known : registry.lookup b.layer.type = some .ifElse)
      (entry : b.layer.attributes.mutation.get? "else" = some text)
      (unreadable : text ≠ "0" ∧ text ≠ "1") : Breaks registry d b (.badElse text)
  | undeclaredElse {s : StatementSlot Block} (known : registry.lookup b.layer.type = some .ifElse)
      (slot : s ∈ b.layer.statements) (last : s.name = "ELSE") (present : s.blocks ≠ [])
      (undeclared : b.layer.attributes.mutation.get? "else" ≠ some "1") :
      Breaks registry d b .undeclaredElse
  | expressionInChain {kind : Kind} {parent : Block} {s : StatementSlot Block}
      (known : registry.lookup b.layer.type = some kind) (expression : kind.isExpression = true)
      (around : parent ∈ d.blocks) (slot : s ∈ parent.layer.statements) (inside : b ∈ s.blocks) :
      Breaks registry d b (.expressionInChain b.layer.type s.name)
  | statementInValue {kind : Kind} {parent : Block} {s : ValueSlot Block}
      (known : registry.lookup b.layer.type = some kind) (statement : kind.isExpression = false)
      (around : parent ∈ d.blocks) (slot : s ∈ parent.layer.values) (inside : s.block = b) :
      Breaks registry d b (.statementInValue b.layer.type s.name)

/-- Whether a fault is found in what the rows of a table have made of the slots: it has another
shape than the table, or more or fewer parts. -/
def BlockFault.isMismatch : BlockFault → Bool
  | tableExhausted _ | wrongShape .. | slotCount .. | branchMismatch .. | noTable _ => true
  | _ => false

theorem Block.Breaks.isMismatch {registry : KindRegistry} {d : Document} {b : Block}
    {fault : BlockFault} (h : b.Breaks registry d fault) : fault.isMismatch = false := by
  cases h with
  | row known table wrong => cases wrong <;> rfl
  | _ => rfl

/-- The error is a fault of the block. -/
def Block.Blamed (registry : KindRegistry) (d : Document) (b : Block) (e : Error) : Prop :=
  ∃ fault, e = .malformed b.layer.id fault ∧ b.Breaks registry d fault

namespace Mapping

variable {blockId : String}

/-! ## Rows -/

theorem RowFault.perm {declared : Option Nat} {names names' : List String} {row : FieldSpec}
    {fault : BlockFault} (h : RowFault declared names row fault) (same : names.Perm names') :
    RowFault declared names' row fault := by
  have numbers : (numbersOf row.external names).Perm (numbersOf row.external names') :=
    same.filterMap _
  cases h with
  | missingField missing => exact .missingField fun mem => missing (same.mem_iff.2 mem)
  | badNumber family present digits spelled =>
    exact .badNumber family (same.mem_iff.1 present) digits spelled
  | beyondCount family isDeclared present beyond =>
    exact .beyondCount family isDeclared (numbers.mem_iff.1 present) beyond
  | fewDeclared family isDeclared few =>
    rw [numbers.length_eq] at few ⊢
    exact .fewDeclared family isDeclared few
  | fewNumbered family undeclared present upper few =>
    rw [numbers.length_eq] at few ⊢
    exact .fewNumbered family undeclared (numbers.mem_iff.1 present)
      (fun n hn => upper n (numbers.mem_iff.2 hn)) few

/-- The members that were split off are those that have a number. -/
theorem Split.perm_numbersOf {family : String} {slots rest : SortedMap String α}
    {found : SortedMap Nat α} (h : Split family slots found rest) :
    (numbersOf family slots.keys).Perm found.keys := by
  have digits {name : String} {n : Nat} (number : numbered? family name = some n) :
      isNumbered family name = true := by
    rw [(numbered?_eq_some_iff.1 number).1]
    exact isNumbered_member family n
  have others : numbersOf family slots.keys =
      (slots.filterKeys (isNumbered family)).keys.filterMap (numbered? family) := by
    rw [numbersOf, SortedMap.keys, SortedMap.keys, List.filterMap_map, List.filterMap_map]
    change _ = (slots.entries.filter fun e => isNumbered family e.1).filterMap _
    rw [List.filterMap_filter]
    refine List.filterMap_congr fun e _ => ?_
    by_cases numbered : isNumbered family e.1 = true
    · rw [if_pos numbered]
    · rw [if_neg numbered, Function.comp_apply]
      cases number : numbered? family e.1 with
      | none => rfl
      | some n => exact absurd (digits number) numbered
  have back : (found.entries.map (member family)).filterMap (numbered? family ∘ Prod.fst) =
      found.keys := by
    rw [List.filterMap_map, SortedMap.keys, ← List.filterMap_eq_map]
    refine List.filterMap_congr fun e he => ?_
    exact numbered?_eq_some_iff.2 ⟨rfl, h.bounded _ (List.mem_map_of_mem he)⟩
  rw [others, SortedMap.keys, List.filterMap_map, ← back]
  exact h.members.filterMap _

theorem checkAbsent_eq_error {n size : Nat} {e e' : Error}
    (h : (if maxAbsent < n - size then (do throw e; pure n) else pure n : Except Error Nat) =
      .error e') : e' = e ∧ size + 64 < n := by
  split at h
  · next few =>
    cases h
    exact ⟨rfl, by rw [maxAbsent] at few; omega⟩
  · cases h

/-- A count is refused because of the members that are there. -/
theorem rowFault_of_repeatCount {declared : Option Nat} {names : List String} {row : FieldSpec}
    {found : SortedMap Nat α} {e : Error} (family : row.mode.isRepeated = true)
    (numbers : (numbersOf row.external names).Perm found.keys)
    (h : repeatCount blockId row.external declared found = .error e) :
    ∃ fault, e = .malformed blockId fault ∧ RowFault declared names row fault := by
  have size : found.size = (numbersOf row.external names).length := by
    rw [numbers.length_eq, SortedMap.keys, List.length_map, SortedMap.size]
  unfold repeatCount at h
  cases last : found.keys.getLast? with
  | none =>
    cases declared with
    | none =>
      simp only [last, pure_bind] at h
      obtain ⟨-, few⟩ := checkAbsent_eq_error h
      omega
    | some count =>
      simp only [last, pure_bind] at h
      obtain ⟨rfl, few⟩ := checkAbsent_eq_error h
      rw [size] at few ⊢
      exact ⟨_, rfl, .fewDeclared family rfl few⟩
  | some top =>
    obtain ⟨mem, upper⟩ := le_of_keys_getLast? last
    rw [← numbers.mem_iff] at mem
    cases declared with
    | none =>
      have highest : ∀ n ∈ numbersOf row.external names, n ≤ top := fun n hn =>
        upper n (numbers.mem_iff.1 hn)
      have bound : top ≤ maxCount := by
        obtain ⟨name, -, number⟩ := List.mem_filterMap.1 mem
        exact (numbered?_eq_some_iff.1 number).2
      simp only [last] at h
      split at h
      · next small =>
        simp only [pure_bind] at h
        obtain ⟨rfl, few⟩ := checkAbsent_eq_error h
        have wrong : RowFault none names row _ :=
          .fewNumbered family rfl mem highest (.inl (size ▸ few))
        rw [Nat.min_eq_left small, ← size] at wrong
        exact ⟨_, rfl, wrong⟩
      · next large =>
        cases h
        obtain rfl : top = maxCount := by omega
        have wrong : RowFault none names row _ :=
          .fewNumbered family rfl mem highest (.inr rfl)
        rw [Nat.min_eq_right (Nat.le_succ _), ← size] at wrong
        exact ⟨_, rfl, wrong⟩
    | some count =>
      simp only [last] at h
      split at h
      · next beyond =>
        cases h
        exact ⟨_, rfl, .beyondCount family rfl mem beyond⟩
      · simp only [pure_bind] at h
        obtain ⟨rfl, few⟩ := checkAbsent_eq_error h
        rw [size] at few ⊢
        exact ⟨_, rfl, .fewDeclared family rfl few⟩

/-- A badly spelled member is the only thing that keeps a family from being split off. -/
theorem rowFault_of_takeNumbered {declared : Option Nat} {row : FieldSpec}
    {slots : SortedMap String α} {e : Error} (family : row.mode.isRepeated = true)
    (h : takeNumbered blockId row.external slots = .error e) :
    ∃ fault, e = .malformed blockId fault ∧ RowFault declared slots.keys row fault := by
  rcases takeNumbered_cases blockId row.external slots with
    ⟨found, rest, ok, -⟩ | ⟨name, mem, digits, none, error⟩
  · rw [ok] at h
    cases h
  · rw [error] at h
    cases h
    refine ⟨_, rfl, .badNumber family mem digits fun n small same => ?_⟩
    rw [numbered?_eq_some_iff.2 ⟨same, small⟩] at none
    cases none

/-- A row that is a family fails because of its members. -/
theorem rowFault_of_family {γ : Type} {declared : Option Nat} {row : FieldSpec}
    {slots : SortedMap String α} {e : Error}
    (make : SortedMap Nat α → Nat → SortedMap String α → γ) (family : row.mode.isRepeated = true)
    (h : (do
      let (found, rest) ← takeNumbered blockId row.external slots
      let count ← repeatCount blockId row.external declared found
      return make found count rest : Except Error γ) = .error e) :
    ∃ fault, e = .malformed blockId fault ∧ RowFault declared slots.keys row fault := by
  rcases Except.bind_eq_error_iff.1 h with h | ⟨⟨found, rest⟩, split, h⟩
  · exact rowFault_of_takeNumbered family h
  · rcases Except.bind_eq_error_iff.1 h with h | ⟨count, -, h⟩
    · exact rowFault_of_repeatCount family (takeNumbered_eq_ok_iff.1 split).perm_numbersOf h
    · cases h

/-- The names of the slots of a sort. -/
def Slots.names (s : Slots α) : SlotSort → List String
  | .field => s.fields.keys
  | .value => s.values.keys
  | .statement => s.statements.keys

/-- A row fails because of the slots that are left to it. -/
theorem rowFault_of_take {declared : Option Nat} {s : Slots α} {row : FieldSpec} {e : Error}
    (h : s.take blockId declared row = .error e) :
    ∃ fault, e = .malformed blockId fault ∧
      RowFault declared (s.names row.mode.sort) row fault := by
  obtain ⟨name, internal, mode⟩ := row
  cases mode with
  | literal =>
    simp only [Slots.take] at h
    cases text : s.fields.get? name with
    | some text' =>
      rw [text] at h
      cases h
    | none =>
      rw [text] at h
      cases h
      exact ⟨_, rfl, .missingField (SortedMap.get?_eq_none_iff.1 text)⟩
  | value | statement | optionalStatement => cases h
  | repeatedValue =>
    exact rowFault_of_family (γ := Portion α × Slots α) (fun found count rest =>
      (.repeatedValue ((List.range count).map fun i => (name ++ toString i, found.get? i)),
        { s with values := rest })) rfl h
  | repeatedStatement =>
    exact rowFault_of_family (γ := Portion α × Slots α) (fun found count rest =>
      (.repeatedStatement
        ((List.range count).map fun i => (name ++ toString i, (found.get? i).getD [])),
        { s with statements := rest })) rfl h

/-- A member of a family that was split off has its number. -/
theorem Split.exists_number {family name : String} {slots rest : SortedMap String α}
    {found : SortedMap Nat α} (h : Split family slots found rest) (present : name ∈ slots.keys)
    (digits : isNumbered family name = true) :
    ∃ n ∈ found.keys, name = family ++ toString n := by
  obtain ⟨e, he, rfl⟩ := List.mem_map.1 present
  have mem := h.members.mem_iff.1 (List.mem_filter.2 ⟨he, digits⟩)
  obtain ⟨⟨n, v⟩, hn, same⟩ := List.mem_map.1 mem
  exact ⟨n, List.mem_map_of_mem hn, (Prod.mk.inj same).1.symm⟩

/-- A family that can be counted has no fault. -/
theorem not_rowFault_of_split {declared : Option Nat} {row : FieldSpec}
    {slots rest : SortedMap String α} {found : SortedMap Nat α} {count : Nat}
    (literal : row.mode ≠ .literal) (split : Split row.external slots found rest)
    (counts : Counts declared found count) {fault : BlockFault} :
    ¬ RowFault declared slots.keys row fault := by
  have numbers := split.perm_numbersOf
  have size : (numbersOf row.external slots.keys).length = found.size := by
    rw [numbers.length_eq, SortedMap.keys, List.length_map, SortedMap.size]
  intro wrong
  cases wrong with
  | missingField => exact literal rfl
  | @badNumber _ name family present digits spelled =>
    obtain ⟨n, hn, same⟩ := split.exists_number present digits
    exact spelled n (split.bounded n hn) same
  | beyondCount family isDeclared present beyond =>
    subst isDeclared
    obtain rfl := counts.source
    have below := counts.below _ (numbers.mem_iff.1 present)
    omega
  | fewDeclared family isDeclared few =>
    subst isDeclared
    obtain rfl := counts.source
    have enough := counts.few
    rw [maxAbsent] at enough
    omega
  | fewNumbered family undeclared present upper few =>
    subst undeclared
    obtain ⟨bound, last⟩ := counts.source
    have below := counts.below _ (numbers.mem_iff.1 present)
    have enough := counts.few
    rw [maxAbsent] at enough
    rcases last with rfl | last
    · omega
    · have top := upper _ (numbers.mem_iff.2 last)
      omega

theorem not_rowFault_of_take {blockId : String} {declared : Option Nat} {s s' : Slots α}
    {row : FieldSpec} {p : Portion α} (h : s.take blockId declared row = .ok (p, s'))
    {fault : BlockFault} : ¬ RowFault declared (s.names row.mode.sort) row fault := by
  cases Slots.take_eq_ok_iff.1 h with
  | literal present =>
    intro wrong
    cases wrong with
    | missingField missing => exact missing (SortedMap.mem_keys_of_get? present)
    | badNumber family | beyondCount family | fewDeclared family | fewNumbered family =>
      cases family
  | value | statement | optionalStatement =>
    intro wrong
    cases wrong with
    | badNumber family | beyondCount family | fewDeclared family | fewNumbered family =>
      cases family
  | repeatedValue split counts | repeatedStatement split counts =>
    exact not_rowFault_of_split (by simp) split counts

/-- A row takes the slots that are meant for it. -/
theorem names_take {declared : Option Nat} {s s' : Slots α} {row : FieldSpec}
    {portion : Portion α} (h : s.take blockId declared row = .ok (portion, s')) (sort : SlotSort) :
    s'.names sort = (s.names sort).filter (!row.takes sort ·) := by
  have others {names : List String} (other : row.mode.sort ≠ sort) :
      names.filter (!row.takes sort ·) = names :=
    List.filter_eq_self.2 fun name _ => by simp [FieldSpec.takes, other]
  by_cases same : row.mode.sort = sort
  · subst same
    cases Slots.take_eq_ok_iff.1 h with
    | literal | value | statement | optionalStatement =>
      simp [Slots.names, FieldMode.sort, FieldSpec.takes, FieldMode.isRepeated,
        SortedMap.keys_erase]
    | repeatedValue split | repeatedStatement split =>
      rw [split.others]
      simp [Slots.names, FieldMode.sort, FieldSpec.takes, FieldMode.isRepeated,
        SortedMap.keys_filterKeys]
  · rw [others same]
    cases Slots.take_eq_ok_iff.1 h <;> cases sort <;> first | rfl | exact absurd rfl same

/-- What the rows of a table leave. -/
theorem names_takeAll {declared : Option Nat} {s left : Slots α} {rows : List FieldSpec}
    {portions : List (Portion α)} (h : s.takeAll blockId declared rows = .ok (portions, left))
    (sort : SlotSort) :
    left.names sort =
      (s.names sort).filter fun name => rows.all fun row => !row.takes sort name := by
  induction rows generalizing s portions with
  | nil =>
    cases h
    exact (List.filter_eq_self.2 fun _ _ => rfl).symm
  | cons row rows ih =>
    obtain ⟨portion, s', others, first, rest, rfl⟩ := Slots.takeAll_cons_eq_ok_iff.1 h
    rw [ih rest, names_take first, List.filter_filter]
    simp only [List.all_cons, Bool.and_comm]

theorem perm_names_ofLayer {l : BlockLayer α} {s : Slots α} (h : Slots.ofLayer l = .ok s)
    (sort : SlotSort) : (s.names sort).Perm (l.names sort) := by
  obtain ⟨fields, values, statements⟩ := perm_keys_ofLayer h
  cases sort with
  | field => exact fields
  | value => exact values
  | statement => exact statements

/-- The slots of a block that rows leave. -/
theorem perm_leftNames {l : BlockLayer α} {s left : Slots α} (slotsOf : Slots.ofLayer l = .ok s)
    {declared : Option Nat} {rows : List FieldSpec} {portions : List (Portion α)}
    (h : s.takeAll blockId declared rows = .ok (portions, left)) (sort : SlotSort) :
    (left.names sort).Perm (l.leftNames rows sort) := by
  rw [names_takeAll h]
  exact (perm_names_ofLayer slotsOf sort).filter _

theorem not_rowFault_of_takeAll {l : BlockLayer α} {slots left : Slots α} {declared : Option Nat}
    (slotsOf : Slots.ofLayer l = .ok slots) {before after : List FieldSpec} {row : FieldSpec}
    {portions : List (Portion α)}
    (h : slots.takeAll l.id declared (before ++ row :: after) = .ok (portions, left))
    {fault : BlockFault} : ¬ RowFault declared (l.leftNames before row.mode.sort) row fault := by
  obtain ⟨_, s, _, earlier, later, -⟩ := Slots.takeAll_append_eq_ok_iff.1 h
  obtain ⟨p, s', others, first, -⟩ := Slots.takeAll_cons_eq_ok_iff.1 later
  intro wrong
  exact not_rowFault_of_take first (wrong.perm (perm_leftNames slotsOf earlier _).symm)

/-! ## Layouts -/

/-- Entries are not put under their names if a name stands there twice. -/
theorem twice_of_indexed {entries : List (String × α)} {e : Error}
    (h : indexed blockId entries = .error e) :
    ∃ name, e = .malformed blockId (.duplicateSlot name) ∧ 1 < (entries.map (·.1)).count name := by
  obtain ⟨before, i, after, m, rfl, earlier, step⟩ :=
    Except.exists_error_of_foldlM (f := indexStep blockId) h
  rw [indexStep] at step
  split at step
  · next there =>
    cases step
    obtain ⟨-, same⟩ := indexed_eq_ok_iff.1 earlier
    have mem : i.1 ∈ before.map (·.1) :=
      (same.map (·.1)).mem_iff.1 (SortedMap.contains_iff.1 there)
    have first := List.count_pos_iff.2 mem
    refine ⟨i.1, rfl, ?_⟩
    rw [List.map_append, List.count_append, List.map_cons, List.count_cons_self]
    omega
  · cases step

theorem twice_of_ofLayer {l : BlockLayer α} {e : Error} (h : Slots.ofLayer l = .error e) :
    ∃ sort name, e = .malformed l.id (.duplicateSlot name) ∧ 1 < (l.names sort).count name := by
  rw [Slots.ofLayer] at h
  rcases Except.bind_eq_error_iff.1 h with h | ⟨fields, -, h⟩
  · obtain ⟨name, rfl, twice⟩ := twice_of_indexed h
    rw [List.map_map] at twice
    exact ⟨.field, name, rfl, twice⟩
  rcases Except.bind_eq_error_iff.1 h with h | ⟨values, -, h⟩
  · obtain ⟨name, rfl, twice⟩ := twice_of_indexed h
    rw [List.map_map] at twice
    exact ⟨.value, name, rfl, twice⟩
  rcases Except.bind_eq_error_iff.1 h with h | ⟨statements, -, h⟩
  · obtain ⟨name, rfl, twice⟩ := twice_of_indexed h
    rw [List.map_map] at twice
    exact ⟨.statement, name, rfl, twice⟩
  · cases h

theorem unreadable_of_declaredCount {kind : Kind} {l : BlockLayer α} {e : Error}
    (h : declaredCount kind l.id l.attributes.mutation = .error e) :
    ∃ text, e = .malformed l.id (.badBranchCount text) ∧ kind = .ifElse ∧
      l.attributes.mutation.get? "elseif" = some text ∧ l.branches? = none := by
  rw [declaredCount] at h
  split at h
  · next conditional =>
    rw [BlockLayer.branches?]
    cases entry : l.attributes.mutation.get? "elseif" with
    | none =>
      rw [entry] at h
      cases h
    | some text =>
      simp only [entry] at h
      cases count : readCount? text with
      | none =>
        rw [count] at h
        cases h
        exact ⟨text, rfl, conditional, rfl, by simp [count]⟩
      | some n =>
        simp only [count] at h
        split at h
        · cases h
        · next large =>
          cases h
          exact ⟨text, rfl, conditional, rfl, by simp [count, large]⟩
  · cases h

theorem blamed_of_layout {registry : KindRegistry} {d : Document} {b : Block} {e : Error}
    (h : Layout.of registry b.layer = .error e) : b.Blamed registry d e := by
  rw [Layout.of] at h
  cases known : registry.lookup b.layer.type with
  | none =>
    rw [known] at h
    cases h
    exact ⟨_, rfl, .unknownType known⟩
  | some kind =>
    simp only [known] at h
    rcases Except.bind_eq_error_iff.1 h with h | ⟨slots, -, h⟩
    · obtain ⟨sort, name, rfl, twice⟩ := twice_of_ofLayer h
      exact ⟨_, rfl, .duplicateSlot twice⟩
    rcases Except.bind_eq_error_iff.1 h with h | ⟨declared, -, h⟩
    · obtain ⟨text, rfl, rfl, entry, unreadable⟩ := unreadable_of_declaredCount h
      exact ⟨_, rfl, .badBranchCount known entry unreadable⟩
    · cases h

theorem eq_declared? {kind : Kind} {l : BlockLayer α} {declared : Option Nat}
    (h : declaredCount kind l.id l.attributes.mutation = .ok declared) :
    declared = l.declared? kind := by
  have count := declaredCount_eq_ok_iff.1 h
  rw [BlockLayer.declared?]
  split
  · next conditional =>
    rw [if_pos conditional] at count
    obtain ⟨n, branches, rfl⟩ := count
    exact branches.symm
  · next other => rwa [if_neg other] at count

variable {registry : KindRegistry} {d : Document} {b : Block} {kind : Kind} {e : Error}

/-! ## Contents of rows -/

/-- What is made of a portion fits its row. -/
theorem fits_of_content {row : FieldSpec} {p : Portion Block} {v : SlotValue Node} (of : p.Of row)
    (h : p.content registry = .ok v) :
    v.fits row.mode = true ∧ ∀ text, v = .literal text → (row.external, text) ∈ p.fields := by
  cases of with
  | literal =>
    cases h
    refine ⟨rfl, fun text same => ?_⟩
    cases same
    exact List.mem_singleton_self _
  | @optionalStatement name internal blocks =>
    cases blocks with
    | nil =>
      cases h
      exact ⟨rfl, fun text same => by cases same⟩
    | cons =>
      obtain ⟨_, -, made⟩ := Except.bind_eq_ok_iff.1 h
      cases made
      exact ⟨rfl, fun text same => by cases same⟩
  | _ =>
    obtain ⟨_, -, made⟩ := Except.bind_eq_ok_iff.1 h
    cases made
    exact ⟨rfl, fun text same => by cases same⟩

/-- What is made of the portions of a table fits it, and its texts are those of the portions. -/
theorem fits_of_filled {P : String → String → Prop} {rows : List FieldSpec}
    {portions : List (Portion Block)} {vs : List (SlotValue Node)}
    (of : List.Forall₂ (fun row p => p.Of row) rows portions)
    (filled : List.Forall₂ (fun p v => p.content registry = .ok v) portions vs)
    (fields : ∀ p ∈ portions, ∀ e ∈ p.fields, P e.1 e.2) :
    List.Forall₂ (fun row v => v.fits row.mode = true ∧
      ∀ text, v = .literal text → P row.external text) rows vs := by
  induction of generalizing vs with
  | nil =>
    cases filled
    exact .nil
  | cons first _ ih =>
    obtain ⟨v, vs, read, rest, rfl⟩ := List.forall₂_cons_left_iff.1 filled
    rw [List.forall_mem_cons] at fields
    obtain ⟨fits, text⟩ := fits_of_content first read
    exact .cons ⟨fits, fun t same => fields.1 _ (text t same)⟩ (ih rest fields.2)

/-- A last branch that is not declared is there. -/
theorem exists_last_of_not {l : BlockLayer Block}
    (readable : l.attributes.mutation.get? "else" ∈ [none, some "0", some "1"])
    (h : ¬ l.LastDeclared) :
    ∃ s ∈ l.statements, s.name = "ELSE" ∧ s.blocks ≠ [] ∧
      l.attributes.mutation.get? "else" ≠ some "1" := by
  by_contra none
  refine h ⟨readable, fun present => ?_⟩
  obtain ⟨s, hs, name, blocks⟩ := present
  by_contra undeclared
  exact none ⟨s, hs, name, blocks, undeclared⟩

theorem blamed_of_checkElse (known : registry.lookup b.layer.type = some .ifElse) {p : Phrase Node}
    (last : checkElse b.layer.id b.layer.attributes.mutation p = .ok () ↔ b.layer.LastDeclared)
    (h : checkElse b.layer.id b.layer.attributes.mutation p = .error e) :
    b.Blamed registry d e := by
  have undeclared : ¬ b.layer.LastDeclared := fun declared => by
    rw [last.2 declared] at h
    cases h
  cases p with
  | ifElse conditions branches otherwise =>
    rw [checkElse] at h
    split at h
    · next entry =>
      split at h <;> cases h
      obtain ⟨s, hs, name, blocks, no⟩ := exists_last_of_not (by simp [entry]) undeclared
      exact ⟨_, rfl, .undeclaredElse known hs name blocks no⟩
    · next entry =>
      split at h <;> cases h
      obtain ⟨s, hs, name, blocks, no⟩ := exists_last_of_not (by simp [entry]) undeclared
      exact ⟨_, rfl, .undeclaredElse known hs name blocks no⟩
    · cases h
    · next text zero one entry =>
      cases h
      exact ⟨_, rfl, .badElse known entry ⟨zero, one⟩⟩
  | _ => cases h

theorem mem_names_of_leftover? {s : Slots α} {name : String} (h : s.leftover? = some name) :
    ∃ sort, name ∈ s.names sort := by
  have mem := List.mem_of_head? h
  rw [List.mem_append, List.mem_append] at mem
  rcases mem with (mem | mem) | mem
  · exact ⟨.field, mem⟩
  · exact ⟨.value, mem⟩
  · exact ⟨.statement, mem⟩

/-- What is in a portion is in the slots of the block. -/
structure Portion.Within (p : Portion α) (l : BlockLayer α) : Prop where
  fields : ∀ e ∈ p.fields, ⟨e.1, e.2⟩ ∈ l.fields
  values : ∀ e ∈ p.values, ⟨e.1, e.2⟩ ∈ l.values
  statements : ∀ e ∈ p.statements, ⟨e.1, e.2⟩ ∈ l.statements

theorem within_of_takeAll {l : BlockLayer α} {slots left : Slots α} {declared : Option Nat}
    {rows : List FieldSpec} {portions : List (Portion α)} (slotsOf : Slots.ofLayer l = .ok slots)
    (taken : slots.takeAll blockId declared rows = .ok (portions, left)) :
    ∀ p ∈ portions, p.Within l := by
  obtain ⟨⟨-, fields⟩, ⟨-, values⟩, -, statements⟩ := Slots.ofLayer_eq_ok_iff.1 slotsOf
  have shares := Slots.shares_of_takeAll taken
  refine fun p hp => ⟨fun e he => ?_, fun e he => ?_, fun e he => ?_⟩
  · have mem := shares.fields.mem_iff.2 (List.mem_append_left _ (List.mem_flatMap.2 ⟨p, hp, he⟩))
    obtain ⟨s, hs, rfl⟩ := List.mem_map.1 (fields.mem_iff.1 mem)
    exact hs
  · have mem := shares.values.mem_iff.2 (List.mem_append_left _ (List.mem_flatMap.2 ⟨p, hp, he⟩))
    obtain ⟨s, hs, rfl⟩ := List.mem_map.1 (values.mem_iff.1 mem)
    exact hs
  · have mem := shares.statements.mem_iff.2
      (List.mem_append_left _ (List.mem_flatMap.2 ⟨p, hp, he⟩))
    obtain ⟨s, hs, rfl⟩ := List.mem_map.1 (statements.mem_iff.1 (List.mem_filter.1 mem).1)
    exact hs

theorem Portion.Within.mem_children {p : Portion α} {l : BlockLayer α} (h : p.Within l) {c : α}
    (hc : c ∈ p.blocks) : c ∈ l.children := by
  rcases List.mem_append.1 hc with hc | hc
  · obtain ⟨e, he, rfl⟩ := List.mem_map.1 hc
    exact List.mem_append_left _ (List.mem_map_of_mem (h.values e he))
  · obtain ⟨e, he, hc⟩ := List.mem_flatMap.1 hc
    exact List.mem_append_right _ (List.mem_flatMap.2 ⟨_, h.statements e he, hc⟩)

/-- A phrase of contents that suit its table can be built, and then only its last branch matters. -/
theorem buildable_of_filled {l : BlockLayer Block} {p : Phrase Node}
    {portions : List (Portion Block)} (divided : divide registry l = .ok (p.kind, portions))
    (block : p.kind.blockType.isSome)
    (filled : List.Forall₂ (fun q v => q.content registry = .ok v) portions
      (p.slots.map (SlotValue.map Node.bare)))
    (suits : List.Forall₂ (fun row v => v.suits p.kind row = true) p.kind.fields p.slots) :
    p.Buildable ∧ (p.kind = .ifElse →
      (checkElse l.id l.attributes.mutation p = .ok () ↔ l.LastDeclared)) := by
  by_cases conditional : p.kind = .ifElse
  · rw [conditional] at divided
    rw [← Phrase.slots_map] at filled
    obtain ⟨buildable, last⟩ :=
      conditional_of_content ((p.kind_map Node.bare).trans conditional) divided filled
    rw [checkElse_map] at last
    exact ⟨(Phrase.buildable_map_iff Node.bare p).1 buildable, fun _ => last⟩
  · exact ⟨buildable_of_suits conditional block suits, fun same => absurd same conditional⟩

/-- If the contents of the rows make no phrase, then because of a slot that no row takes, of a text,
or of the last branch. -/
theorem blamed_of_assemble {β : Type} (consistent : registry.Consistent)
    (known : registry.lookup b.layer.type = some kind) {slots left : Slots Block}
    {declared : Option Nat} {portions : List (Portion Block)}
    (slotsOf : Slots.ofLayer b.layer = .ok slots)
    (count : declaredCount kind b.layer.id b.layer.attributes.mutation = .ok declared)
    (taken : slots.takeAll b.layer.id declared kind.fields = .ok (portions, left))
    {vs : List (SlotValue Node)}
    (filled : List.Forall₂ (fun p v => p.content registry = .ok v) portions
      (vs.map (SlotValue.map Node.bare)))
    {f : Block → β} (h : assemble (b.layer.map f) kind vs (left.map f) = .error e) :
    b.Blamed registry d e := by
  rw [assemble, Slots.leftover?_map] at h
  cases unused : left.leftover? with
  | some name =>
    rw [unused] at h
    cases h
    obtain ⟨sort, mem⟩ := mem_names_of_leftover? unused
    exact ⟨_, rfl, .unusedSlot known ((perm_leftNames slotsOf taken sort).mem_iff.1 mem)⟩
  | none =>
    rw [unused] at h
    change (Phrase.build kind b.layer.id vs >>= fun p =>
      checkElse b.layer.id b.layer.attributes.mutation p >>= fun _ => pure p) = .error e at h
    obtain rfl := Slots.leftover?_eq_none_iff.1 unused
    have divided : divide registry b.layer = .ok (kind, portions) :=
      divide_eq_ok_iff.2 ⟨slots, declared, known, slotsOf, count, taken⟩
    have block : kind.blockType.isSome := by rw [consistent _ _ known]; rfl
    have fits := fits_of_filled (P := fun name text => ⟨name, text⟩ ∈ b.layer.fields)
      (Slots.of_takeAll taken) filled fun p hp => (within_of_takeAll slotsOf taken p hp).fields
    rw [List.forall₂_map_right_iff] at fits
    simp only [Phrase.fits_map] at fits
    rcases Phrase.suits_or_misspelled fits with
      suits | ⟨before, row, after, us, text, ws, table, rfl, before_fit, misspelled, field⟩
    · obtain ⟨p, rfl, rfl⟩ := Phrase.exists_slots_eq block suits
      obtain ⟨buildable, last⟩ := buildable_of_filled divided block filled suits
      have made : Phrase.build p.kind b.layer.id p.slots = .ok p :=
        Phrase.build_eq_ok_iff.2 ⟨rfl, rfl, buildable⟩
      rw [made] at h
      change (checkElse b.layer.id b.layer.attributes.mutation p >>= fun _ => pure p) =
        .error e at h
      rcases Except.bind_eq_error_iff.1 h with h | ⟨_, -, h⟩
      · by_cases conditional : p.kind = .ifElse
        · exact blamed_of_checkElse (conditional ▸ known) (last conditional) h
        · rw [checkElse_of_ne conditional] at h
          cases h
      · cases h
    · have refused : Phrase.Refuses b.layer.id row.external text
          (Phrase.build kind b.layer.id (us ++ .literal text :: ws)) :=
        Phrase.refuses_of_misspelled table before_fit misspelled
      rcases refused with refused | refused <;> rw [refused] at h <;> cases h
      · exact ⟨_, rfl, .badChoice known (field text rfl) misspelled⟩
      · exact ⟨_, rfl, .badFlag known (field text rfl) misspelled⟩

end Mapping

end BlockGraph

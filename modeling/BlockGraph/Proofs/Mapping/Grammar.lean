import BlockGraph.Proofs.Mapping.RoundTrip
import BlockGraph.Proofs.Mapping.Table
import Mathlib.Data.List.Perm.Basic

/-!
# The grammar of core documents

Which documents are read with the core kinds, block by block: what a block may hold follows from
the table of its kind and from the types of the blocks directly inside.

* `BlockLayer.Grammatical`: what is asked of one block.
* `Program.exists_ofDocument_iff`: the documents that are read.
-/

namespace BlockGraph

open Mapping

/-! ## The grammar -/

/-- Whether a block is of a core type that fills value slots. -/
def Block.IsExpression (b : Block) : Prop :=
  ∃ kind, KindRegistry.core.lookup b.layer.type = some kind ∧ kind.isExpression = true

namespace BlockLayer

def fieldNames {α : Type} (l : BlockLayer α) : List String := l.fields.map (·.name)
def valueNames {α : Type} (l : BlockLayer α) : List String := l.values.map (·.name)
def statementNames {α : Type} (l : BlockLayer α) : List String := l.statements.map (·.name)

/-- The number of branches that the entries of a conditional declare. -/
def branches? {α : Type} (l : BlockLayer α) : Option Nat :=
  match l.attributes.mutation.get? "elseif" with
  | none => some 1
  | some text => (readCount? text).bind fun n => if n < maxCount then some (n + 1) else none

/-- The slots of a block that is no conditional are rows of its table. -/
structure Tabular {α : Type} (l : BlockLayer α) (kind : Kind) : Prop where
  values : ∀ name ∈ l.valueNames, name ∈ rowNames [.value] kind.fields
  statements : ∀ name ∈ l.statementNames,
    name ∈ rowNames [.statement, .optionalStatement] kind.fields

/-- The slots of a conditional are the conditions and branches that it declares, and perhaps a last
branch. Not too many of them are absent. -/
structure Branched {α : Type} (l : BlockLayer α) (count : Nat) : Prop where
  declared : l.branches? = some count
  values : ∀ name ∈ l.valueNames, IsMember "IF" count name
  fewValues : absent "IF" count l.valueNames ≤ 64
  statements : ∀ name ∈ l.statementNames, name = "ELSE" ∨ IsMember "DO" count name
  fewStatements : absent "DO" count l.statementNames ≤ 64

/-- A conditional declares whether it has a last branch. Without it there are no blocks there. -/
structure LastDeclared {α : Type} (l : BlockLayer α) : Prop where
  readable : l.attributes.mutation.get? "else" ∈ [none, some "0", some "1"]
  present : (∃ s ∈ l.statements, s.name = "ELSE" ∧ s.blocks ≠ []) →
    l.attributes.mutation.get? "else" = some "1"

/-- What is asked of the slots of a block of the given kind. -/
structure Obeys (l : BlockLayer Block) (kind : Kind) : Prop where
  fieldsDistinct : l.fieldNames.Nodup
  valuesDistinct : l.valueNames.Nodup
  statementsDistinct : l.statementNames.Nodup
  fields : ∀ name, name ∈ l.fieldNames ↔ name ∈ rowNames [.literal] kind.fields
  slots : if kind = .ifElse then ∃ count, l.Branched count else l.Tabular kind
  spelled : ∀ s ∈ l.fields, kind.allows s.name s.value = true
  last : kind = .ifElse → l.LastDeclared
  values : ∀ s ∈ l.values, s.block.IsExpression
  statements : ∀ s ∈ l.statements, ∀ b ∈ s.blocks, ¬ b.IsExpression

/-- What is asked of one block: the id, the type and the slots. -/
structure Grammatical (l : BlockLayer Block) : Prop where
  named : l.id ≠ ""
  known : ∃ kind, KindRegistry.core.lookup l.type = some kind ∧ l.Obeys kind

end BlockLayer

/-- The grammar of documents of core blocks. Any block may stand on the canvas. -/
structure Document.Grammatical (d : Document) : Prop where
  version : d.formatVersion ∈ supportedVersions
  distinct : (d.blocks.map (·.layer.id)).Nodup
  blocks : ∀ b ∈ d.blocks, b.layer.Grammatical

namespace Mapping

variable {α : Type} {registry : KindRegistry}

/-! ## Slots -/

theorem declaredCount_eq_ok_iff {kind : Kind} {l : BlockLayer α} {declared : Option Nat} :
    declaredCount kind l.id l.attributes.mutation = .ok declared ↔
      if kind = .ifElse then ∃ count, l.branches? = some count ∧ declared = some count
      else declared = none := by
  rw [declaredCount, BlockLayer.branches?]
  by_cases conditional : kind = .ifElse
  · simp only [conditional, if_true]
    cases l.attributes.mutation.get? "elseif" with
    | none => simp [eq_comm]
    | some text =>
      rcases count : readCount? text with _ | n
      · simp [count]
      · by_cases small : n < maxCount <;> simp [count, small, eq_comm]
  · simp [conditional, eq_comm]

/-- A conditional has a branch, and not too many to count. -/
theorem branches?_bounds {l : BlockLayer α} {count : Nat} (h : l.branches? = some count) :
    0 < count ∧ count ≤ maxCount := by
  rw [BlockLayer.branches?] at h
  split at h
  · cases h
    exact ⟨by decide, by decide⟩
  · obtain ⟨n, -, h⟩ := Option.bind_eq_some_iff.1 h
    split at h <;> cases h
    exact ⟨Nat.succ_pos n, ‹_›⟩

/-- The slots of a block have the names that they have there. -/
theorem perm_keys_ofLayer {l : BlockLayer α} {s : Slots α} (h : Slots.ofLayer l = .ok s) :
    s.fields.keys.Perm l.fieldNames ∧ s.values.keys.Perm l.valueNames ∧
      s.statements.keys.Perm l.statementNames := by
  obtain ⟨⟨-, fields⟩, ⟨-, values⟩, -, statements⟩ := Slots.ofLayer_eq_ok_iff.1 h
  refine ⟨?_, ?_, ?_⟩
  · simpa [SortedMap.keys, BlockLayer.fieldNames, Function.comp_def] using fields.map (·.1)
  · simpa [SortedMap.keys, BlockLayer.valueNames, Function.comp_def] using values.map (·.1)
  · simpa [SortedMap.keys, BlockLayer.statementNames, Function.comp_def] using
      statements.map (·.1)

theorem exists_ofLayer_iff {l : BlockLayer α} : (∃ s, Slots.ofLayer l = .ok s) ↔
    l.fieldNames.Nodup ∧ l.valueNames.Nodup ∧ l.statementNames.Nodup := by
  simp only [Slots.ofLayer_eq_ok_iff]
  refine ⟨fun h => ?_, fun h => ?_⟩
  · obtain ⟨s, ⟨fields, -⟩, ⟨values, -⟩, statements, -⟩ := h
    exact ⟨fields, values, statements⟩
  · obtain ⟨fields, values, statements⟩ := h
    refine ⟨⟨.ofList _, .ofList _, .ofList _⟩, ⟨fields, SortedMap.entries_ofList_perm ?_⟩,
      ⟨values, SortedMap.entries_ofList_perm ?_⟩, statements, SortedMap.entries_ofList_perm ?_⟩
    · simpa [BlockLayer.fieldNames, Function.comp_def] using fields
    · simpa [BlockLayer.valueNames, Function.comp_def] using values
    · simpa [BlockLayer.statementNames, Function.comp_def] using statements

theorem absent_congr {family : String} {count : Nat} {names names' : List String}
    (same : ∀ name, name ∈ names ↔ name ∈ names') :
    absent family count names = absent family count names' := by
  simp only [absent, same]

/-- The tables of core kinds but that of conditionals have no families, and no text twice. -/
theorem plain_core : ∀ kind ∈ Kind.coreBlockKinds, kind ≠ .ifElse →
    (∀ row ∈ kind.fields, isFamily row = false) ∧ (rowNames [.literal] kind.fields).Nodup := by
  decide +kernel

theorem takeAll_core_iff {l : BlockLayer α} {kind : Kind} (core : kind ∈ Kind.coreBlockKinds)
    (conditional : kind ≠ .ifElse) {s : Slots α} (slotsOf : Slots.ofLayer l = .ok s) :
    (∃ portions, s.takeAll l.id none kind.fields = .ok (portions, {})) ↔
      (∀ name, name ∈ l.fieldNames ↔ name ∈ rowNames [.literal] kind.fields) ∧ l.Tabular kind := by
  obtain ⟨fields, values, statements⟩ := perm_keys_ofLayer slotsOf
  obtain ⟨plain, distinct⟩ := plain_core kind core conditional
  rw [exists_takeAll_iff plain distinct]
  simp only [fields.mem_iff, values.mem_iff, statements.mem_iff]
  exact and_congr_right fun _ => ⟨fun h => ⟨h.1, h.2⟩, fun h => ⟨h.values, h.statements⟩⟩

theorem takeAll_conditional_iff {l : BlockLayer α} {count : Nat}
    (declared : l.branches? = some count) {s : Slots α} (slotsOf : Slots.ofLayer l = .ok s) :
    (∃ portions, s.takeAll l.id (some count) Kind.ifElse.fields = .ok (portions, {})) ↔
      (∀ name, name ∈ l.fieldNames ↔ name ∈ rowNames [.literal] Kind.ifElse.fields) ∧
        l.Branched count := by
  obtain ⟨fields, values, statements⟩ := perm_keys_ofLayer slotsOf
  have none (name : String) : name ∉ rowNames [.literal] Kind.ifElse.fields := by
    simp [rowNames, Kind.fields]
  rw [exists_takeAll_ifElse_iff (branches?_bounds declared).2, SortedMap.eq_empty_iff,
    absent_congr fun _ => values.mem_iff, absent_congr fun _ => statements.mem_iff]
  simp only [fields.mem_iff, values.mem_iff, statements.mem_iff, none, iff_false]
  refine and_congr_right fun _ => ⟨fun h => ?_, fun h => ?_⟩
  · obtain ⟨⟨values, fewValues⟩, statements, fewStatements⟩ := h
    exact ⟨declared, values, fewValues, statements, fewStatements⟩
  · exact ⟨⟨h.values, h.fewValues⟩, h.statements, h.fewStatements⟩

/-- Which blocks can be divided: the names of their slots decide. -/
theorem exists_divide_iff {l : BlockLayer α} {kind : Kind}
    (known : KindRegistry.core.lookup l.type = some kind) :
    (∃ portions, divide .core l = .ok (kind, portions)) ↔
      (l.fieldNames.Nodup ∧ l.valueNames.Nodup ∧ l.statementNames.Nodup) ∧
        (∀ name, name ∈ l.fieldNames ↔ name ∈ rowNames [.literal] kind.fields) ∧
          if kind = .ifElse then ∃ count, l.Branched count else l.Tabular kind := by
  have parts : (∃ portions, divide .core l = .ok (kind, portions)) ↔ ∃ slots,
      Slots.ofLayer l = .ok slots ∧ ∃ declared,
        declaredCount kind l.id l.attributes.mutation = .ok declared ∧
          ∃ portions, slots.takeAll l.id declared kind.fields = .ok (portions, {}) := by
    simp only [divide_eq_ok_iff, known, true_and]
    refine ⟨fun h => ?_, fun h => ?_⟩
    · obtain ⟨ps, s, d, of, count, taken⟩ := h
      exact ⟨s, of, d, count, ps, taken⟩
    · obtain ⟨s, of, d, count, ps, taken⟩ := h
      exact ⟨ps, s, d, of, count, taken⟩
  rw [parts, ← exists_ofLayer_iff]
  refine Iff.trans (exists_congr fun s => and_congr_right fun slotsOf => ?_) exists_and_right
  simp only [declaredCount_eq_ok_iff]
  by_cases conditional : kind = .ifElse
  · subst conditional
    simp only [if_true]
    refine ⟨fun h => ?_, fun h => ?_⟩
    · obtain ⟨_, ⟨count, declared, rfl⟩, taken⟩ := h
      obtain ⟨fields, branched⟩ := (takeAll_conditional_iff declared slotsOf).1 taken
      exact ⟨fields, count, branched⟩
    · obtain ⟨fields, count, branched⟩ := h
      exact ⟨_, ⟨count, branched.declared, rfl⟩,
        (takeAll_conditional_iff branched.declared slotsOf).2 ⟨fields, branched⟩⟩
  · simp only [conditional, if_false, exists_eq_left]
    exact takeAll_core_iff (KindRegistry.lookup_core known).1 conditional slotsOf

/-! ## Contents -/

theorem suits_iff_of_content {kind : Kind} {row : FieldSpec} {p : Portion Block}
    {v : SlotValue Node} (of : p.Of row) (h : p.content registry = .ok v) :
    v.suits kind row = true ↔ ∀ e ∈ p.fields, kind.allows e.1 e.2 = true := by
  cases of with
  | literal =>
    cases h
    simp [SlotValue.suits, Portion.fields]
  | @optionalStatement name internal blocks =>
    cases blocks with
    | nil =>
      cases h
      exact iff_of_true rfl (by simp [Portion.fields])
    | cons =>
      obtain ⟨_, -, e⟩ := Except.bind_eq_ok_iff.1 h
      cases e
      exact iff_of_true rfl (by simp [Portion.fields])
  | _ =>
    obtain ⟨_, -, e⟩ := Except.bind_eq_ok_iff.1 h
    cases e
    exact iff_of_true rfl (by simp [Portion.fields])

/-- Contents suit a table if the texts among them are allowed. -/
theorem forall₂_suits_iff {kind : Kind} {specs : List FieldSpec} {portions : List (Portion Block)}
    {vs : List (SlotValue Node)} (of : List.Forall₂ (fun row p => p.Of row) specs portions)
    (filled : List.Forall₂ (fun p v => p.content registry = .ok v) portions vs) :
    List.Forall₂ (fun row v => v.suits kind row = true) specs vs ↔
      ∀ e ∈ portions.flatMap Portion.fields, kind.allows e.1 e.2 = true := by
  induction of generalizing vs with
  | nil =>
    cases filled
    exact iff_of_true .nil (by simp)
  | cons first others ih =>
    obtain ⟨v, vs, read, rest, rfl⟩ := List.forall₂_cons_left_iff.1 filled
    rw [List.forall₂_cons, ih rest, suits_iff_of_content first read, List.flatMap_cons,
      List.forall_mem_append]

/-- Whether a block has a content that is, or is not, an expression. -/
def HasContent (registry : KindRegistry) (isExpression : Bool) (b : Block) : Prop :=
  ∃ n, content registry b = .ok n ∧ n.kind.isExpression = isExpression

/-- Portions have contents if all blocks in them have one and stand where they may. -/
theorem exists_contents_iff {portions : List (Portion Block)} :
    (∃ vs, List.Forall₂ (fun p v => p.content registry = .ok v) portions vs) ↔
      (∀ e ∈ portions.flatMap Portion.values, HasContent registry true e.2) ∧
        ∀ e ∈ portions.flatMap Portion.statements, ∀ b ∈ e.2, HasContent registry false b := by
  simp only [Except.exists_forall₂_iff, exists_portionContent_iff, List.forall_mem_flatMap]
  exact forall₂_and

/-- What holds of the portions of a block holds of its slots. -/
theorem forall_slots_iff {l : BlockLayer Block} {kind : Kind} {portions : List (Portion Block)}
    (divided : divide registry l = .ok (kind, portions)) {P : String → String → Prop}
    {Q R : Block → Prop} :
    (∀ e ∈ portions.flatMap Portion.fields, P e.1 e.2) ∧
        (∀ e ∈ portions.flatMap Portion.values, Q e.2) ∧
        (∀ e ∈ portions.flatMap Portion.statements, ∀ b ∈ e.2, R b) ↔
      (∀ s ∈ l.fields, P s.name s.value) ∧ (∀ s ∈ l.values, Q s.block) ∧
        ∀ s ∈ l.statements, ∀ b ∈ s.blocks, R b := by
  have same := rearranged_of_divide divided
  have statements : (∀ s ∈ l.statements, ∀ b ∈ s.blocks, R b) ↔
      ∀ s ∈ (tidyLayer l portions).statements, ∀ b ∈ s.blocks, R b := by
    simp only [← same.statements.mem_iff, List.mem_filter, and_imp]
    refine forall₂_congr fun s _ => ⟨fun all _ => all, fun all b hb => all ?_ b hb⟩
    rw [Bool.not_eq_true', List.isEmpty_eq_false_iff]
    exact List.ne_nil_of_mem hb
  rw [statements]
  simp only [same.fields.mem_iff, same.values.mem_iff, tidyLayer, List.forall_mem_map]

theorem kind_of_content {b : Block} {n : Node} (h : content registry b = .ok n) :
    registry.lookup b.layer.type = some n.kind := by
  obtain ⟨l⟩ := b
  obtain ⟨-, portions, p, divided, -, -, -, rfl⟩ := content_eq_ok_iff.1 h
  obtain ⟨_, _, known, -⟩ := divide_eq_ok_iff.1 divided
  exact known

/-! ## Conditionals -/

/-- What a conditional is divided into: as many conditions as branches, and the last branch. -/
theorem ifElse_of_divide {l : BlockLayer Block} {portions : List (Portion Block)}
    (h : divide registry l = .ok (.ifElse, portions)) :
    ∃ conditions branches blocks, portions =
        [.repeatedValue conditions, .repeatedStatement branches, .optionalStatement "ELSE" blocks] ∧
      conditions ≠ [] ∧ conditions.length = branches.length ∧
      (blocks ≠ [] ↔ ∃ s ∈ l.statements, s.name = "ELSE" ∧ s.blocks ≠ []) := by
  obtain ⟨slots, _, -, slotsOf, count, taken⟩ := divide_eq_ok_iff.1 h
  obtain ⟨n, declared, rfl⟩ := (declaredCount_eq_ok_iff (l := l)).1 count
  obtain ⟨_, _, _, _, _, _, _, rfl⟩ := takeAll_ifElse_iff.1 taken
  have pos := (branches?_bounds declared).1
  refine ⟨_, _, _, rfl, ?_, by simp, ?_⟩
  · rw [← List.length_pos_iff]
    simpa using pos
  · obtain ⟨-, -, -, statements⟩ := Slots.ofLayer_eq_ok_iff.1 slotsOf
    have mem (blocks : List Block) : slots.statements.get? "ELSE" = some blocks ↔
        ∃ s ∈ l.statements, s.name = "ELSE" ∧ s.blocks = blocks := by
      rw [SortedMap.get?_eq_some_iff, statements.mem_iff]
      simp
    refine ⟨fun ne => ?_, fun h => ?_⟩
    · cases last : slots.statements.get? "ELSE" with
      | none => exact absurd (by rw [last]; rfl) ne
      | some blocks =>
        rw [last] at ne
        obtain ⟨s, hs, name, rfl⟩ := (mem blocks).1 last
        exact ⟨s, hs, name, ne⟩
    · obtain ⟨s, hs, name, ne⟩ := h
      rwa [(mem s.blocks).2 ⟨s, hs, name, rfl⟩]

/-- The entry for the last branch is checked against the last branch. -/
theorem checkElse_eq_ok_iff {blockId : String} {mutation : SortedMap String String}
    {conditions branches : List Node} {otherwise : Option Node} :
    checkElse blockId mutation (.ifElse conditions branches otherwise) = .ok () ↔
      mutation.get? "else" ∈ [none, some "0", some "1"] ∧
        (otherwise.isSome → mutation.get? "else" = some "1") := by
  rw [checkElse]
  split
  · next e => simp [e]
  · next e => simp [e]
  · next e => simp [e]
  · next text zero one e =>
    refine iff_of_false (fun h => by cases h) fun readable => ?_
    have mem := readable.1
    simp only [e, List.mem_cons, reduceCtorEq, Option.some.injEq, List.not_mem_nil, or_false,
      false_or] at mem
    exact mem.elim zero one

/-- A conditional is built if it declares its last branch. -/
theorem conditional_of_content {l : BlockLayer Block} {p : Phrase Node}
    {portions : List (Portion Block)} (kind : p.kind = .ifElse)
    (divided : divide registry l = .ok (.ifElse, portions))
    (filled : List.Forall₂ (fun p v => p.content registry = .ok v) portions p.slots) :
    p.Buildable ∧ (checkElse l.id l.attributes.mutation p = .ok () ↔ l.LastDeclared) := by
  obtain ⟨conditions, branches, blocks, rfl, ne, length, last⟩ := ifElse_of_divide divided
  cases p with
  | ifElse cs bs otherwise =>
    obtain ⟨first, filled⟩ := List.forall₂_cons.1 filled
    obtain ⟨second, filled⟩ := List.forall₂_cons.1 filled
    obtain ⟨third, -⟩ := List.forall₂_cons.1 filled
    have firstLength : conditions.length = cs.length := size_eq_of_content first
    have secondLength : branches.length = bs.length := size_eq_of_content second
    have present : otherwise.isSome = true ↔ blocks ≠ [] := by
      cases blocks with
      | nil =>
        cases third
        simp
      | cons =>
        obtain ⟨_, -, e⟩ := Except.bind_eq_ok_iff.1 third
        cases e
        simp
    refine ⟨⟨?_, by omega⟩, ?_⟩
    · rw [← List.length_pos_iff] at ne ⊢
      omega
    · rw [checkElse_eq_ok_iff, present, last]
      exact ⟨fun h => ⟨h.1, h.2⟩, fun h => ⟨h.readable, h.present⟩⟩
  | _ => cases kind

/-- Blocks that are no conditionals are built from all contents that suit. -/
theorem buildable_of_suits {p : Phrase Node} (conditional : p.kind ≠ .ifElse)
    (block : p.kind.blockType.isSome)
    (suits : List.Forall₂ (fun row v => v.suits p.kind row = true) p.kind.fields p.slots) :
    p.Buildable := by
  cases p with
  | stmtList | emptyExpr => cases block
  | ifElse => exact absurd rfl conditional
  | extension spec slots =>
    exact suits.imp fun row v h => (Phrase.suits_extension spec row v).symm.trans h
  | _ => trivial

theorem checkElse_of_ne {blockId : String} {mutation : SortedMap String String} {p : Phrase Node}
    (conditional : p.kind ≠ .ifElse) : checkElse blockId mutation p = .ok () := by
  cases p with
  | ifElse => exact absurd rfl conditional
  | _ => rfl

/-! ## Blocks -/

/-- Which blocks have a content: those with a content in all their slots that can be divided, and
whose texts are allowed. -/
theorem exists_content_iff (consistent : registry.Consistent) {l : BlockLayer Block} :
    (∃ n, content registry (.mk l) = .ok n) ↔ l.id ≠ "" ∧
      (∃ kind portions, divide registry l = .ok (kind, portions) ∧
        (∀ s ∈ l.fields, kind.allows s.name s.value = true) ∧
          (kind = .ifElse → l.LastDeclared)) ∧
      (∀ s ∈ l.values, HasContent registry true s.block) ∧
        ∀ s ∈ l.statements, ∀ b ∈ s.blocks, HasContent registry false b := by
  simp only [content_eq_ok_iff]
  refine ⟨fun h => ?_, fun h => ?_⟩
  · obtain ⟨_, named, portions, p, divided, filled, buildable, last, -⟩ := h
    obtain ⟨_, _, -, -, -, taken⟩ := divide_eq_ok_iff.1 divided
    have texts :=
      (forall₂_suits_iff (Slots.of_takeAll taken) filled).1 (Phrase.suits_slots buildable)
    have inside := exists_contents_iff.1 ⟨_, filled⟩
    obtain ⟨fields, values, statements⟩ := (forall_slots_iff divided
      (P := fun name text => p.kind.allows name text = true)).1 ⟨texts, inside⟩
    refine ⟨named, ⟨p.kind, portions, divided, fields, fun conditional => ?_⟩, values, statements⟩
    exact (conditional_of_content conditional (conditional ▸ divided) filled).2.1 last
  · obtain ⟨named, ⟨kind, portions, divided, fields, last⟩, values, statements⟩ := h
    obtain ⟨texts, inside⟩ := (forall_slots_iff divided
      (P := fun name text => kind.allows name text = true)).2 ⟨fields, values, statements⟩
    obtain ⟨vs, filled⟩ := exists_contents_iff.2 inside
    obtain ⟨_, _, known, -, -, taken⟩ := divide_eq_ok_iff.1 divided
    have block : kind.blockType.isSome := by rw [consistent _ _ known]; rfl
    have suits := (forall₂_suits_iff (Slots.of_takeAll taken) filled).2 texts
    obtain ⟨p, rfl, rfl⟩ := Phrase.exists_slots_eq block suits
    refine ⟨_, named, portions, p, divided, filled, ?_, ?_, rfl⟩
    · by_cases conditional : p.kind = .ifElse
      · exact (conditional_of_content conditional (conditional ▸ divided) filled).1
      · exact buildable_of_suits conditional block suits
    · by_cases conditional : p.kind = .ifElse
      · exact (conditional_of_content conditional (conditional ▸ divided) filled).2.2
          (last conditional)
      · exact checkElse_of_ne conditional

/-- The content of a core block is an expression if the block is one. -/
theorem hasContent_core_iff {isExpression : Bool} {b : Block} :
    HasContent .core isExpression b ↔
      (∃ n, content .core b = .ok n) ∧ (b.IsExpression ↔ isExpression = true) := by
  have same {n : Node} (read : content .core b = .ok n) :
      b.IsExpression ↔ n.kind.isExpression = true := by
    rw [Block.IsExpression, kind_of_content read]
    simp
  refine ⟨fun h => ?_, fun h => ?_⟩
  · obtain ⟨n, read, rfl⟩ := h
    exact ⟨⟨n, read⟩, same read⟩
  · obtain ⟨⟨n, read⟩, expression⟩ := h
    exact ⟨n, read, Bool.eq_iff_iff.2 ((same read).symm.trans expression)⟩

/-- A core block has a content if it is grammatical and the blocks directly inside have one. -/
theorem exists_content_core_iff {l : BlockLayer Block} :
    (∃ n, content .core (.mk l) = .ok n) ↔
      l.Grammatical ∧ ∀ b ∈ l.children, ∃ n, content .core b = .ok n := by
  rw [exists_content_iff KindRegistry.consistent_core, BlockLayer.children]
  simp only [hasContent_core_iff, List.forall_mem_append, List.forall_mem_map,
    List.forall_mem_flatMap, Bool.false_eq_true, iff_true, iff_false]
  refine ⟨fun h => ?_, fun h => ?_⟩
  · obtain ⟨named, ⟨kind, portions, divided, spelled, last⟩, values, statements⟩ := h
    obtain ⟨_, _, known, -⟩ := divide_eq_ok_iff.1 divided
    obtain ⟨⟨fieldsDistinct, valuesDistinct, statementsDistinct⟩, fields, slots⟩ :=
      (exists_divide_iff known).1 ⟨portions, divided⟩
    refine ⟨⟨named, kind, known, ?_⟩, fun s hs => (values s hs).1,
      fun s hs b hb => (statements s hs b hb).1⟩
    exact { fieldsDistinct, valuesDistinct, statementsDistinct, fields, slots, spelled, last
            values := fun s hs => (values s hs).2
            statements := fun s hs b hb => (statements s hs b hb).2 }
  · obtain ⟨⟨named, kind, known, h⟩, values, statements⟩ := h
    obtain ⟨portions, divided⟩ := (exists_divide_iff known).2
      ⟨⟨h.fieldsDistinct, h.valuesDistinct, h.statementsDistinct⟩, h.fields, h.slots⟩
    exact ⟨named, ⟨kind, portions, divided, h.spelled, h.last⟩,
      fun s hs => ⟨values s hs, h.values s hs⟩,
      fun s hs b hb => ⟨statements s hs b hb, h.statements s hs b hb⟩⟩

/-- A core block has a content if all blocks in it are grammatical. -/
theorem exists_content_iff_forall_preorder {b : Block} :
    (∃ n, content .core b = .ok n) ↔ ∀ c ∈ b.preorder, c.layer.Grammatical := by
  induction b using Block.induction with
  | step l ih =>
    rw [exists_content_core_iff, Block.preorder_mk, List.forall_mem_cons, List.forall_mem_flatMap]
    exact and_congr_right fun _ => forall₂_congr ih

/-! ## What is inside -/

section Found

variable {γ : Type} {f : Node → List γ}

/-- What `f` finds in the content of a block, if it has one. -/
def found (registry : KindRegistry) (f : Node → List γ) (b : Block) : List γ :=
  match content registry b with
  | .ok n => f n
  | .error _ => []

theorem found_of_content {b : Block} {n : Node} (h : content registry b = .ok n) :
    found registry f b = f n := by
  rw [found, h]

variable (structural : ∀ p, f (structuralContent p) = p.children.flatMap f)
include structural

theorem found_of_valueContent {slot : String} {o : Option Block} {n : Node}
    (h : valueContent registry slot o = .ok n) : f n = o.toList.flatMap (found registry f) := by
  cases o with
  | none =>
    cases h
    exact structural .emptyExpr
  | some b =>
    rw [Option.toList_some, List.flatMap_singleton]
    exact (found_of_content (valueContent_some_eq_ok_iff.1 h).1).symm

theorem found_of_chainContent {slot : Option String} {blocks : List Block} {n : Node}
    (h : chainContent registry slot blocks = .ok n) :
    f n = blocks.flatMap (found registry f) := by
  obtain ⟨ns, read, rfl⟩ := chainContent_eq_ok_iff.1 h
  rw [structural]
  exact Except.flatMap_eq_of_forall₂ read fun b n h => (found_of_content h.1).symm

/-- The nodes in a slot and the blocks that they come from are in the same order. -/
theorem found_of_portionContent {p : Portion Block} {v : SlotValue Node}
    (h : p.content registry = .ok v) :
    v.nodes.flatMap f = p.blocks.flatMap (found registry f) := by
  cases p with
  | literal =>
    cases h
    rfl
  | value slot b =>
    obtain ⟨n, read, e⟩ := Except.bind_eq_ok_iff.1 h
    cases e
    simpa [SlotValue.nodes] using found_of_valueContent structural read
  | statement slot blocks =>
    obtain ⟨n, read, e⟩ := Except.bind_eq_ok_iff.1 h
    cases e
    simpa [SlotValue.nodes] using found_of_chainContent structural read
  | optionalStatement slot blocks =>
    cases blocks with
    | nil =>
      cases h
      rfl
    | cons b blocks =>
      obtain ⟨n, read, e⟩ := Except.bind_eq_ok_iff.1 h
      cases e
      rw [Portion.blocks_optionalStatement]
      simpa [SlotValue.nodes] using found_of_chainContent structural read
  | repeatedValue members =>
    obtain ⟨ns, read, e⟩ := Except.bind_eq_ok_iff.1 h
    cases e
    rw [Portion.blocks_repeatedValue, List.filterMap_eq_flatMap_toList, List.flatMap_assoc]
    exact Except.flatMap_eq_of_forall₂ (Except.mapM_eq_ok_iff.1 read) fun e n h =>
      found_of_valueContent structural h
  | repeatedStatement members =>
    obtain ⟨ns, read, e⟩ := Except.bind_eq_ok_iff.1 h
    cases e
    rw [Portion.blocks_repeatedStatement, List.flatMap_assoc]
    exact Except.flatMap_eq_of_forall₂ (Except.mapM_eq_ok_iff.1 read) fun e n h =>
      found_of_chainContent structural h

/-- The children of a node come from the blocks in the portions of its rows, in this order. -/
theorem found_of_filled {p : Phrase Node} (buildable : p.Buildable)
    {portions : List (Portion Block)}
    (filled : List.Forall₂ (fun q v => q.content registry = .ok v) portions p.slots) :
    p.children.flatMap f = (portions.flatMap Portion.blocks).flatMap (found registry f) := by
  rw [buildable.children, List.flatMap_assoc, List.flatMap_assoc]
  exact Except.flatMap_eq_of_forall₂ filled fun q v h => found_of_portionContent structural h

end Found

/-- The portions of a block hold the blocks directly inside. -/
theorem perm_children_of_divide {l : BlockLayer Block} {kind : Kind}
    {portions : List (Portion Block)} (divided : divide registry l = .ok (kind, portions)) :
    (portions.flatMap Portion.blocks).Perm l.children := by
  obtain ⟨slots, _, -, slotsOf, -, taken⟩ := divide_eq_ok_iff.1 divided
  have all := (Slots.shares_of_takeAll taken).perm_blocks
  rw [show ({} : Slots Block).blocks = [] from rfl, List.append_nil] at all
  exact all.symm.trans (Slots.perm_blocks_ofLayer slotsOf)

/-- The nodes of a block have the ids of the blocks in it, in another order. -/
theorem perm_found (b : Block) {n : Node} (h : content registry b = .ok n) :
    n.blockIds.Perm b.ids := by
  induction b using Block.induction generalizing n with
  | step l ih =>
    obtain ⟨-, portions, p, divided, filled, buildable, -, rfl⟩ := content_eq_ok_iff.1 h
    rw [Node.blockIds_eq]
    change (l.id :: p.children.flatMap Node.blockIds).Perm _
    rw [found_of_filled blockIds_structuralContent buildable filled, Block.ids_mk]
    have blocks := perm_children_of_divide divided
    refine .cons _ (.trans (.flatMap_left _ fun b hb => ?_) (blocks.flatMap_right Block.ids))
    obtain ⟨q, hq, inside⟩ := List.mem_flatMap.1 hb
    obtain ⟨v, content⟩ := Except.exists_forall₂_iff.1 ⟨_, filled⟩ q hq
    obtain ⟨m, read⟩ := exists_content_of_mem content inside
    rw [found_of_content read]
    exact ih b (mem_children_of_divide divided hq inside) read

end Mapping

/-! ## Documents -/

/-- A document has a content if its version is supported and its blocks are grammatical. -/
theorem Document.exists_content_iff {d : Document} : (∃ q, d.content .core = .ok q) ↔
    d.formatVersion ∈ supportedVersions ∧ ∀ b ∈ d.blocks, b.layer.Grammatical := by
  have chain (c : Chain) : (∃ i, canvasContent .core c = .ok i) ↔
      ∀ b ∈ c.blocks.flatMap Block.preorder, b.layer.Grammatical := by
    rw [List.forall_mem_flatMap]
    simp only [canvasContent_eq_ok_iff, chainContent_eq_ok_iff,
      ← Mapping.exists_content_iff_forall_preorder, ← Except.exists_forall₂_iff]
    simp
  rw [Document.blocks, List.forall_mem_flatMap]
  simp only [← chain, ← Except.exists_forall₂_iff, content_eq_ok_iff, ← checkVersion_eq_ok_iff]
  refine ⟨fun h => ?_, fun h => ?_⟩
  · obtain ⟨_, version, is, instances, -⟩ := h
    exact ⟨version, is, instances⟩
  · obtain ⟨version, is, instances⟩ := h
    exact ⟨_, version, is, instances, rfl⟩

/-- The ids in a program are those of the blocks of its document. -/
theorem Document.perm_of_content {registry : KindRegistry} {d : Document} {q : Program}
    (h : d.content registry = .ok q) : q.blockIds.Perm (d.blocks.map (·.layer.id)) := by
  obtain ⟨-, is, instances, rfl⟩ := content_eq_ok_iff.1 h
  have ids : is.flatMap (·.body.blockIds) =
      d.instances.flatMap fun c => c.blocks.flatMap (Mapping.found registry Node.blockIds) := by
    refine Except.flatMap_eq_of_forall₂ instances fun c i h => ?_
    obtain ⟨body, read, rfl⟩ := canvasContent_eq_ok_iff.1 h
    exact Mapping.found_of_chainContent Mapping.blockIds_structuralContent read
  rw [Document.ids_blocks]
  change (is.flatMap (·.body.blockIds)).Perm _
  rw [ids]
  refine .flatMap_left _ fun c hc => .flatMap_left _ fun b hb => ?_
  obtain ⟨n, read⟩ := exists_content_of_mem_blocks instances hc hb
  rw [Mapping.found_of_content read]
  exact Mapping.perm_found b read

/-- A document is read with the core kinds if it is grammatical. -/
theorem Program.exists_ofDocument_iff {d : Document} {s : Supply} :
    (∃ p s', (ofDocument .core d).run s = (.ok p, s')) ↔ d.Grammatical := by
  have parts : (∃ p s', (ofDocument .core d).run s = (.ok p, s')) ↔
      ∃ q, d.content .core = .ok q ∧ q.blockIds.Nodup := by
    simp only [← ofDocument_eq_ok_iff (s := s)]
    refine ⟨fun h => ?_, fun h => ?_⟩
    · obtain ⟨p, s', made⟩ := h
      exact ⟨p.bare, p, s', made, rfl⟩
    · obtain ⟨_, p, s', made, -⟩ := h
      exact ⟨p, s', made⟩
  rw [parts]
  refine ⟨fun h => ?_, fun h => ?_⟩
  · obtain ⟨q, content, distinct⟩ := h
    obtain ⟨version, blocks⟩ := Document.exists_content_iff.1 ⟨q, content⟩
    exact ⟨version, (Document.perm_of_content content).nodup_iff.1 distinct, blocks⟩
  · obtain ⟨version, distinct, blocks⟩ := h
    obtain ⟨q, content⟩ := Document.exists_content_iff.2 ⟨version, blocks⟩
    exact ⟨q, content, (Document.perm_of_content content).nodup_iff.2 distinct⟩

end BlockGraph

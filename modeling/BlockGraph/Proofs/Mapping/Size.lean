import BlockGraph.Proofs.Mapping.Blame
import BlockGraph.Proofs.Mapping.Rereading
import Mathlib.Algebra.Order.BigOperators.Group.List
import Mathlib.Algebra.Ring.Nat

/-!
# The size of what is read

Numbers in a document decide how many members a family has, but not how large a program may get.
Every row makes at most one node that belongs to no block, and a family makes one for each chain
that is written down and for each of at most 64 members that are absent.

* `Mapping.Portion.loose`: the nodes that a row adds to those of its blocks.
* `Mapping.Slots.Takes.loose_le`: what a row may add, and `loose_takeAll_le` for a whole table.
* `Mapping.length_walk_le`: the nodes of a block.
* `Block.Spells`: the numbers that a document spells.
* `Program.nodeCount_le_of_ofDocument`: the nodes of a document, whatever its numbers are.
-/

namespace BlockGraph

open Mapping

variable {α : Type}

/-! ## What is allowed -/

/-- How many nodes a row may add to those of the blocks in it, apart from the chains that are
written down. -/
def FieldSpec.allowance (row : FieldSpec) : Nat := if row.mode.isRepeated then 1 + maxAbsent else 1

/-- The slot table of a block. A block of an unknown type has none. -/
def Block.table (registry : KindRegistry) (b : Block) : List FieldSpec :=
  (registry.lookup b.layer.type).elim [] Kind.fields

/-- How many nodes a block may add to those of the blocks in it: itself, one for each row and for
each of its chains, and 64 for each family. -/
def Block.allowance (registry : KindRegistry) (b : Block) : Nat :=
  1 + (b.table registry).length + b.layer.statements.length +
    64 * (b.table registry).countP (·.mode.isRepeated)

theorem FieldSpec.sum_allowance (rows : List FieldSpec) :
    (rows.map allowance).sum = rows.length + 64 * rows.countP (·.mode.isRepeated) := by
  induction rows with
  | nil => rfl
  | cons row rows ih =>
    rw [List.map_cons, List.sum_cons, ih, List.length_cons, List.countP_cons, allowance, maxAbsent]
    by_cases family : row.mode.isRepeated = true
    · rw [if_pos family, if_pos family]
      omega
    · rw [if_neg family, if_neg family]
      omega

/-! ## Rows -/

namespace Mapping

/-- How many nodes without a block a portion has: empty expressions and chains. -/
def Portion.loose : Portion α → Nat
  | literal _ _ => 0
  | value _ block => if block.isNone then 1 else 0
  | statement _ _ => 1
  | optionalStatement _ blocks => if blocks.isEmpty then 0 else 1
  | repeatedValue members => members.countP (·.2.isNone)
  | repeatedStatement members => members.length

theorem size_erase_le (m : SortedMap String α) (name : String) : (m.erase name).size ≤ m.size := by
  have all := (Slots.entries_erase_getD m name).length_eq
  rw [List.length_append] at all
  show (m.erase name).entries.length ≤ m.entries.length
  omega

/-- A family and the other slots are all slots. -/
theorem Split.size_add {family : String} {slots rest : SortedMap String α}
    {found : SortedMap Nat α} (h : Split family slots found rest) :
    found.size + rest.size = slots.size := by
  have all := (SortedMap.entries_filterKeys_perm (isNumbered family) slots).length_eq
  have members := h.members.length_eq
  rw [List.length_append] at all
  rw [List.length_map] at members
  rw [h.others]
  show found.entries.length + (slots.filterKeys (!isNumbered family ·)).entries.length =
    slots.entries.length
  omega

/-- What a row adds is paid for by the row itself and by the chains that it takes. -/
theorem Slots.Takes.loose_le {declared : Option Nat} {s s' : Slots α} {row : FieldSpec}
    {portion : Portion α} (h : s.Takes declared row portion s') :
    portion.loose + s'.statements.size ≤ s.statements.size + row.allowance := by
  cases h with
  | literal present =>
    show 0 + s.statements.size ≤ s.statements.size + 1
    omega
  | @value name =>
    show (if (s.values.get? name).isNone then 1 else 0) + s.statements.size ≤
      s.statements.size + 1
    split <;> omega
  | @statement name =>
    have less := size_erase_le s.statements name
    show 1 + (s.statements.erase name).size ≤ s.statements.size + 1
    omega
  | @optionalStatement name =>
    have less := size_erase_le s.statements name
    show (if ((s.statements.get? name).getD []).isEmpty then 0 else 1) +
      (s.statements.erase name).size ≤ s.statements.size + 1
    split <;> omega
  | @repeatedValue name internal found rest count split counts =>
    have few := counts.few
    show ((List.range count).map fun i => (name ++ toString i, found.get? i)).countP
      (·.2.isNone) + s.statements.size ≤ s.statements.size + (1 + maxAbsent)
    rw [List.countP_map]
    have absent := countP_absent counts.below
    simp only [Function.comp_def]
    omega
  | @repeatedStatement name internal found rest count split counts =>
    have few := counts.few
    have all := split.size_add
    show ((List.range count).map fun i => (name ++ toString i, (found.get? i).getD [])).length +
      rest.size ≤ s.statements.size + (1 + maxAbsent)
    rw [List.length_map, List.length_range]
    omega

/-- What the rows of a table add together. -/
theorem loose_takeAll_le {blockId : String} {declared : Option Nat} {s left : Slots α}
    {rows : List FieldSpec} {portions : List (Portion α)}
    (h : s.takeAll blockId declared rows = .ok (portions, left)) :
    (portions.map Portion.loose).sum + left.statements.size ≤
      s.statements.size + (rows.map FieldSpec.allowance).sum := by
  induction rows generalizing s portions with
  | nil =>
    cases h
    exact Nat.le_of_eq (Nat.add_comm _ _)
  | cons row rows ih =>
    obtain ⟨portion, s', others, first, rest, rfl⟩ := Slots.takeAll_cons_eq_ok_iff.1 h
    have here := (Slots.take_eq_ok_iff.1 first).loose_le
    have later := ih rest
    rw [List.map_cons, List.map_cons, List.sum_cons, List.sum_cons]
    omega

/-- What a block adds to the blocks in it, and itself. -/
theorem loose_divide_le {registry : KindRegistry} {l : BlockLayer Block} {kind : Kind}
    {portions : List (Portion Block)} (h : divide registry l = .ok (kind, portions)) :
    1 + (portions.map Portion.loose).sum ≤ (Block.mk l).allowance registry := by
  obtain ⟨slots, declared, known, slotsOf, -, taken⟩ := divide_eq_ok_iff.1 h
  have chains : slots.statements.size = l.statements.length := by
    have same := (Slots.ofLayer_eq_ok_iff.1 slotsOf).2.2.2.length_eq
    rwa [List.length_map] at same
  have table : (Block.mk l).table registry = kind.fields := by
    show (registry.lookup l.type).elim [] Kind.fields = kind.fields
    rw [known]
    rfl
  have all := loose_takeAll_le taken
  have none : ({} : Slots Block).statements.size = 0 := rfl
  rw [FieldSpec.sum_allowance] at all
  rw [Block.allowance, table]
  show _ ≤ 1 + kind.fields.length + l.statements.length + _
  omega

/-! ## Contents -/

theorem sum_allowance_flatMap (registry : KindRegistry) (bs : List Block) :
    ((bs.flatMap Block.preorder).map (Block.allowance registry)).sum =
      (bs.map fun b => (b.preorder.map (Block.allowance registry)).sum).sum := by
  rw [List.map_flatMap, List.flatMap_def, List.sum_flatten, List.map_map]
  rfl

section

variable {registry : KindRegistry} {weight : Block → Nat}

/-- How many nodes there are in these trees. -/
def sizes (ns : List Node) : Nat := (ns.map fun n => n.walk.length).sum

theorem length_walk_eq (n : Node) : n.walk.length = 1 + sizes n.children := by
  rw [Node.walk_eq, List.length_cons, List.length_flatMap, Nat.add_comm]
  rfl

theorem length_walk_structural (p : Phrase Node) :
    (structuralContent p).walk.length = 1 + sizes p.children :=
  length_walk_eq _

/-- Trees that are bounded one by one are bounded together. -/
theorem sizes_le {β : Type} {R : β → Node → Prop} {l : List β} {ns : List Node} {f : β → Nat}
    (h : List.Forall₂ R l ns) (each : ∀ a ∈ l, ∀ n, R a n → n.walk.length ≤ f a) :
    sizes ns ≤ (l.map f).sum := by
  induction h with
  | nil => exact Nat.le_refl 0
  | @cons a n l ns first _ ih =>
    rw [List.forall_mem_cons] at each
    have here := each.1 n first
    have later := ih each.2
    show n.walk.length + sizes ns ≤ f a + (l.map f).sum
    omega

/-- The nodes of a value slot. -/
theorem length_valueContent_le {slot : String} {o : Option Block} {n : Node}
    (h : valueContent registry slot o = .ok n)
    (each : ∀ b ∈ o, ∀ m, Mapping.content registry b = .ok m → m.walk.length ≤ weight b) :
    n.walk.length ≤ (if o.isNone then 1 else 0) + (o.toList.map weight).sum := by
  cases o with
  | none =>
    cases h
    rw [length_walk_structural]
    exact Nat.le_refl 1
  | some b =>
    have bound := each b rfl n (valueContent_some_eq_ok_iff.1 h).1
    show n.walk.length ≤ 0 + (weight b + 0)
    omega

/-- The nodes of a chain. -/
theorem length_chainContent_le {slot : Option String} {blocks : List Block} {n : Node}
    (h : chainContent registry slot blocks = .ok n)
    (each : ∀ b ∈ blocks, ∀ m, Mapping.content registry b = .ok m → m.walk.length ≤ weight b) :
    n.walk.length ≤ 1 + (blocks.map weight).sum := by
  obtain ⟨ns, read, rfl⟩ := chainContent_eq_ok_iff.1 h
  have bound := sizes_le read fun b hb m hm => each b hb m hm.1
  rw [length_walk_structural]
  show 1 + sizes ns ≤ _
  omega

/-- The members of a family of value slots. -/
theorem sum_members (members : List (String × Option Block)) :
    (members.map fun e => (if e.2.isNone then 1 else 0) + (e.2.toList.map weight).sum).sum =
      members.countP (·.2.isNone) + ((members.filterMap (·.2)).map weight).sum := by
  induction members with
  | nil => rfl
  | cons e members ih =>
    obtain ⟨name, _ | b⟩ := e
    · simp only [List.map_cons, List.sum_cons, ih]
      simp
      omega
    · simp only [List.map_cons, List.sum_cons, ih]
      simp
      omega

/-- The members of a family of chains. -/
theorem sum_chains (members : List (String × List Block)) :
    (members.map fun e => 1 + (e.2.map weight).sum).sum =
      members.length + ((members.flatMap (·.2)).map weight).sum := by
  induction members with
  | nil => rfl
  | cons e members ih =>
    simp [ih]
    omega

/-- The nodes of a row: those of its blocks, and those that it adds. -/
theorem sizes_portionContent_le {p : Portion Block} {v : SlotValue Node}
    (h : p.content registry = .ok v)
    (each : ∀ b ∈ p.blocks, ∀ m, Mapping.content registry b = .ok m → m.walk.length ≤ weight b) :
    sizes v.nodes ≤ p.loose + (p.blocks.map weight).sum := by
  cases p with
  | literal slot text =>
    cases h
    exact Nat.zero_le _
  | value slot o =>
    obtain ⟨n, read, e⟩ := Except.bind_eq_ok_iff.1 h
    cases e
    rw [Portion.blocks_value] at each ⊢
    have bound := length_valueContent_le read fun b hb => each b (Option.mem_toList.2 hb)
    show n.walk.length + 0 ≤ _
    exact bound
  | statement slot blocks =>
    obtain ⟨n, read, e⟩ := Except.bind_eq_ok_iff.1 h
    cases e
    rw [Portion.blocks_statement] at each ⊢
    exact length_chainContent_le read each
  | optionalStatement slot blocks =>
    cases blocks with
    | nil =>
      cases h
      exact Nat.zero_le _
    | cons b blocks =>
      obtain ⟨n, read, e⟩ := Except.bind_eq_ok_iff.1 h
      cases e
      rw [Portion.blocks_optionalStatement] at each ⊢
      exact length_chainContent_le read each
  | repeatedValue members =>
    obtain ⟨ns, read, e⟩ := Except.bind_eq_ok_iff.1 h
    cases e
    rw [Portion.blocks_repeatedValue] at each ⊢
    show sizes ns ≤ _
    rw [Portion.loose, ← sum_members]
    apply sizes_le (Except.mapM_eq_ok_iff.1 read)
    intro e he n hn
    exact length_valueContent_le hn fun b hb => each b (List.mem_filterMap.2 ⟨e, he, hb⟩)
  | repeatedStatement members =>
    obtain ⟨ns, read, e⟩ := Except.bind_eq_ok_iff.1 h
    cases e
    rw [Portion.blocks_repeatedStatement] at each ⊢
    show sizes ns ≤ _
    rw [Portion.loose, ← sum_chains]
    apply sizes_le (Except.mapM_eq_ok_iff.1 read)
    intro e he n hn
    exact length_chainContent_le hn fun b hb => each b (List.mem_flatMap.2 ⟨e, he, hb⟩)

/-- The nodes of all rows. -/
theorem sizes_filled_le {portions : List (Portion Block)} {vs : List (SlotValue Node)}
    (filled : List.Forall₂ (fun p v => p.content registry = .ok v) portions vs)
    (each : ∀ b ∈ portions.flatMap Portion.blocks, ∀ m, Mapping.content registry b = .ok m →
      m.walk.length ≤ weight b) :
    sizes (vs.flatMap SlotValue.nodes) ≤ (portions.map Portion.loose).sum +
      ((portions.flatMap Portion.blocks).map weight).sum := by
  induction filled with
  | nil => exact Nat.zero_le _
  | @cons p v portions vs first _ ih =>
    rw [List.flatMap_cons, List.forall_mem_append] at each
    have here := sizes_portionContent_le first each.1
    have later := ih each.2
    simp only [sizes, List.flatMap_cons, List.map_append, List.sum_append, List.map_cons,
      List.sum_cons] at here later ⊢
    omega

/-- The nodes of a block are bounded by what it and the blocks in it may add. -/
theorem length_walk_le {b : Block} {n : Node} (h : Mapping.content registry b = .ok n) :
    n.walk.length ≤ (b.preorder.map (Block.allowance registry)).sum := by
  induction b using Block.induction generalizing n with
  | step l ih =>
    obtain ⟨-, portions, p, divided, filled, buildable, -, rfl⟩ := content_eq_ok_iff.1 h
    let weight (b : Block) : Nat := (b.preorder.map (Block.allowance registry)).sum
    have blocks := perm_children_of_divide divided
    have inside : sizes p.children ≤ (portions.map Portion.loose).sum +
        ((portions.flatMap Portion.blocks).map weight).sum := by
      rw [buildable.children]
      apply sizes_filled_le filled
      intro b hb m hm
      exact ih b (blocks.mem_iff.1 hb) hm
    have own := loose_divide_le divided
    have all : ((Block.mk l).preorder.map (Block.allowance registry)).sum =
        (Block.mk l).allowance registry + (l.children.map weight).sum := by
      rw [Block.preorder_mk, List.map_cons, List.sum_cons, sum_allowance_flatMap]
    rw [(blocks.map weight).sum_eq] at inside
    rw [length_walk_eq, all]
    show 1 + sizes p.children ≤ _
    omega

end

end Mapping

/-! ## Numbers -/

/-- A block spells a number where a count is read off the digits: in the entry for the branches of a
conditional, and in the name of a slot that is left to a row that takes a family. -/
inductive Block.Spells (registry : KindRegistry) (b : Block) : Nat → Prop where
  | branches {text : String} {ds : List Char}
      (known : registry.lookup b.layer.type = some .ifElse)
      (entry : b.layer.attributes.mutation.get? "elseif" = some text)
      (spelled : text.toList = ds ∨ text.toList = '+' :: ds) (some : ds ≠ [])
      (digits : ds.all Char.isDigit = true) : Spells registry b (Decimal.ofDigits ds)
  | member {kind : Kind} {before after : List FieldSpec} {row : FieldSpec} {name : String}
      {ds : List Char} (known : registry.lookup b.layer.type = some kind)
      (table : kind.fields = before ++ row :: after) (family : row.mode.isRepeated = true)
      (slot : name ∈ b.layer.leftNames before row.mode.sort)
      (spelled : name.toList = row.external.toList ++ ds) (some : ds ≠ [])
      (digits : ds.all Char.isDigit = true) : Spells registry b (Decimal.ofDigits ds)

namespace Mapping

/-- A declared count is read with or without a plus. -/
theorem readCount?_of_spelled {text : String} {ds : List Char}
    (spelled : text.toList = ds ∨ text.toList = '+' :: ds) (digits : ds.all Char.isDigit = true) :
    readCount? text = countOf? ds := by
  unfold readCount?
  rcases spelled with same | same
  · rw [same]
    split
    · next rest =>
      rw [List.all_cons] at digits
      cases digits
    · rfl
  · rw [same]
    rfl

theorem Counts.le_maxCount {declared : Option Nat} {found : SortedMap Nat α} {count : Nat}
    (h : Counts declared found count) (small : ∀ c, declared = some c → c ≤ maxCount) :
    count ≤ maxCount := by
  have source := h.source
  cases declared with
  | none => exact source.1
  | some c =>
    rw [show count = c from source]
    exact small c rfl

/-- The number in the name of a member is below the count of its family. -/
theorem ofDigits_lt_of_split {declared : Option Nat} {family name : String} {ds : List Char}
    {slots rest : SortedMap String α} {found : SortedMap Nat α} {count : Nat}
    (split : Split family slots found rest) (counts : Counts declared found count)
    (present : name ∈ slots.keys) (spelled : name.toList = family.toList ++ ds) (some : ds ≠ [])
    (digits : ds.all Char.isDigit = true) : Decimal.ofDigits ds < count := by
  obtain ⟨n, hn, rfl⟩ := split.exists_number present (isNumbered_iff.2 ⟨ds, spelled, some, digits⟩)
  rw [toList_member, List.append_cancel_left_eq] at spelled
  rw [← spelled, Decimal.ofDigits_toDigits]
  exact counts.below n hn

/-- No row takes a member whose number has no successor. -/
theorem ofDigits_lt_of_take {declared : Option Nat} {s s' : Slots α} {row : FieldSpec}
    {portion : Portion α} {name : String} {ds : List Char}
    (h : s.Takes declared row portion s') (small : ∀ c, declared = some c → c ≤ maxCount)
    (family : row.mode.isRepeated = true) (present : name ∈ s.names row.mode.sort)
    (spelled : name.toList = row.external.toList ++ ds) (some : ds ≠ [])
    (digits : ds.all Char.isDigit = true) : Decimal.ofDigits ds < maxCount := by
  cases h with
  | literal | value | statement | optionalStatement => cases family
  | repeatedValue split counts | repeatedStatement split counts =>
    have below := ofDigits_lt_of_split split counts present spelled some digits
    have bound := counts.le_maxCount small
    omega

/-- All numbers of a block that is read have a successor. -/
theorem succ_le_of_spells {registry : KindRegistry} {b : Block} {kind : Kind}
    {portions : List (Portion Block)} (divided : divide registry b.layer = .ok (kind, portions))
    {n : Nat} (h : b.Spells registry n) : n + 1 ≤ maxCount := by
  obtain ⟨slots, declared, known, slotsOf, count, taken⟩ := divide_eq_ok_iff.1 divided
  have counted := declaredCount_eq_ok_iff.1 count
  cases h with
  | branches known' entry spelled some digits =>
    obtain rfl := Option.some.inj (known.symm.trans known')
    rw [if_pos rfl, BlockLayer.branches?, entry] at counted
    obtain ⟨c, branches, -⟩ := counted
    obtain ⟨m, read, small⟩ := Option.bind_eq_some_iff.1 branches
    rw [readCount?_of_spelled spelled digits] at read
    obtain ⟨-, -, rfl, -⟩ := countOf?_eq_some_iff.1 read
    split at small
    · next lt => exact lt
    · cases small
  | member known' table family slot spelled some digits =>
    obtain rfl := Option.some.inj (known.symm.trans known')
    rw [table] at taken
    obtain ⟨_, s, _, earlier, later, -⟩ := Slots.takeAll_append_eq_ok_iff.1 taken
    obtain ⟨p, s', others, here, -⟩ := Slots.takeAll_cons_eq_ok_iff.1 later
    have present := (perm_leftNames slotsOf earlier _).mem_iff.2 slot
    have small : ∀ c, declared = .some c → c ≤ maxCount := by
      intro c isDeclared
      split at counted
      · obtain ⟨c', branches, same⟩ := counted
        obtain rfl := Option.some.inj (isDeclared.symm.trans same)
        exact (branches?_bounds branches).2
      · rw [counted] at isDeclared
        cases isDeclared
    exact ofDigits_lt_of_take (Slots.take_eq_ok_iff.1 here) small family present spelled some digits

end Mapping

/-! ## Documents -/

/-- The nodes of the chains on the canvas. -/
theorem Mapping.length_canvasContent_le {registry : KindRegistry} {cs : List Chain}
    {is : List Instance} (h : List.Forall₂ (fun c i => canvasContent registry c = .ok i) cs is) :
    (is.flatMap (·.body.walk)).length ≤ cs.length +
      ((cs.flatMap fun c => c.blocks.flatMap Block.preorder).map
        (Block.allowance registry)).sum := by
  induction h with
  | nil => exact Nat.zero_le _
  | @cons c i cs is first _ ih =>
    obtain ⟨body, read, rfl⟩ := canvasContent_eq_ok_iff.1 first
    have here := length_chainContent_le read fun b _ m hm => length_walk_le hm
    rw [← sum_allowance_flatMap] at here
    rw [List.flatMap_cons, List.flatMap_cons, List.length_append, List.length_cons,
      List.map_append, List.sum_append]
    show body.walk.length + _ ≤ _
    omega

/-- The nodes of what a document says. -/
theorem Document.nodeCount_le_of_content {registry : KindRegistry} {d : Document} {q : Program}
    (h : d.content registry = .ok q) :
    q.nodeCount ≤ d.instances.length + (d.blocks.map (Block.allowance registry)).sum := by
  obtain ⟨-, is, instances, rfl⟩ := content_eq_ok_iff.1 h
  exact length_canvasContent_le instances

/-- A document cannot inflate its tree. Whatever its numbers are, what is read has at most one node
for each chain on the canvas, and for each block those that the block and its table allow. Every
number has a successor that can be counted to, and a document with another number is rejected. -/
theorem Program.nodeCount_le_of_ofDocument (registry : KindRegistry) (d : Document) (s : Supply) :
    (∀ p s', (ofDocument registry d).run s = (.ok p, s') →
      p.nodeCount ≤ d.instances.length + (d.blocks.map (Block.allowance registry)).sum ∧
        ∀ b ∈ d.blocks, ∀ n, b.Spells registry n → n + 1 ≤ maxCount) ∧
      ∀ b ∈ d.blocks, ∀ n, b.Spells registry n → maxCount < n + 1 →
        ∃ e s', (ofDocument registry d).run s = (.error e, s') := by
  have counted (p : Program) (s' : Supply) (read : (ofDocument registry d).run s = (.ok p, s')) :
      ∀ b ∈ d.blocks, ∀ n, b.Spells registry n → n + 1 ≤ maxCount := by
    intro b hb n spells
    have content := (ofDocument_eq_ok_iff.1 ⟨p, s', read, rfl⟩).1
    obtain ⟨m, read⟩ := Document.exists_content_of_content content hb
    obtain ⟨l⟩ := b
    obtain ⟨-, portions, q, divided, -⟩ := content_eq_ok_iff.1 read
    exact succ_le_of_spells (b := .mk l) divided spells
  constructor
  · intro p s' read
    refine ⟨?_, counted p s' read⟩
    have bound := Document.nodeCount_le_of_content (ofDocument_eq_ok_iff.1 ⟨p, s', read, rfl⟩).1
    rwa [nodeCount, walk_bare, List.length_map] at bound
  · intro b hb n spells large
    rcases run : (ofDocument registry d).run s with ⟨e | p, s'⟩
    · exact ⟨e, s', rfl⟩
    · have small := counted p s' run b hb n spells
      omega

/-- A conditional with as many branches as can be counted to, and one more. -/
def endlessBlock : Block := .mk {
  id := "a", type := "controls_if"
  attributes.mutation := .ofList [("elseif", "18446744073709551615")] }

/-- Nothing but that block. -/
def endless : Document where
  formatVersion := "3.1"
  instances := [{ blocks := [endlessBlock] }]

theorem Block.spells_endless : endlessBlock.Spells .core maxCount := by
  have value : Decimal.ofDigits "18446744073709551615".toList = maxCount := by decide
  have entry : endlessBlock.layer.attributes.mutation.get? "elseif" =
    some "18446744073709551615" := rfl
  rw [← value]
  exact .branches rfl entry (.inl rfl) (by decide) (by decide)

/-- Of two conditionals with many branches one is read, to a tree of the allowed size, and one is
rejected. -/
theorem Program.nodeCount_le_sparse :
    (∃ p s', (ofDocument .core sparse).run {} = (.ok p, s') ∧ p.nodeCount ≤ 136) ∧
      ∃ e s', (ofDocument .core endless).run {} = (.error e, s') := by
  constructor
  · have computed : ((ofDocument .core sparse).run {}).1.toOption.any (fun _ => true) = true := by
      decide +kernel
    obtain ⟨p, s', read, -⟩ := Except.exists_eq_ok_of_any_fst computed
    have bound := ((nodeCount_le_of_ofDocument .core sparse {}).1 p s' read).1
    exact ⟨p, s', read, bound⟩
  · apply (nodeCount_le_of_ofDocument .core endless {}).2 endlessBlock _ maxCount
      Block.spells_endless (Nat.lt_succ_self _)
    exact List.mem_cons_self

end BlockGraph

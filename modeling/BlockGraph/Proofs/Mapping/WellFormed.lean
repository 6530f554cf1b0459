import BlockGraph.Proofs.Mapping.Assembly

/-!
# Writing and reading well-formed programs

A program need not come from a document: it may be put together by hand or be rewritten.
`Program.WellFormed` says which programs of core kinds a document can hold. Such a program is
written, and what is written is read as the same program (`Program.reread_of_wellFormed`).

The proof rebuilds every node from the bottom up (`Node.Rebuilt`): the rows of its table are
written as portions (`exists_writes`), and the block with these portions has the content of the
node (`exists_restores`).
-/

namespace BlockGraph

open Mapping

/-! ## Well-formed programs -/

/-- The number of branches that a conditional declares beside the first one. -/
def Mapping.additional? (mutation : SortedMap String String) : Option Nat :=
  match mutation.get? "elseif" with
  | none => some 0
  | some text => readCount? text

namespace Node

/-- Whether a node may stand in a value slot: an expression or the empty one. -/
def IsOperand (n : Node) : Prop :=
  n.kind = .emptyExpr ∨ n.kind ∈ Kind.coreBlockKinds ∧ n.kind.isExpression = true

/-- Whether a node may stand in a slot for chains: a chain of blocks that are no expressions. -/
def IsBody (n : Node) : Prop :=
  n.kind = .stmtList ∧
    ∀ c ∈ n.statements, c.kind ∈ Kind.coreBlockKinds ∧ c.kind.isExpression = false

/-- Whether a node may stand on the canvas: a chain of blocks. -/
def IsCanvas (n : Node) : Prop :=
  n.kind = .stmtList ∧ ∀ c ∈ n.statements, c.kind ∈ Kind.coreBlockKinds

/-- Whether a content may stand in a row of the given mode. -/
def Fills (mode : FieldMode) : SlotValue Node → Prop
  | .literal _ => True
  | .value n => n.IsOperand
  | .statement n => n.IsBody
  | .optionalStatement none => True
  | .optionalStatement (some n) => n.IsBody ∧ n.statements ≠ []
  | .repeated ns => if mode = .repeatedValue then ∀ n ∈ ns, n.IsOperand else ∀ n ∈ ns, n.IsBody

/-- What is asked of the parts of a conditional and the entries of its block. The last part of
`declared` is no restriction of programs in memory: no list is longer than a word can count. -/
structure Branches (mutation : SortedMap String String) (conditions branches : List Node)
    (otherwise : Option Node) : Prop where
  same : branches.length = conditions.length
  declared : (additional? mutation).map (1 + ·) = some conditions.length ∧
    conditions.length ≤ maxCount
  fewConditions : conditions.countP (·.kind = .emptyExpr) ≤ 64
  fewBranches : branches.countP (·.statements.isEmpty) ≤ 64
  readable : mutation.get? "else" ∈ [none, some "0", some "1"]
  last : otherwise.isSome → mutation.get? "else" = some "1"

/-- The conditions, the branches and the last branch of a conditional. -/
def parts? (n : Node) : Option (List Node × List Node × Option Node) :=
  match n.phrase with
  | .ifElse conditions branches otherwise => some (conditions, branches, otherwise)
  | _ => none

/-- What is asked of one node. Chains and empty expressions belong to no block. -/
structure WellFormed (n : Node) : Prop where
  structural : n.kind.blockType = none →
    n.blockId? = none ∧ n.attributes = {} ∧ n.comment? = none
  block : n.kind.blockType ≠ none →
    n.kind ∈ Kind.coreBlockKinds ∧ n.blockId? ≠ none ∧ n.blockId? ≠ some ""
  rows : ∀ row ∈ n.kind.fields.zip n.phrase.slots, Fills row.1.mode row.2
  conditional : ∀ parts ∈ n.parts?, Branches n.attributes.mutation parts.1 parts.2.1 parts.2.2

end Node

/-- Whether a program can be written as a document of core blocks. -/
structure Program.WellFormed (p : Program) : Prop where
  version : p.formatVersion ∈ supportedVersions
  nodes : ∀ n ∈ p.walk, n.WellFormed
  canvas : ∀ i ∈ p.instances, i.body.IsCanvas
  distinct : p.blockIds.Nodup

section Decidable

instance (n : Node) : Decidable n.IsOperand := inferInstanceAs (Decidable (_ ∨ _))
instance (n : Node) : Decidable n.IsBody := inferInstanceAs (Decidable (_ ∧ _))
instance (n : Node) : Decidable n.IsCanvas := inferInstanceAs (Decidable (_ ∧ _))

instance (mode : FieldMode) : (v : SlotValue Node) → Decidable (Node.Fills mode v)
  | .literal _ => .isTrue trivial
  | .value n => inferInstanceAs (Decidable n.IsOperand)
  | .statement n => inferInstanceAs (Decidable n.IsBody)
  | .optionalStatement none => .isTrue trivial
  | .optionalStatement (some n) => inferInstanceAs (Decidable (n.IsBody ∧ n.statements ≠ []))
  | .repeated ns => inferInstanceAs
    (Decidable (if mode = .repeatedValue then ∀ n ∈ ns, n.IsOperand else ∀ n ∈ ns, n.IsBody))

instance (mutation : SortedMap String String) (conditions branches : List Node)
    (otherwise : Option Node) : Decidable (Node.Branches mutation conditions branches otherwise) :=
  decidable_of_iff
    (branches.length = conditions.length ∧
      ((additional? mutation).map (1 + ·) = some conditions.length ∧
        conditions.length ≤ maxCount) ∧
      conditions.countP (·.kind = .emptyExpr) ≤ 64 ∧
      branches.countP (·.statements.isEmpty) ≤ 64 ∧
      mutation.get? "else" ∈ [none, some "0", some "1"] ∧
      (otherwise.isSome → mutation.get? "else" = some "1"))
    ⟨fun ⟨a, b, c, d, e, f⟩ => ⟨a, b, c, d, e, f⟩, fun ⟨a, b, c, d, e, f⟩ => ⟨a, b, c, d, e, f⟩⟩

instance (n : Node) : Decidable n.WellFormed :=
  decidable_of_iff
    ((n.kind.blockType = none → n.blockId? = none ∧ n.attributes = {} ∧ n.comment? = none) ∧
      (n.kind.blockType ≠ none →
        n.kind ∈ Kind.coreBlockKinds ∧ n.blockId? ≠ none ∧ n.blockId? ≠ some "") ∧
      (∀ row ∈ n.kind.fields.zip n.phrase.slots, Node.Fills row.1.mode row.2) ∧
      ∀ parts ∈ n.parts?, Node.Branches n.attributes.mutation parts.1 parts.2.1 parts.2.2)
    ⟨fun ⟨a, b, c, d⟩ => ⟨a, b, c, d⟩, fun ⟨a, b, c, d⟩ => ⟨a, b, c, d⟩⟩

instance (p : Program) : Decidable p.WellFormed :=
  decidable_of_iff
    (p.formatVersion ∈ supportedVersions ∧ (∀ n ∈ p.walk, n.WellFormed) ∧
      (∀ i ∈ p.instances, i.body.IsCanvas) ∧ p.blockIds.Nodup)
    ⟨fun ⟨a, b, c, d⟩ => ⟨a, b, c, d⟩, fun ⟨a, b, c, d⟩ => ⟨a, b, c, d⟩⟩

end Decidable

namespace Mapping

/-! ## Rows -/

/-- A node is written as the block `b`, which has its content. -/
def Restores (n : Node) (b : Block) : Prop :=
  (written n).block = .ok b ∧ content .core b = .ok n.plain

/-- A node can be written and read, as a block or as a chain of blocks. -/
structure Rebuilt (n : Node) : Prop where
  wellFormed : n.WellFormed
  block : n.kind ∈ Kind.coreBlockKinds → ∃ b, Restores n b
  chain : ∀ c ∈ n.statements, c.kind ∈ Kind.coreBlockKinds → ∃ b, Restores c b

theorem blockType_core : ∀ kind ∈ Kind.coreBlockKinds,
    ∃ type ∈ kind.blockType, KindRegistry.core.lookup type = some kind := by
  decide +kernel

theorem plain_of_structural {n : Node} (h : n.WellFormed) (structural : n.kind.blockType = none) :
    n.plain = structuralContent (n.phrase.map Node.plain) := by
  obtain ⟨blockId, attributes, comment⟩ := h.structural structural
  obtain ⟨⟨_, _, _, _, _, _, _⟩, p⟩ := n
  cases blockId
  cases attributes
  cases comment
  exact Node.plain_mk _ p

theorem phrase_of_emptyExpr {n : Node} (h : n.kind = .emptyExpr) : n.phrase = .emptyExpr := by
  cases e : n.phrase <;> simp [Node.kind, e, Phrase.kind] at h ⊢

theorem phrase_of_stmtList {n : Node} (h : n.kind = .stmtList) :
    n.phrase = .stmtList n.statements := by
  cases e : n.phrase <;> simp [Node.kind, e, Phrase.kind, Node.statements] at h ⊢

theorem phrase_of_ifElse {n : Node} (h : n.kind = .ifElse) :
    ∃ conditions branches otherwise, n.phrase = .ifElse conditions branches otherwise := by
  cases e : n.phrase <;> simp [Node.kind, e, Phrase.kind] at h ⊢

theorem branches_of_phrase {n : Node} (h : n.WellFormed) {conditions branches : List Node}
    {otherwise : Option Node} (phrase : n.phrase = .ifElse conditions branches otherwise) :
    Node.Branches n.attributes.mutation conditions branches otherwise := by
  exact h.conditional (conditions, branches, otherwise) (by rw [Node.parts?, phrase]; rfl)

theorem exists_writesValue {n : Node} (h : Rebuilt n) (operand : n.IsOperand) :
    ∃ o, WritesValue n o ∧ ∀ slot, valueContent .core slot o = .ok n.plain := by
  rcases operand with empty | ⟨core, expression⟩
  · have phrase := phrase_of_emptyExpr empty
    refine ⟨none, phrase, fun slot => ?_⟩
    rw [plain_of_structural h.wellFormed (by rw [empty]; rfl), phrase]
    rfl
  · obtain ⟨b, written, read⟩ := h.block core
    obtain ⟨type, known, -⟩ := blockType_core n.kind core
    refine ⟨some b, ⟨by rw [known]; rfl, written⟩, fun slot => ?_⟩
    exact valueContent_some_eq_ok_iff.2 ⟨read, by rwa [Node.kind_plain]⟩

/-- A chain is written as the blocks of its statements, and has their contents. -/
theorem exists_writesChain {n : Node} (h : Rebuilt n) (canvas : n.IsCanvas) (slot : Option String)
    (fit : slot.isSome → ∀ c ∈ n.statements, c.kind.isExpression = false) :
    ∃ blocks, WritesChain n blocks ∧ chainContent .core slot blocks = .ok n.plain := by
  obtain ⟨chain, core⟩ := canvas
  obtain ⟨blocks, restored⟩ := Except.exists_forall₂_iff.2 fun c hc => h.chain c hc (core c hc)
  have phrase := phrase_of_stmtList chain
  refine ⟨blocks, ?_, chainContent_eq_ok_iff.2 ⟨n.statements.map Node.plain, ?_, ?_⟩⟩
  · rw [WritesChain, written_eq, phrase]
    change (n.statements.map writing).mapM (·.result.block) = _
    rw [Except.mapM_eq_ok_iff, List.forall₂_map_left_iff]
    exact restored.imp fun c b h => h.1
  · rw [List.forall₂_map_right_iff]
    refine (((List.forall₂_and_left _ _).2 ⟨fun c hc => hc, restored⟩).imp fun c b h => ?_).flip
    exact ⟨h.2.2, fun named => by rw [Node.kind_plain]; exact fit named c h.1⟩
  · rw [plain_of_structural h.wellFormed (by rw [chain]; rfl), phrase]
    rfl

theorem length_of_writesChain {n : Node} {blocks : List Block} (chain : n.kind = .stmtList)
    (h : WritesChain n blocks) : blocks.length = n.statements.length := by
  rw [WritesChain, written_eq, phrase_of_stmtList chain] at h
  change (n.statements.map writing).mapM (·.result.block) = _ at h
  rw [Except.mapM_eq_ok_iff, List.forall₂_map_left_iff] at h
  exact h.length_eq.symm

theorem exists_writesBody {n : Node} (h : Rebuilt n) (body : n.IsBody) : ∃ blocks,
    WritesChain n blocks ∧ ∀ slot, chainContent .core (some slot) blocks = .ok n.plain := by
  obtain ⟨chain, inside⟩ := body
  have canvas : n.IsCanvas := ⟨chain, fun c hc => (inside c hc).1⟩
  have fit : ∀ c ∈ n.statements, c.kind.isExpression = false := fun c hc => (inside c hc).2
  obtain ⟨blocks, written, -⟩ := exists_writesChain h canvas (some "") fun _ => fit
  refine ⟨blocks, written, fun slot => ?_⟩
  obtain ⟨blocks', written', read⟩ := exists_writesChain h canvas (some slot) fun _ => fit
  rwa [Except.ok.inj (written.symm.trans written')]

/-- A row is written as a portion with its content. -/
theorem exists_writes {row : FieldSpec × SlotValue Node} (fits : row.2.fits row.1.mode = true)
    (fills : Node.Fills row.1.mode row.2) (rebuilt : ∀ c ∈ row.2.nodes, Rebuilt c) :
    ∃ p : Portion Block, Writes row p ∧ p.content .core = .ok (row.2.map Node.plain) := by
  obtain ⟨⟨name, internal, mode⟩, v⟩ := row
  cases v with
  | literal text =>
    cases mode <;> cases fits
    exact ⟨_, .literal, rfl⟩
  | value n =>
    cases mode <;> cases fits
    obtain ⟨o, written, read⟩ := exists_writesValue (rebuilt n List.mem_cons_self) fills
    refine ⟨_, .value written, ?_⟩
    change (valueContent .core name o >>= _) = _
    rw [read]
    rfl
  | statement n =>
    cases mode <;> cases fits
    obtain ⟨blocks, written, read⟩ := exists_writesBody (rebuilt n List.mem_cons_self) fills
    refine ⟨_, .statement written, ?_⟩
    change (chainContent .core (some name) blocks >>= _) = _
    rw [read]
    rfl
  | optionalStatement o =>
    cases mode <;> cases fits
    cases o with
    | none => exact ⟨_, .absent, rfl⟩
    | some n =>
      obtain ⟨body, ne⟩ := fills
      obtain ⟨blocks, written, read⟩ := exists_writesBody (rebuilt n List.mem_cons_self) body
      obtain ⟨b, blocks, rfl⟩ : ∃ b rest, blocks = b :: rest := List.exists_cons_of_ne_nil <| by
        rw [← List.length_pos_iff, length_of_writesChain body.1 written]
        exact List.length_pos_iff.2 ne
      refine ⟨_, .optionalStatement written, ?_⟩
      change (chainContent .core (some name) (b :: blocks) >>= _) = _
      rw [read]
      rfl
  | repeated ns =>
    cases mode with
    | repeatedValue =>
      have operands : ∀ n ∈ ns, n.IsOperand := fills
      obtain ⟨os, all⟩ := Except.exists_forall₂_iff.2 fun n hn =>
        exists_writesValue (rebuilt n hn) (operands n hn)
      refine ⟨_, .repeatedValue (all.imp fun _ _ h => h.1), ?_⟩
      have each := (forall₂_members name 0).2 (all.imp fun _ _ h => h.2).flip
      have read : (members name 0 os).mapM (fun e => valueContent .core e.1 e.2) =
          .ok (ns.map Node.plain) := by
        rw [Except.mapM_eq_ok_iff, List.forall₂_map_right_iff]
        exact each.imp fun e n h => h e.1
      change (List.mapM _ _ >>= _) = _
      rw [read]
      rfl
    | repeatedStatement =>
      have bodies : ∀ n ∈ ns, n.IsBody := fills
      obtain ⟨bs, all⟩ := Except.exists_forall₂_iff.2 fun n hn =>
        exists_writesBody (rebuilt n hn) (bodies n hn)
      refine ⟨_, .repeatedStatement (all.imp fun _ _ h => h.1), ?_⟩
      have each := (forall₂_members name 0).2 (all.imp fun _ _ h => h.2).flip
      have read : (members name 0 bs).mapM (fun e => chainContent .core (some e.1) e.2) =
          .ok (ns.map Node.plain) := by
        rw [Except.mapM_eq_ok_iff, List.forall₂_map_right_iff]
        exact each.imp fun e n h => h e.1
      change (List.mapM _ _ >>= _) = _
      rw [read]
      rfl
    | _ => cases fits

theorem fits_of_suits {kind : Kind} {row : FieldSpec} {v : SlotValue Node}
    (h : v.suits kind row = true) : v.fits row.mode = true := by
  cases v with
  | literal text =>
    obtain ⟨mode, -⟩ := Bool.and_eq_true_iff.1 h
    rw [of_decide_eq_true mode]
    rfl
  | _ => exact h

theorem Writes.of {row : FieldSpec × SlotValue Node} {p : Portion Block} (h : Writes row p) :
    p.Of row.1 := by
  cases h with
  | literal => exact .literal
  | value => exact .value
  | statement => exact .statement
  | absent => exact .optionalStatement
  | optionalStatement => exact .optionalStatement
  | repeatedValue => exact .repeatedValue
  | repeatedStatement => exact .repeatedStatement

/-! ## Blocks -/

theorem isEmpty_of_writesChain {n : Node} {blocks : List Block} (body : n.IsBody)
    (h : WritesChain n blocks) : blocks.isEmpty = n.statements.isEmpty := by
  have length := length_of_writesChain body.1 h
  rw [Bool.eq_iff_iff, List.isEmpty_iff_length_eq_zero, List.isEmpty_iff_length_eq_zero, length]

theorem countP_eq_of_forall₂ {β γ : Type} {R : β → γ → Prop} {p : β → Bool} {q : γ → Bool}
    {l : List β} {m : List γ} (h : List.Forall₂ R l m) (each : ∀ a ∈ l, ∀ b, R a b → p a = q b) :
    l.countP p = m.countP q := by
  induction h with
  | nil => rfl
  | cons first _ ih =>
    rw [List.forall_mem_cons] at each
    rw [List.countP_cons, List.countP_cons, each.1 _ first, ih each.2]

theorem isNone_of_writesValue {n : Node} {o : Option Block} (h : WritesValue n o) :
    decide (n.kind = .emptyExpr) = o.isNone := by
  cases o with
  | none =>
    have phrase : n.phrase = .emptyExpr := h
    simp [Node.kind, phrase, Phrase.kind]
  | some b =>
    have ne : n.kind ≠ .emptyExpr := fun e => by
      have block := h.1
      rw [e] at block
      cases block
    simp [ne]

/-- The rows of a conditional are written as the portions of one. -/
theorem conditionalPortions_of_writes {conditions branches : List Node} {otherwise : Option Node}
    {portions : List (Portion Block)}
    (h : List.Forall₂ Writes (Kind.ifElse.fields.zip
      (Phrase.ifElse conditions branches otherwise).slots) portions) :
    ∃ os bs last, portions = conditionalPortions os bs last ∧
      List.Forall₂ WritesValue conditions os ∧ List.Forall₂ WritesChain branches bs := by
  obtain ⟨_, others, first, h', rfl⟩ := List.forall₂_cons_left_iff.1 h
  obtain ⟨_, others, second, h'', rfl⟩ := List.forall₂_cons_left_iff.1 h'
  obtain ⟨_, others, third, ⟨⟩, rfl⟩ := List.forall₂_cons_left_iff.1 h''
  cases first with | repeatedValue conditions =>
  cases second with | repeatedStatement branches =>
  cases third with
  | absent => exact ⟨_, _, [], rfl, conditions, branches⟩
  | optionalStatement => exact ⟨_, _, _, rfl, conditions, branches⟩

theorem declaredCount_conditional {blockId : String} {mutation : SortedMap String String}
    {count : Nat} (declared : (additional? mutation).map (1 + ·) = some count)
    (small : count ≤ maxCount) : declaredCount .ifElse blockId mutation = .ok (some count) := by
  obtain ⟨n, read, rfl⟩ := Option.map_eq_some_iff.1 declared
  rw [declaredCount, if_pos rfl]
  rw [additional?] at read
  cases entry : mutation.get? "elseif" with
  | none =>
    rw [entry] at read
    cases read
    rfl
  | some text =>
    rw [entry] at read
    have lt : n < maxCount := by omega
    have count : readCount? text = some n := read
    simp only [count, if_pos lt, Nat.add_comm 1 n]

/-- What a node is written as is divided as the node was written. -/
theorem divide_of_writes {n : Node} {type : String} {portions : List (Portion Block)}
    (h : n.WellFormed) (known : KindRegistry.core.lookup type = some n.kind)
    (rows : List.Forall₂ Writes (n.kind.fields.zip n.phrase.slots) portions)
    (of : List.Forall₂ (fun row p => p.Of row) n.kind.fields portions) :
    divide .core (tidyLayer (writtenLayer n type) portions) = .ok (n.kind, portions) := by
  by_cases conditional : n.kind = .ifElse
  · obtain ⟨conditions, branches, otherwise, phrase⟩ := phrase_of_ifElse conditional
    have branching := branches_of_phrase h phrase
    have fills := h.rows
    rw [conditional, phrase] at rows fills
    have bodies : ∀ n ∈ branches, n.IsBody :=
      fills _ (List.mem_cons_of_mem _ List.mem_cons_self)
    obtain ⟨os, bs, last, rfl, values, chains⟩ := conditionalPortions_of_writes rows
    rw [conditional] at known ⊢
    have conditionsLength := values.length_eq
    have branchesLength := chains.length_eq
    refine divide_conditional known ?_ ?_ ?_ ?_ ?_
    · exact declaredCount_conditional (conditionsLength ▸ branching.declared.1)
        (conditionsLength ▸ branching.declared.2)
    · rw [← conditionsLength, ← branchesLength, branching.same]
    · exact conditionsLength ▸ branching.declared.2
    · rw [← countP_eq_of_forall₂ values fun n _ o h => isNone_of_writesValue h]
      exact branching.fewConditions
    · rw [← countP_eq_of_forall₂ chains fun n hn bs h =>
        (isEmpty_of_writesChain (bodies n hn) h).symm]
      exact branching.fewBranches
  · exact divide_tabular known conditional of

theorem buildable_of_wellFormed {n : Node} (h : n.WellFormed)
    (core : n.kind ∈ Kind.coreBlockKinds) : n.phrase.Buildable := by
  rw [Node.kind] at core
  cases phrase : n.phrase with
  | ifElse conditions branches otherwise =>
    have branching := branches_of_phrase h phrase
    obtain ⟨count, -, length⟩ := Option.map_eq_some_iff.1 branching.declared.1
    refine ⟨?_, branching.same.symm⟩
    rw [← List.length_pos_iff]
    omega
  | stmtList | emptyExpr | extension =>
    rw [phrase] at core
    simp [Phrase.kind, Kind.coreBlockKinds] at core
  | _ => trivial

theorem checkElse_of_wellFormed {n : Node} (h : n.WellFormed) (blockId : String) :
    checkElse blockId n.attributes.mutation (n.phrase.map Node.plain) = .ok () := by
  by_cases conditional : n.kind = .ifElse
  · obtain ⟨conditions, branches, otherwise, phrase⟩ := phrase_of_ifElse conditional
    have branching := branches_of_phrase h phrase
    rw [phrase]
    refine checkElse_eq_ok_iff.2 ⟨branching.readable, fun last => branching.last ?_⟩
    simpa using last
  · exact checkElse_of_ne (by rwa [Phrase.kind_map])

/-- A well-formed node of a block is written as a block with its content, if the nodes below it
can be written and read. -/
theorem exists_restores {n : Node} (h : n.WellFormed) (core : n.kind ∈ Kind.coreBlockKinds)
    (inside : ∀ c ∈ n.children, Rebuilt c) : ∃ b, Restores n b := by
  have buildable := buildable_of_wellFormed h core
  obtain ⟨type, blockType, known⟩ := blockType_core n.kind core
  obtain ⟨id, blockId, named⟩ : ∃ id, n.blockId? = some id ∧ id ≠ "" := by
    obtain ⟨-, some, ne⟩ := h.block (by rw [blockType]; simp)
    obtain ⟨id, e⟩ := Option.ne_none_iff_exists'.1 some
    exact ⟨id, e, fun empty => ne (by rw [e, empty])⟩
  have fits : List.Forall₂ (fun row v => SlotValue.fits row.mode v = true) n.kind.fields
      n.phrase.slots := (Phrase.suits_slots buildable).imp fun row v suits => fits_of_suits suits
  -- Every row of the table is written as a portion.
  have each : ∀ row ∈ n.kind.fields.zip n.phrase.slots, ∃ p : Portion Block,
      Writes row p ∧ p.content .core = .ok (row.2.map Node.plain) := fun row hrow => by
    refine exists_writes (List.forall₂_zip fits hrow) (h.rows row hrow) fun c hc => inside c ?_
    rw [Node.children, buildable.children]
    exact List.mem_flatMap.2 ⟨row.2, (List.of_mem_zip hrow).2, hc⟩
  obtain ⟨portions, written⟩ := Except.exists_forall₂_iff.2 each
  have rows := written.imp fun _ _ h => h.1
  have length : n.kind.fields.length = n.phrase.slots.length := fits.length_eq
  have of : List.Forall₂ (fun row p => p.Of row) n.kind.fields portions := by
    rw [← List.map_fst_zip length.le, List.forall₂_map_left_iff]
    exact rows.imp fun row p h => h.of
  have filled : List.Forall₂ (fun p v => p.content .core = .ok v) portions
      (n.phrase.map Node.plain).slots := by
    rw [Phrase.slots_map, ← List.map_snd_zip length.ge, List.map_map, List.forall₂_map_right_iff]
    exact (written.imp fun row p h => h.2).flip
  refine ⟨_, block_of_writes blockType rows, content_eq_ok_iff.2 ⟨?_, portions,
    n.phrase.map Node.plain, ?_, filled, (Phrase.buildable_map_iff _ _).2 buildable,
    checkElse_of_wellFormed h _, ?_⟩⟩
  · change n.label ≠ ""
    rw [Node.label, blockId]
    exact named
  · rw [Phrase.kind_map]
    exact divide_of_writes h known rows of
  · obtain ⟨⟨_, _, _, _, _, _, _⟩, p⟩ := n
    cases blockId
    exact Node.plain_mk _ p

theorem mem_children_of_mem_statements {n c : Node} (h : c ∈ n.statements) : c ∈ n.children := by
  rw [Node.statements] at h
  rw [Node.children]
  split at h
  · next chain =>
    rw [chain]
    exact h
  · cases h

/-- All well-formed nodes can be written and read. -/
theorem rebuilt {n : Node} (h : ∀ m ∈ n.walk, m.WellFormed) : Rebuilt n := by
  induction n using Node.induction with
  | step n ih =>
    rw [Node.walk_eq] at h
    have inside : ∀ c ∈ n.children, Rebuilt c := fun c hc =>
      ih c hc fun m hm => h m (List.mem_cons_of_mem _ (List.mem_flatMap.2 ⟨c, hc, hm⟩))
    have wellFormed := h n List.mem_cons_self
    refine ⟨wellFormed, fun core => exists_restores wellFormed core inside, fun c hc => ?_⟩
    exact (inside c (mem_children_of_mem_statements hc)).block

end Mapping

/-! ## Programs -/

theorem Node.blockIds_plain (n : Node) : n.plain.blockIds = n.blockIds := by
  simp [blockIds, List.filterMap_map]

theorem Program.blockIds_plain (p : Program) : p.plain.blockIds = p.blockIds := by
  simp [blockIds, plain, List.flatMap_map, Node.blockIds_plain]

/-- A well-formed program is written as a document with its content. -/
theorem Program.exists_toDocument {p : Program} (h : p.WellFormed) :
    ∃ d, p.toDocument = .ok d ∧ d.content .core = .ok p.plain := by
  have each : ∀ i ∈ p.instances, ∃ blocks, WritesChain i.body blocks ∧
      chainContent .core none blocks = .ok i.body.plain := fun i hi => by
    refine exists_writesChain (rebuilt fun m hm => ?_) (h.canvas i hi) none nofun
    exact h.nodes m (List.mem_flatMap.2 ⟨i, hi, hm⟩)
  have chains : ∀ i ∈ p.instances, ∃ c : Chain,
      (do return (⟨i.x, i.y, ← (written i.body).chain⟩ : Chain) : Except Error Chain) = .ok c ∧
        canvasContent .core c = .ok { i with body := i.body.plain } := fun i hi => by
    obtain ⟨blocks, written, read⟩ := each i hi
    refine ⟨⟨i.x, i.y, blocks⟩, ?_, canvasContent_eq_ok_iff.2 ⟨_, read, rfl⟩⟩
    rw [show (Mapping.written i.body).chain = .ok blocks from written]
    rfl
  obtain ⟨cs, all⟩ := Except.exists_forall₂_iff.2 chains
  refine ⟨⟨p.formatVersion, p.description, p.tags, cs⟩, ?_, Document.content_eq_ok_iff.2
    ⟨checkVersion_eq_ok_iff.2 h.version, _, ?_, rfl⟩⟩
  · rw [toDocument, Except.mapM_eq_ok_iff.2 (all.imp fun _ _ h => h.1)]
    rfl
  · rw [List.forall₂_map_right_iff]
    exact (all.imp fun _ _ h => h.2).flip

/-- A well-formed program is written, and what is written is read as the same program. -/
theorem Program.reread_of_wellFormed {p : Program} (h : p.WellFormed) :
    ∃ d, p.toDocument = .ok d ∧
      ∀ s, ∃ q s', (ofDocument .core d).run s = (.ok q, s') ∧ q.alike p = true := by
  obtain ⟨d, written, content⟩ := exists_toDocument h
  refine ⟨d, written, fun s => ?_⟩
  have distinct : p.plain.blockIds.Nodup := p.blockIds_plain ▸ h.distinct
  obtain ⟨q, s', read, bare⟩ := ofDocument_eq_ok_iff.2 ⟨content, distinct⟩
  refine ⟨q, s', read, alike_iff.2 ?_⟩
  rw [← plain_bare q, bare, plain_plain]

/-- A program with a conditional of two branches, the second of which lacks its condition and its
statements. It comes from no document: ids repeat, nothing is sealed, and a finding is attached. -/
def unwritten : Program where
  formatVersion := "3.1"
  tags := ["sample"]
  instances :=
    let block (blockId : String) (p : Phrase Node) : Node := .mk { id := ⟨0⟩, blockId } p
    let loose (p : Phrase Node) : Node := .mk { id := ⟨0⟩ } p
    let first := loose (.stmtList [block "c" (.motorStop "A")])
    let last := loose (.stmtList [block "d" (.waitTime (loose .emptyExpr))])
    let header : Header :=
      { id := ⟨7⟩, blockId := "a", diagnostics := [⟨.warning, .note, "unreachable", none⟩],
        attributes := { mutation := .ofList [("elseif", "1"), ("else", "1")] } }
    let conditional : Node := .mk header (.ifElse
      [block "b" (.boolConst true), loose .emptyExpr] [first, loose (.stmtList [])] last)
    [⟨3, -4, loose (.stmtList [conditional])⟩]

theorem Program.wellFormed_unwritten : unwritten.WellFormed := by decide +kernel

theorem Program.reread_unwritten :
    unwritten.WellFormed ∧ ∃ d, unwritten.toDocument = .ok d ∧ ∀ s, ∃ q s',
      (ofDocument .core d).run s = (.ok q, s') ∧ q.alike unwritten = true :=
  ⟨wellFormed_unwritten, reread_of_wellFormed wellFormed_unwritten⟩

end BlockGraph

import BlockGraph.Proofs.Mapping.Writing

/-!
# The nodes of what is read

Reading makes nodes of a certain form only: a node of a block can be rebuilt from its slots and
knows the id of its block, its operands are no chains, and it carries no findings.

* `Node.Regular`: that form.
* `Program.regular_of_ofDocument`: all nodes that are read have it.
* `Program.chain_of_ofDocument`: the chains on the canvas.
-/

namespace BlockGraph

open Mapping

/-- What holds of the nodes that are read. -/
structure Node.Regular (n : Node) : Prop where
  rebuildable : n.phrase.Rebuildable
  paired : n.phrase.Paired
  operands : ∀ o ∈ n.phrase.operands, o.kind ≠ .stmtList
  named : n.kind.blockType.isSome → n.blockId?.isSome
  silent : n.diagnostics = []

namespace Node

theorem regular_bare_iff {n : Node} : n.bare.Regular ↔ n.Regular := by
  have operands : (∀ o ∈ n.bare.phrase.operands, o.kind ≠ .stmtList) ↔
      ∀ o ∈ n.phrase.operands, o.kind ≠ .stmtList := by
    rw [phrase_bare, Phrase.operands_map, List.forall_mem_map]
    simp only [kind_bare]
  constructor
  · intro h
    refine ⟨?_, ?_, operands.1 h.operands, by simpa using h.named, by simpa using h.silent⟩
    · simpa [Phrase.rebuildable_map_iff] using h.rebuildable
    · simpa [Phrase.paired_map_iff] using h.paired
  · intro h
    refine ⟨?_, ?_, operands.2 h.operands, by simpa using h.named, by simpa using h.silent⟩
    · simpa [Phrase.rebuildable_map_iff] using h.rebuildable
    · simpa [Phrase.paired_map_iff] using h.paired

/-- Nodes without a block type are chains and empty expressions. -/
theorem isSome_blockType {n : Node} (chain : n.kind ≠ .stmtList)
    (empty : n.phrase.isEmptyExpr = false) : n.kind.blockType.isSome := by
  obtain ⟨header, p⟩ := n
  cases p with
  | stmtList => exact absurd rfl chain
  | emptyExpr => cases empty
  | _ => rfl

end Node

namespace Mapping

variable {registry : KindRegistry}

/-- Only expressions stand in value slots. -/
theorem isExpression_of_valueContent {slot : String} {b : Option Block} {n : Node}
    (h : valueContent registry slot b = .ok n) : n.kind.isExpression = true := by
  cases b with
  | none =>
    cases h
    rfl
  | some b => exact (valueContent_some_eq_ok_iff.1 h).2

theorem isExpression_of_operand {q : Portion Block} {v : SlotValue Node}
    (h : q.content registry = .ok v) : ∀ o ∈ v.operand, o.kind.isExpression = true := by
  cases v with
  | value n =>
    intro o mem
    obtain rfl := List.mem_singleton.1 mem
    cases q with
    | value slot b =>
      obtain ⟨m, read, e⟩ := Except.bind_eq_ok_iff.1 h
      cases e
      exact isExpression_of_valueContent read
    | literal => cases h
    | optionalStatement slot blocks =>
      cases blocks with
      | nil => cases h
      | cons =>
        obtain ⟨_, -, e⟩ := Except.bind_eq_ok_iff.1 h
        cases e
    | _ =>
      obtain ⟨_, -, e⟩ := Except.bind_eq_ok_iff.1 h
      cases e
  | _ => exact fun o mem => by cases mem

/-- The members of a family of value slots. -/
theorem isExpression_of_condition {members : List (String × Option Block)} {ns : List Node}
    (h : (Portion.repeatedValue members).content registry = .ok (.repeated ns)) :
    ∀ o ∈ ns, o.kind.isExpression = true := by
  obtain ⟨ms, read, e⟩ := Except.bind_eq_ok_iff.1 h
  cases e
  rw [Except.mapM_eq_ok_iff] at read
  exact Except.forall_right_of_forall₂ read fun _ _ h => isExpression_of_valueContent h

/-- The operands of a block are expressions. -/
theorem isExpression_of_content {l : BlockLayer Block} {p : Phrase Node}
    (h : content registry (.mk l) = .ok (blockContent l p)) :
    ∀ o ∈ p.operands, o.kind.isExpression = true := by
  obtain ⟨-, portions, divided, filled⟩ := filled_of_content h
  have general : ∀ o ∈ p.slots.flatMap SlotValue.operand, o.kind.isExpression = true := by
    rw [List.forall_mem_flatMap]
    exact Except.forall_right_of_forall₂ filled fun _ _ h => isExpression_of_operand h
  cases p with
  | ifElse conditions branches otherwise =>
    -- the table tells that the first row takes a family of value slots
    obtain ⟨_, _, -, -, -, taken⟩ := divide_eq_ok_iff.1 divided
    obtain ⟨first, others, of, -, rfl⟩ := List.forall₂_cons_left_iff.1 (Slots.of_takeAll taken)
    cases of
    exact isExpression_of_condition (List.forall₂_cons.1 filled).1
  | stmtList => exact fun o mem => by cases mem
  | _ => exact general

theorem operands_of_content {l : BlockLayer Block} {p : Phrase Node}
    (h : content registry (.mk l) = .ok (blockContent l p)) :
    ∀ o ∈ p.operands, o.kind ≠ .stmtList := by
  intro o mem chain
  have expression := isExpression_of_content h o mem
  rw [chain] at expression
  cases expression

end Mapping

/-- All nodes of a program that was read are regular. -/
theorem Program.regular_of_ofDocument {registry : KindRegistry} {d : Document} {p : Program}
    {s s' : Supply} (read : (ofDocument registry d).run s = (.ok p, s')) :
    ∀ n ∈ p.walk, n.Regular := by
  refine fun n hn => Node.regular_bare_iff.1 (forall_walk_of_ofDocument ?_ ?_ read n hn)
  · intro p none
    refine ⟨.inl none, ?_, ?_, fun some => ?_, rfl⟩
    · cases p with
      | ifElse => cases none
      | _ => trivial
    · cases p with
      | stmtList | emptyExpr => exact fun o mem => by cases mem
      | _ => cases none
    · rw [show (structuralContent p).kind.blockType = Option.none from none] at some
      cases some
  · intro l p content
    have buildable := (filled_of_content content).1
    exact ⟨.inr buildable, buildable.paired, operands_of_content content, fun _ => rfl, rfl⟩

/-- In a program that was read all operands are expressions. -/
theorem Program.isExpression_of_ofDocument {registry : KindRegistry} {d : Document} {p : Program}
    {s s' : Supply} (read : (ofDocument registry d).run s = (.ok p, s')) :
    ∀ n ∈ p.walk, ∀ o ∈ n.phrase.operands, o.kind.isExpression = true := by
  intro n hn
  have bare : ∀ o ∈ n.bare.phrase.operands, o.kind.isExpression = true := by
    refine forall_walk_of_ofDocument (P := fun n => ∀ o ∈ n.phrase.operands,
      o.kind.isExpression = true) (fun p none => ?_) ?_ read n hn
    · cases p with
      | stmtList | emptyExpr => exact fun o mem => by cases mem
      | _ => cases none
    · exact fun l p content => isExpression_of_content content
  rw [Node.phrase_bare, Phrase.operands_map, List.forall_mem_map] at bare
  simpa only [Node.kind_bare] using bare

/-- The chains on the canvas are active. -/
theorem Program.chain_of_ofDocument {registry : KindRegistry} {d : Document} {p : Program}
    {s s' : Supply} (read : (ofDocument registry d).run s = (.ok p, s')) :
    ∀ i ∈ p.instances, i.body.isActive = true ∧
      ∃ statements, i.body.phrase = .stmtList statements := by
  have content := (ofDocument_eq_ok_iff.1 ⟨p, s', read, rfl⟩).1
  obtain ⟨-, is, instances, same⟩ := Document.content_eq_ok_iff.1 content
  have chain : ∀ j ∈ is, ∃ statements, j.body = structuralContent (.stmtList statements) := by
    refine Except.forall_right_of_forall₂ instances fun c j h => ?_
    obtain ⟨body, read, rfl⟩ := canvasContent_eq_ok_iff.1 h
    obtain ⟨statements, -, e⟩ := chainContent_eq_ok_iff.1 read
    exact ⟨statements, e.symm⟩
  intro i hi
  have among : ({ i with body := i.body.bare } : Instance) ∈ is := by
    rw [← show p.bare.instances = is from congrArg Program.instances same]
    exact List.mem_map_of_mem hi
  obtain ⟨statements, bare⟩ := chain _ among
  constructor
  · show i.body.attributes.isActive = true
    rw [← Node.attributes_bare, show i.body.bare = _ from bare]
    rfl
  · obtain ⟨cs, phrase, -⟩ := Phrase.exists_of_map_eq_stmtList (phrase_of_structural bare)
    exact ⟨cs, phrase⟩

end BlockGraph

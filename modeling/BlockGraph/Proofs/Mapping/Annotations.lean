import BlockGraph.Mapping.Writing
import BlockGraph.Proofs.Document.Canonical
import BlockGraph.Proofs.Except
import BlockGraph.Proofs.Node.Content

/-!
# Annotations

What is written of a program depends on the findings attached to its nodes in the annotations
only: a program with other findings is written as the same document with other annotations.

* `Document.annotated`: a document with other annotations.
* `Program.toDocument_mapHeaders`: how a program with other findings is written.
-/

namespace BlockGraph

/-! ## Documents with other annotations -/

namespace Block

/-- A block with other annotations, given for the id of each block. -/
def annotated (notes : String → List Annotation) : Block → Block :=
  recurse fun l => mk { l.map (·.result) with annotations := notes l.id }

variable (notes notes' : String → List Annotation)

theorem annotated_mk (l : BlockLayer Block) : (mk l).annotated notes =
    mk { l.map (annotated notes) with annotations := notes l.id } := by
  rw [annotated, recurse_mk, BlockLayer.map_map]
  rfl

@[simp] theorem layer_annotated (b : Block) : (b.annotated notes).layer =
    { b.layer.map (annotated notes) with annotations := notes b.layer.id } := by
  obtain ⟨l⟩ := b
  rw [annotated_mk]
  rfl

/-- Only the last annotations count. -/
theorem annotated_annotated (b : Block) :
    (b.annotated notes).annotated notes' = b.annotated notes' := by
  induction b using Block.induction with
  | step l ih =>
    have inside : (l.map (annotated notes)).map (annotated notes') = l.map (annotated notes') := by
      rw [BlockLayer.map_map]
      exact map_congr_children ih
    rw [annotated_mk, annotated_mk, annotated_mk, ← inside]
    rfl

theorem preorder_annotated (b : Block) :
    (b.annotated notes).preorder = b.preorder.map (annotated notes) := by
  induction b using Block.induction with
  | step l ih =>
    rw [annotated_mk, preorder_mk, preorder_mk, List.map_cons, annotated_mk, List.map_flatMap]
    change _ :: (l.map (annotated notes)).children.flatMap preorder = _
    rw [BlockLayer.children_map, List.flatMap_map, List.flatMap_congr ih]

end Block

namespace Document

/-- A document with other annotations, given for the id of each block. -/
def annotated (notes : String → List Annotation) (d : Document) : Document :=
  { d with instances := d.instances.map fun c => { c with
      blocks := c.blocks.map (Block.annotated notes) } }

/-- A document without annotations. -/
def unannotated (d : Document) : Document := d.annotated fun _ => []

variable (notes notes' : String → List Annotation) (d : Document)

theorem annotated_annotated : (d.annotated notes).annotated notes' = d.annotated notes' := by
  simp [annotated, Block.annotated_annotated]

theorem blocks_annotated : (d.annotated notes).blocks = d.blocks.map (Block.annotated notes) := by
  simp [blocks, annotated, List.flatMap_map, List.map_flatMap, Block.preorder_annotated]

end Document

/-! ## Writing programs with other findings -/

namespace Mapping

/-- What a node is written as, with `f` applied to every block. -/
def Written.map (f : Block → Block) (w : Written) : Written :=
  ⟨w.block.map f, w.chain.map (List.map f)⟩

namespace WrittenSlots

/-- Applies `f` to every block in the slots. -/
def map (f : Block → Block) (s : WrittenSlots) : WrittenSlots :=
  { s with values := s.values.map (ValueSlot.map f)
           statements := s.statements.map (StatementSlot.map f) }

variable (g : Header → Header) (f : Block → Block)

/-- A child with another header, and with `f` applied to what it is written as. -/
def exchanged (c : Visited Written) : Visited Written := ⟨c.node.mapHeaders g, c.result.map f⟩

theorem addValue_exchanged (s : WrittenSlots) (name : String) (c : Visited Written) :
    (s.map f).addValue name (exchanged g f c) = (s.addValue name c).map (map f) := by
  have block : (do
      let block ← c.result.block.map f
      return { s.map f with values := (s.map f).values ++ [⟨name, block⟩] } :
        Except Error WrittenSlots) = (do
      let block ← c.result.block
      return { s with values := s.values ++ [⟨name, block⟩] } :
        Except Error WrittenSlots).map (map f) := by
    cases c.result.block with
    | error e => rfl
    | ok b => simp [map, Except.map, bind, Except.bind, pure, Except.pure, ValueSlot.map]
  unfold addValue exchanged
  simp only [Node.phrase_mapHeaders]
  cases c.node.phrase with
  | emptyExpr | stmtList => rfl
  | _ => exact block

theorem addStatement_exchanged (s : WrittenSlots) (name : String) (c : Visited Written) :
    (s.map f).addStatement name (exchanged g f c) = (s.addStatement name c).map (map f) := by
  unfold addStatement exchanged Written.map
  cases c.result.chain with
  | error e => rfl
  | ok blocks =>
    cases blocks with
    | nil => rfl
    | cons b blocks =>
      simp [map, Except.map, bind, Except.bind, pure, Except.pure, StatementSlot.map]

theorem addRow_exchanged (s : WrittenSlots) (row : FieldSpec × SlotValue (Visited Written)) :
    (s.map f).addRow (row.1, row.2.map (exchanged g f)) = (s.addRow row).map (map f) := by
  obtain ⟨spec, v⟩ := row
  cases v with
  | literal text => rfl
  | value c => exact addValue_exchanged g f s spec.external c
  | statement c => exact addStatement_exchanged g f s spec.external c
  | optionalStatement o =>
    cases o with
    | none => rfl
    | some c => exact addStatement_exchanged g f s spec.external c
  | repeated cs =>
    unfold addRow
    simp only [SlotValue.map, List.zipIdx_map]
    refine Except.foldlM_map (fun s c => ?_) _ s
    split
    · exact addValue_exchanged g f s _ c.1
    · exact addStatement_exchanged g f s _ c.1

end WrittenSlots

open WrittenSlots

/-- Changes of the headers that leave alone what is written of a block beside its annotations. -/
def KeepsContent (g : Header → Header) : Prop :=
  ∀ h, { g h with edition := h.edition, sealed := h.sealed, diagnostics := h.diagnostics } = h

section

variable {g : Header → Header} {notes : String → List Annotation}

theorem writeBlock_exchanged (keeps : KeepsContent g) {n : Node}
    (noted : n.kind.blockType.isSome → (g n.header).diagnostics.map annotation = notes n.label)
    (p : Phrase (Visited Written)) :
    writeBlock (n.mapHeaders g) (p.map (exchanged g (Block.annotated notes))) =
      (writeBlock n p).map (Block.annotated notes) := by
  have same := keeps n.header
  have id : (n.mapHeaders g).label = n.label := by
    have id := congrArg Header.id same
    have blockId := congrArg Header.blockId same
    simp only at id blockId
    simp [Node.label, Node.blockId?, Node.id, id, blockId]
  have attributes := congrArg Header.attributes same
  have comment := congrArg Header.comment same
  unfold writeBlock
  rw [Node.kind_mapHeaders]
  cases type : n.kind.blockType with
  | none => rfl
  | some type =>
    have rows :
        (n.kind.fields.zip (p.map (exchanged g (Block.annotated notes))).slots).foldlM addRow {} =
          ((n.kind.fields.zip p.slots).foldlM addRow {}).map (map (.annotated notes)) := by
      rw [Phrase.slots_map, List.zip_map_right]
      exact Except.foldlM_map (fun s row => addRow_exchanged g (.annotated notes) s row) _ {}
    simp only [rows]
    cases (n.kind.fields.zip p.slots).foldlM addRow {} with
    | error e => rfl
    | ok slots =>
      change Except.ok (Block.mk _) = Except.ok (Block.annotated notes (.mk _))
      rw [Block.annotated_mk]
      simp only [BlockLayer.map, id, Node.attributes, Node.comment?, Node.diagnostics,
        Node.header_mapHeaders, noted (type ▸ rfl)]
      rw [show (g n.header).attributes = _ from attributes,
        show (g n.header).comment = _ from comment]
      rfl

theorem writeChain_exchanged (f : Block → Block) (n : Node) (p : Phrase (Visited Written)) :
    writeChain (n.mapHeaders g) (p.map (exchanged g f)) = (writeChain n p).map (List.map f) := by
  cases p with
  | stmtList cs => exact Except.mapM_map fun _ _ => rfl
  | _ =>
    change Except.error (Error.contract (n.mapHeaders g).kind .notAChain) = _
    rw [Node.kind_mapHeaders]
    rfl

/-- A node with other findings below it is written with other annotations. -/
theorem written_mapHeaders (keeps : KeepsContent g) {n : Node}
    (noted : ∀ m ∈ n.walk, m.kind.blockType.isSome →
      (g m.header).diagnostics.map annotation = notes m.label) :
    written (n.mapHeaders g) = (written n).map (.annotated notes) := by
  induction n using Node.induction with
  | step n ih =>
    rw [Node.walk_eq, List.forall_mem_cons, List.forall_mem_flatMap] at noted
    have children : (n.mapHeaders g).phrase.map (fun c => ⟨c, written c⟩) =
        (n.phrase.map fun c => ⟨c, written c⟩).map (exchanged g (.annotated notes)) := by
      rw [Node.phrase_mapHeaders, Phrase.map_map, Phrase.map_map]
      refine Phrase.map_congr_children fun c hc => ?_
      simp only [Function.comp_apply, exchanged, ih c hc (noted.2 c hc)]
    rw [written, Node.recurse_eq, Node.recurse_eq]
    change Written.mk (writeBlock _ ((n.mapHeaders g).phrase.map fun c => ⟨c, written c⟩))
      (writeChain _ ((n.mapHeaders g).phrase.map fun c => ⟨c, written c⟩)) = _
    rw [children, writeBlock_exchanged keeps noted.1, writeChain_exchanged]
    rfl

end

end Mapping

open Mapping

/-- A program with other findings is written as the same document with other annotations. -/
theorem Program.toDocument_mapHeaders {g : Header → Header} {notes : String → List Annotation}
    (keeps : KeepsContent g) {p : Program}
    (noted : ∀ n ∈ p.walk, n.kind.blockType.isSome →
      (g n.header).diagnostics.map annotation = notes n.label) :
    (p.mapHeaders g).toDocument = p.toDocument.map (Document.annotated notes) := by
  let chain (i : Instance) : Except Error Chain := do
    return ⟨i.x, i.y, ← (written i.body).chain⟩
  have chains : (p.mapHeaders g).instances.mapM chain = (p.instances.mapM chain).map
      (List.map fun c => { c with blocks := c.blocks.map (Block.annotated notes) }) := by
    refine Except.mapM_map fun i hi => ?_
    have body := written_mapHeaders keeps (n := i.body) fun n hn =>
      noted n (List.mem_flatMap.2 ⟨i, hi, hn⟩)
    simp only [chain, body, Written.map]
    cases (written i.body).chain <;> rfl
  unfold toDocument
  change ((p.mapHeaders g).instances.mapM chain >>= _) = (p.instances.mapM chain >>= _).map _
  rw [chains]
  cases p.instances.mapM chain <;> rfl

end BlockGraph

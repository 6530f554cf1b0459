import BlockGraph.Proofs.Checking.Examined
import BlockGraph.Proofs.Mapping.Annotations
import BlockGraph.Proofs.Mapping.Grammar
import BlockGraph.Proofs.Mapping.Identity
import BlockGraph.Proofs.Node.Copy

/-!
# Annotated programs

A run reports its findings at nodes that are blocks of the program. So they all show in the copy of
the program that they are attached to, and in the document that this copy is written as.

* `DiagnosticStore.Annotates`: a copy that carries all findings and differs in nothing else.
* `DiagnosticStore.annotates_of_within`: attaching findings about blocks makes such a copy.
* `Platform.within_validate`: the findings of a run are about blocks.
* `Program.annotates_of_ofDocument`: annotating a program that was read loses nothing.
-/

namespace BlockGraph

open Mapping

/-- Whether a node is a block of the program. -/
def Program.IsBlock (p : Program) (n : Node) : Prop := n ∈ p.walk ∧ n.blockId?.isSome

namespace DiagnosticStore

/-- The annotations that stand for the findings about a block, in the order of the findings. -/
def notes (store : DiagnosticStore) (id : String) : List Annotation :=
  (store.toList.filter (·.blockId? = some id)).map annotation

/-- Whether a document is another one with all findings written beside their blocks. -/
structure Shows (store : DiagnosticStore) (plain noted : Document) : Prop where
  same : noted.unannotated = plain
  notes : ∀ b ∈ noted.blocks, b.layer.annotations = store.notes b.layer.id
  total : (noted.blocks.flatMap (·.layer.annotations)).length = store.size

/-- Whether `a` is a copy of `p` that carries all findings and differs in nothing else. -/
structure Annotates (store : DiagnosticStore) (p a : Program) : Prop where
  alike : a.alike p = true
  ids : a.ids = p.ids
  documents : ∃ plain noted, p.toDocument = .ok plain ∧ a.toDocument = .ok noted ∧
    store.Shows plain noted
  severity : a.maxSeverity? = store.maxSeverity?

/-! ## Findings about blocks -/

/-- Whether the findings can be looked up and are all about blocks of the program. -/
structure Within (store : DiagnosticStore) (p : Program) : Prop where
  indexed : store.Indexed
  located : ∀ d ∈ store.toList, ∃ n, p.IsBlock n ∧ d.location = some n.location

theorem within_pushAll {p : Program} {found : List (Node × Diagnostic)}
    (places : ∀ e ∈ found, p.IsBlock e.1) : (({} : DiagnosticStore).pushAll found).Within p where
  indexed := indexed_empty.pushAll found
  located d hd := by
    rw [toList_pushAll] at hd
    obtain ⟨e, he, rfl⟩ := List.mem_map.1 hd
    exact ⟨e.1, places e he, rfl⟩

namespace Within

variable {store : DiagnosticStore} {p : Program}

/-- The findings about the node of a block are those that name the block. -/
theorem forNode_eq (h : store.Within p) (distinct : p.ids.Nodup) (blocks : p.blockIds.Nodup)
    {n : Node} (mem : n ∈ p.walk) {id : String} (block : n.blockId? = some id) :
    store.forNode n.id = store.toList.filter (·.blockId? = some id) := by
  rw [h.indexed.forNode]
  refine List.filter_congr fun d hd => decide_eq_decide.2 ?_
  obtain ⟨m, ⟨here, -⟩, location⟩ := h.located d hd
  have node : d.node? = some m.id := by rw [Diagnostic.node?, location]; rfl
  have blockId : d.blockId? = m.blockId? := by rw [Diagnostic.blockId?, location]; rfl
  rw [node, blockId, Option.some_inj]
  constructor
  · intro same
    rw [List.inj_on_of_nodup_map distinct here mem same, block]
  · intro same
    rw [Program.eq_of_blockId? blocks here mem same block]

/-- The findings about all nodes, one after the other, are all findings. -/
theorem perm_flatMap_forNode (h : store.Within p) (distinct : p.ids.Nodup) :
    (p.ids.flatMap store.forNode).Perm store.toList := by
  apply h.indexed.perm_flatMap_forNode distinct
  intro d hd
  obtain ⟨n, ⟨mem, -⟩, location⟩ := h.located d hd
  refine ⟨n.id, List.mem_map_of_mem mem, ?_⟩
  rw [Diagnostic.node?, location]
  rfl

/-- The findings that name the blocks of a document, one block after the other, are all findings. -/
theorem perm_flatMap_filter_blockId? (h : store.Within p) {ids : List String}
    (perm : p.blockIds.Perm ids) (blocks : p.blockIds.Nodup) :
    (ids.flatMap fun id => store.toList.filter (·.blockId? = some id)).Perm store.toList := by
  refine perm_flatMap_filter (perm.nodup_iff.1 blocks) fun d hd => ?_
  obtain ⟨n, ⟨mem, named⟩, location⟩ := h.located d hd
  obtain ⟨id, named⟩ := Option.isSome_iff_exists.1 named
  refine ⟨id, perm.mem_iff.1 ?_, ?_⟩
  · rw [Program.blockIds_eq]
    exact List.mem_filterMap.2 ⟨n, mem, named⟩
  · rw [Diagnostic.blockId?, location]
    exact named

end Within

/-! ## Attaching findings -/

/-- A copy of a program with the findings attached to its nodes. -/
def attached (store : DiagnosticStore) (edition : Nat) (p : Program) : Program :=
  p.mapHeaders fun h => (h.copied edition).annotated store

section Attached

variable {store : DiagnosticStore} {p : Program} (edition : Nat)

theorem alike_attached : (store.attached edition p).alike p = true := by
  rw [Program.alike_iff, attached, Program.plain_eq, Program.plain_eq,
    Program.mapHeaders_mapHeaders]
  rfl

theorem ids_attached : (store.attached edition p).ids = p.ids := by
  rw [attached]
  exact p.ids_mapHeaders (g := fun h => (h.copied edition).annotated store) fun _ => rfl

theorem maxSeverity?_attached (within : store.Within p) (distinct : p.ids.Nodup)
    (silent : ∀ n ∈ p.walk, n.diagnostics = []) :
    (store.attached edition p).maxSeverity? = store.maxSeverity? := by
  have all : (store.attached edition p).walk.flatMap (·.diagnostics) =
      p.ids.flatMap store.forNode := by
    rw [attached, Program.walk_mapHeaders, List.flatMap_map, Program.ids, List.flatMap_map]
    refine List.flatMap_congr fun n hn => ?_
    rw [Node.diagnostics, Node.header_mapHeaders]
    change n.diagnostics ++ store.forNode n.id = _
    rw [silent n hn, List.nil_append]
  rw [Program.maxSeverity?, all]
  exact Severity.max?_eq_of_perm ((within.perm_flatMap_forNode distinct).map _)

theorem toDocument_attached (within : store.Within p) (distinct : p.ids.Nodup)
    (blocks : p.blockIds.Nodup) (regular : ∀ n ∈ p.walk, n.Regular) :
    (store.attached edition p).toDocument = p.toDocument.map (Document.annotated store.notes) := by
  refine Program.toDocument_mapHeaders (g := fun h => (h.copied edition).annotated store)
    (fun _ => rfl) fun n hn block => ?_
  obtain ⟨id, named⟩ := Option.isSome_iff_exists.1 ((regular n hn).named block)
  have label : n.label = id := by rw [Node.label, named]; rfl
  change (n.diagnostics ++ store.forNode n.id).map annotation = _
  rw [(regular n hn).silent, List.nil_append, within.forNode_eq distinct blocks hn named, label]
  rfl

end Attached

/-- What is written without findings has no annotations. -/
theorem unannotated_of_silent {p : Program} (silent : ∀ n ∈ p.walk, n.diagnostics = [])
    {plain : Document} (written : p.toDocument = .ok plain) : plain.unannotated = plain := by
  have bare : (p.mapHeaders fun h => h).toDocument = p.toDocument.map Document.unannotated :=
    Program.toDocument_mapHeaders (fun _ => rfl) fun n hn _ =>
      congrArg (List.map annotation) (silent n hn)
  rw [Program.mapHeaders_id, written] at bare
  exact (Except.ok.inj bare).symm

theorem shows_annotated {store : DiagnosticStore} {p : Program} (within : store.Within p)
    {plain : Document} (perm : p.blockIds.Perm (plain.blocks.map (·.layer.id)))
    (blocks : p.blockIds.Nodup) (bare : plain.unannotated = plain) :
    store.Shows plain (plain.annotated store.notes) where
  same := by
    rw [Document.unannotated, Document.annotated_annotated]
    exact bare
  notes := by
    rw [Document.blocks_annotated, List.forall_mem_map]
    intro b _
    rw [Block.layer_annotated]
    rfl
  total := by
    have all : (plain.annotated store.notes).blocks.flatMap (·.layer.annotations) =
        ((plain.blocks.map (·.layer.id)).flatMap fun id =>
          store.toList.filter (·.blockId? = some id)).map annotation := by
      rw [Document.blocks_annotated, List.flatMap_map, List.map_flatMap, List.flatMap_map]
      refine List.flatMap_congr fun b _ => ?_
      rw [Block.layer_annotated]
      rfl
    rw [all, List.length_map, (within.perm_flatMap_filter_blockId? perm blocks).length_eq]
    rfl

/-- Attaching findings about blocks to a program that was read loses none of them. -/
theorem annotates_of_within {specs : List ExtensionSpec} {registry : KindRegistry}
    (registered : KindRegistry.core.registerAll specs = .ok registry) {d : Document} {p : Program}
    {s s' : Supply} (read : (Program.ofDocument registry d).run s = (.ok p, s'))
    {store : DiagnosticStore} (within : store.Within p) (t : Supply) :
    ∃ a t', (store.annotate p).run t = (.ok a, t') ∧ store.Annotates p a := by
  have regular := Program.regular_of_ofDocument read
  have silent : ∀ n ∈ p.walk, n.diagnostics = [] := fun n hn => (regular n hn).silent
  have distinct := (Program.ids_of_ofDocument read).2.1
  obtain ⟨content, blocks⟩ := Program.ofDocument_eq_ok_iff.1 ⟨p, s', read, rfl⟩
  rw [Program.blockIds_bare] at blocks
  have written := Program.toDocument_of_content
    (KindRegistry.consistent_of_registerAll registered) content
  have perm : p.blockIds.Perm ((d.tidy registry).blocks.map (·.layer.id)) := by
    rw [← Program.blockIds_bare]
    exact (Document.perm_of_content content).trans
      (Document.perm_ids_of_canonical_eq (Document.canonical_tidy content).symm)
  have noted := toDocument_attached t.nextEdition within distinct blocks regular
  rw [written] at noted
  refine ⟨store.attached t.nextEdition p, t.afterEdition, ?_, alike_attached _, ids_attached _, ?_,
    maxSeverity?_attached _ within distinct silent⟩
  · exact annotate_run store (fun n hn => (regular n hn).rebuildable) t
  · exact ⟨_, _, written, noted, shows_annotated within perm blocks
      (unannotated_of_silent silent written)⟩

end DiagnosticStore

/-! ## Runs -/

/-- A platform that is built in, or has the checks that a platform has unless it brings its own. -/
def Platform.Known (platform : Platform) : Prop :=
  (∃ name, PlatformRegistry.builtin.get name = .ok platform) ∨ ∃ board, platform = { board }

theorem Platform.exists_orderly {platform : Platform} (known : platform.Known)
    (Place : Node → Prop) :
    ∃ display, platform.Orderly ⟨platform.board, display, Place⟩ := by
  rcases known with ⟨name, known⟩ | ⟨board, rfl⟩
  · exact ⟨_, Boards.orderly_of_builtin known Place⟩
  · exact ⟨_, Platform.orderly_default board Place⟩

/-- The blocks of a program that was read, and the operands that are blocks, may be reported on. -/
theorem Program.admits_of_regular {p : Program} (regular : ∀ n ∈ p.walk, n.Regular) {board : Board}
    {display : String} {n : Node} (hn : n ∈ p.walk) :
    Frame.Admits ⟨board, display, p.IsBlock⟩ n where
  paired := (regular n hn).paired
  node block := ⟨hn, (regular n hn).named block⟩
  operand o mem nonempty := by
    have child : o ∈ n.children := n.phrase.operands_subset_children mem
    have inside : o ∈ p.walk := by
      refine walk_subset hn ?_
      rw [Node.walk_eq]
      exact List.mem_cons_of_mem _ (List.mem_flatMap.2 ⟨o, child, o.mem_walk_self⟩)
    have block := Node.isSome_blockType ((regular n hn).operands o mem) nonempty
    exact ⟨inside, (regular o inside).named block⟩

/-- The findings of a run are about blocks. -/
theorem Platform.within_validate {platform : Platform} (known : platform.Known) {p : Program}
    (regular : ∀ n ∈ p.walk, n.Regular) (config : HardwareConfig) :
    (platform.validate p config).diagnostics.Within p := by
  obtain ⟨display, orderly⟩ := exists_orderly known p.IsBlock
  have gains := Checker.gains_run orderly (fun n hn => Program.admits_of_regular regular hn)
    { config }
  obtain ⟨found, store, places⟩ := gains.findings
  have reported : (platform.validate p config).diagnostics =
      ({} : DiagnosticStore).pushAll found := store
  rw [reported]
  exact DiagnosticStore.within_pushAll places

/-- Annotating a program that was read with the findings of a run loses nothing. -/
theorem Program.annotates_of_ofDocument {specs : List ExtensionSpec} {registry : KindRegistry}
    (registered : KindRegistry.core.registerAll specs = .ok registry) {d : Document} {p : Program}
    {s s' : Supply} (read : (ofDocument registry d).run s = (.ok p, s')) {platform : Platform}
    (known : platform.Known) (config : HardwareConfig) (t : Supply) :
    ∃ a t', ((platform.validate p config).annotate p).run t = (.ok a, t') ∧
      (platform.validate p config).diagnostics.Annotates p a :=
  DiagnosticStore.annotates_of_within registered read
    (Platform.within_validate known (regular_of_ofDocument read) config) t

/-- A motor at a port that there is not, with the negation of nothing as its power. -/
def faulty : Document where
  formatVersion := "3.1"
  instances := [{ blocks := [.mk {
    id := "a", type := "robActions_motor_setPower", fields := [⟨"MOTORPORT", "Z"⟩]
    values := [⟨"POWER", .mk { id := "b", type := "logic_negate" }⟩] }] }]

/-- Two findings about one block and one about the other. -/
theorem Program.annotates_faulty :
    ∃ p s, (ofDocument .core faulty).run {} = (.ok p, s) ∧
      (Boards.ev3.validate p { robot := "ev3" }).diagnostics.toList.map (·.blockId?) =
        [some "b", some "b", some "a"] ∧
      ∃ a t, ((Boards.ev3.validate p { robot := "ev3" }).annotate p).run s = (.ok a, t) ∧
        (Boards.ev3.validate p { robot := "ev3" }).diagnostics.Annotates p a := by
  have computed : (match ((ofDocument .core faulty).run {}).1 with
    | .ok p => (Boards.ev3.validate p { robot := "ev3" }).diagnostics.toList.map (·.blockId?)
    | .error _ => []) = [some "b", some "b", some "a"] := by decide +kernel
  rcases read : (ofDocument .core faulty).run {} with ⟨_ | p, s⟩
  · rw [read] at computed
    cases computed
  · rw [read] at computed
    have registered : KindRegistry.core.registerAll [] = .ok .core := rfl
    exact ⟨p, s, rfl, computed,
      annotates_of_ofDocument registered read (.inl ⟨"ev3", rfl⟩) { robot := "ev3" } s⟩

end BlockGraph

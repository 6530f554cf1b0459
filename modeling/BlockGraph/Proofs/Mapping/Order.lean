import BlockGraph.Proofs.Mapping.Grammar
import BlockGraph.Traversal

/-!
# The order of blocks

Blocks and nodes correspond one to one. The nodes come in the order in which their blocks are
written, and a pass that looks at active nodes only comes to the blocks that are active together
with all blocks around them.

* `Document.lineages`: the blocks of a document, each with the blocks around it.
* `Mapping.Mirrors`: a pass over nodes finds what a pass over blocks finds.
* `Mapping.mirrored`: then both find it in the same order, if no table has values after chains.
* `Program.corresponds_of_ofDocument`: what this means for a program that was read.
-/

namespace BlockGraph

open Mapping

variable {α β γ : Type}

/-! ## Blocks around blocks -/

namespace Block

/-- A block and everything inside it as in `Block.preorder`, with the blocks around each, from the
inside out. -/
def lineages : Block → List (Block × List Block) :=
  recurse fun l =>
    let b := mk (l.map (·.block))
    (b, []) :: l.children.flatMap fun c => c.result.map fun e => (e.1, e.2 ++ [b])

theorem lineages_mk (l : BlockLayer Block) :
    (mk l).lineages =
      (mk l, []) :: l.children.flatMap fun c => c.lineages.map fun e => (e.1, e.2 ++ [mk l]) := by
  rw [lineages, recurse_mk]
  simp only [BlockLayer.map_map, BlockLayer.children_map, List.flatMap_map]
  exact congrArg (fun m => (mk m, []) :: l.children.flatMap fun c => c.lineages.map fun e =>
    (e.1, e.2 ++ [mk m])) l.map_id

/-- Without the blocks around them these are the blocks in document order. -/
theorem map_fst_lineages (b : Block) : b.lineages.map Prod.fst = b.preorder := by
  induction b using Block.induction with
  | step l ih =>
    rw [lineages_mk, preorder_mk, List.map_cons, List.map_flatMap]
    refine congrArg (mk l :: ·) (List.flatMap_congr fun c hc => ?_)
    rw [List.map_map, ← ih c hc]
    rfl

def isActive (b : Block) : Bool := b.layer.attributes.isActive

/-- Whether a block and all blocks around it are active. -/
def takesPart (e : Block × List Block) : Bool := e.1.isActive && e.2.all isActive

/-- The ids of the blocks in a block that take part. -/
def activeIds (b : Block) : List String := (b.lineages.filter takesPart).map (·.1.layer.id)

theorem activeIds_mk (l : BlockLayer Block) :
    (mk l).activeIds = if (mk l).isActive then l.id :: l.children.flatMap activeIds else [] := by
  have inside (c : Block) : ((c.lineages.map fun e => (e.1, e.2 ++ [mk l])).filter takesPart) =
      if (mk l).isActive then (c.lineages.filter takesPart).map fun e => (e.1, e.2 ++ [mk l])
      else [] := by
    rw [List.filter_map]
    split
    · next active =>
      refine congrArg _ (List.filter_congr fun e _ => ?_)
      simp [takesPart, active]
    · next inactive =>
      rw [List.map_eq_nil_iff, List.filter_eq_nil_iff]
      intro e _
      simp [takesPart, inactive]
  rw [activeIds, lineages_mk, List.filter_cons, List.filter_flatMap]
  simp only [inside]
  split
  · next here =>
    have active : (mk l).isActive = true := (Bool.and_eq_true_iff.1 here).1
    simp only [active, if_true, List.map_cons, List.map_flatMap, List.map_map]
    rfl
  · next here =>
    have inactive : ¬(mk l).isActive = true := by
      simpa [takesPart] using here
    simp [inactive]

/-- The block id and the type of a block. -/
def mark (b : Block) : String × Option String := (b.layer.id, some b.layer.type)

def marks (b : Block) : List (String × Option String) := b.preorder.map mark

theorem marks_mk (l : BlockLayer Block) :
    (mk l).marks = (l.id, some l.type) :: l.children.flatMap marks := by
  rw [marks, preorder_mk, List.map_cons, List.map_flatMap]
  rfl

end Block

/-- The blocks of a document in order, each with the blocks around it, from the inside out. -/
def Document.lineages (d : Document) : List (Block × List Block) :=
  d.instances.flatMap fun c => c.blocks.flatMap Block.lineages

theorem Document.map_fst_lineages (d : Document) : d.lineages.map Prod.fst = d.blocks := by
  simp only [lineages, List.map_flatMap, Block.map_fst_lineages]
  rfl

theorem Document.marks_blocks (d : Document) :
    d.blocks.map Block.mark = d.instances.flatMap fun c => c.blocks.flatMap Block.marks := by
  simp only [blocks, List.map_flatMap]
  rfl

theorem Document.activeIds_lineages (d : Document) :
    (d.lineages.filter Block.takesPart).map (·.1.layer.id) =
      d.instances.flatMap fun c => c.blocks.flatMap Block.activeIds := by
  simp only [lineages, List.filter_flatMap, List.map_flatMap]
  rfl

/-- Documents that mean the same have the same ids and types. -/
theorem Document.perm_marks_of_canonical_eq {a b : Document} (h : a.canonical = b.canonical) :
    (a.blocks.map Block.mark).Perm (b.blocks.map Block.mark) := by
  rw [marks_blocks, marks_blocks]
  refine perm_of_canonical_eq (fun l below => ?_) h
  rw [Block.marks_mk, Block.marks_mk]
  exact below.cons _

/-! ## Passes over nodes -/

namespace Node

/-- The block id of a node, if it has one, and the type of its kind. -/
def mark? (n : Node) : Option (String × Option String) := n.blockId?.map (·, n.kind.blockType)

def marks (n : Node) : List (String × Option String) := n.walk.filterMap mark?

theorem marks_eq (n : Node) : n.marks = n.mark?.toList ++ n.children.flatMap marks := by
  rw [marks, walk_eq, List.filterMap_cons, List.filterMap_flatMap]
  cases n.mark? <;> rfl

/-- The block ids of the nodes that a pass reaches. -/
def activeIds (n : Node) : List String := n.reached.filterMap blockId?

theorem activeIds_eq (n : Node) : n.activeIds =
    if n.isActive then n.blockId?.toList ++ n.children.flatMap activeIds else [] := by
  rw [activeIds, reached_eq]
  split
  · rw [List.filterMap_cons, List.filterMap_flatMap]
    cases n.blockId? <;> rfl
  · rfl

theorem marks_bare (n : Node) : n.bare.marks = n.marks := by
  have same : mark? ∘ bare = mark? := by
    funext m
    rw [Function.comp_apply, mark?, mark?, blockId?_bare, kind_bare]
  rw [marks, walk_bare, List.filterMap_map, same, marks]

theorem activeIds_bare (n : Node) : n.bare.activeIds = n.activeIds := by
  induction n using Node.induction with
  | step n ih =>
    have active : n.bare.isActive = n.isActive := by rw [isActive, isActive, attributes_bare]
    rw [activeIds_eq, activeIds_eq, children_bare, List.flatMap_map, List.flatMap_congr ih,
      blockId?_bare, active]

section Record

/-- A handler that notes the id of its block before it runs the children. -/
def recordId (n : Node) (p : Phrase (Visited (StateM (List String) (Option Unit)))) :
    StateM (List String) Unit := do
  modifyThe (List String) (· ++ n.blockId?.toList)
  discard (acceptChildren p)

/-- The ids that a pass over a list of nodes notes. -/
theorem mapM_accept_run {l : List Node}
    (each : ∀ n ∈ l, ∀ ids, ((n.accept recordId).run ids).2 = ids ++ n.activeIds)
    (ids : List String) :
    ((l.mapM (·.accept recordId) : StateM (List String) _).run ids).2 =
      ids ++ l.flatMap activeIds := by
  induction l generalizing ids with
  | nil => exact (List.append_nil ids).symm
  | cons n l ih =>
    rw [List.forall_mem_cons] at each
    rw [List.flatMap_cons, ← List.append_assoc, ← each.1 ids, ← ih each.2, List.mapM_cons]
    rfl

theorem accept_recordId_run (n : Node) (ids : List String) :
    ((n.accept recordId).run ids).2 = ids ++ n.activeIds := by
  induction n using Node.induction generalizing ids with
  | step n ih =>
    rw [accept_eq, activeIds_eq]
    split
    · have below := mapM_accept_run ih (ids ++ n.blockId?.toList)
      rw [List.append_assoc] at below
      rw [← below]
      change ((acceptChildren _ : StateM (List String) _).run _).2 = _
      rw [acceptChildren, Phrase.children_map, List.mapM_map]
      rfl
    · exact (List.append_nil ids).symm

end Record

end Node

/-! ## Tables -/

namespace Mapping

/-- In the table no row for values comes after one for chains. -/
def ValuesFirst (specs : List FieldSpec) : Prop :=
  specs.Pairwise fun a b =>
    a.mode ∈ [.literal, .value, .repeatedValue] ∨ b.mode ∉ [.value, .repeatedValue]

instance (specs : List FieldSpec) : Decidable (ValuesFirst specs) :=
  inferInstanceAs (Decidable (List.Pairwise _ _))

theorem valuesFirst_core {type : String} {kind : Kind}
    (known : KindRegistry.core.lookup type = some kind) : ValuesFirst kind.fields := by
  have all : ∀ kind ∈ Kind.coreBlockKinds, ValuesFirst kind.fields := by decide
  exact all kind (KindRegistry.lookup_core known).1

/-- A portion has blocks of the sort that its row asks for. -/
structure Sorted (spec : FieldSpec) (portion : Portion α) : Prop where
  statements : spec.mode ∈ [.literal, .value, .repeatedValue] → portion.statements = []
  values : spec.mode ∉ [.value, .repeatedValue] → portion.values = []

theorem sorted_of_take {blockId : String} {declared : Option Nat} {s s' : Slots α}
    {spec : FieldSpec} {portion : Portion α}
    (h : s.take blockId declared spec = .ok (portion, s')) : Sorted spec portion := by
  cases Slots.take_eq_ok_iff.1 h with
  | literal => exact ⟨fun _ => rfl, fun _ => rfl⟩
  | value | repeatedValue => exact ⟨fun _ => rfl, fun mode => absurd (by simp) mode⟩
  | statement | optionalStatement | repeatedStatement =>
    exact ⟨fun mode => by simp at mode, fun _ => rfl⟩

theorem sorted_of_takeAll {blockId : String} {declared : Option Nat} {s left : Slots α}
    {specs : List FieldSpec} {portions : List (Portion α)}
    (h : s.takeAll blockId declared specs = .ok (portions, left)) :
    List.Forall₂ Sorted specs portions := by
  induction specs generalizing s portions with
  | nil =>
    cases h
    exact .nil
  | cons spec specs ih =>
    obtain ⟨portion, s', others, first, rest, rfl⟩ := Slots.takeAll_cons_eq_ok_iff.1 h
    exact .cons (sorted_of_take first) (ih rest)

/-- Where values come first, so do their blocks. -/
theorem blocks_of_sorted {specs : List FieldSpec} {portions : List (Portion α)}
    (ordered : ValuesFirst specs) (sorted : List.Forall₂ Sorted specs portions) :
    portions.flatMap Portion.blocks =
      (portions.flatMap Portion.values).map (·.2) ++
        (portions.flatMap Portion.statements).flatMap (·.2) := by
  induction sorted with
  | nil => rfl
  | @cons spec portion specs portions first others ih =>
    obtain ⟨before, ordered⟩ := List.pairwise_cons.1 ordered
    simp only [List.flatMap_cons, ih ordered, Portion.blocks, List.map_append, List.flatMap_append]
    by_cases mode : spec.mode ∈ [.literal, .value, .repeatedValue]
    · rw [first.statements mode]
      simp
    · have after := (List.forall₂_and_left _ _).2
        ⟨fun spec' hs => (before spec' hs).resolve_left mode, others⟩
      have none : portions.flatMap Portion.values = [] := List.flatMap_eq_nil_iff.2 <|
        Except.forall_right_of_forall₂ after fun _ _ h => h.2.values h.1
      rw [none]
      simp

variable {registry : KindRegistry}

theorem children_of_divide {l : BlockLayer α} {kind : Kind} {portions : List (Portion α)}
    (ordered : ValuesFirst kind.fields) (divided : divide registry l = .ok (kind, portions)) :
    (tidyLayer l portions).children = portions.flatMap Portion.blocks := by
  obtain ⟨_, _, -, -, -, taken⟩ := divide_eq_ok_iff.1 divided
  rw [blocks_of_sorted ordered (sorted_of_takeAll taken), BlockLayer.children, tidyLayer,
    List.map_map, List.flatMap_map]
  rfl

/-! ## The same order -/

/-- A pass `f` over nodes finds what a pass `g` over blocks finds: nothing in a node of no block,
and in the node of a block what `g` finds in the block, if that is so of the nodes below it. -/
structure Mirrors (registry : KindRegistry) (f : Node → List γ) (g : Block → List γ) : Prop where
  structural : ∀ p, f (structuralContent p) = p.children.flatMap f
  block : ∀ (l : BlockLayer Block) (p : Phrase Node), registry.lookup l.type = some p.kind →
    p.children.flatMap f = l.children.flatMap g → f (blockContent l p) = g (.mk l)

theorem mirrors_marks (consistent : registry.Consistent) :
    Mirrors registry Node.marks Block.marks where
  structural p := Node.marks_eq _
  block l p known below := by
    have type : p.kind.blockType = some l.type := consistent _ _ known
    rw [Node.marks_eq, Block.marks_mk, ← below, ← type]
    rfl

theorem mirrors_activeIds : Mirrors registry Node.activeIds Block.activeIds where
  structural p := Node.activeIds_eq _
  block l p _ below := by
    rw [Node.activeIds_eq, Block.activeIds_mk, ← below]
    rfl

/-- What is found in the content of a block is found in the block as it is written. -/
theorem mirrored {f : Node → List γ} {g : Block → List γ} (mirrors : Mirrors registry f g)
    (ordered : ∀ type kind, registry.lookup type = some kind → ValuesFirst kind.fields)
    {b : Block} {n : Node} (h : content registry b = .ok n) : f n = g (tidy registry b) := by
  induction b using Block.induction generalizing n with
  | step l ih =>
    obtain ⟨-, portions, p, divided, filled, buildable, -, rfl⟩ := content_eq_ok_iff.1 h
    obtain ⟨_, _, known, -⟩ := divide_eq_ok_iff.1 divided
    rw [tidy_of_divide divided]
    refine mirrors.block ((tidyLayer l portions).map (tidy registry)) p known ?_
    rw [found_of_filled mirrors.structural buildable filled, BlockLayer.children_map,
      children_of_divide (ordered _ _ known) divided, List.flatMap_map]
    refine List.flatMap_congr fun b hb => ?_
    obtain ⟨q, hq, inside⟩ := List.mem_flatMap.1 hb
    obtain ⟨v, content⟩ := Except.exists_forall₂_iff.1 ⟨_, filled⟩ q hq
    obtain ⟨m, read⟩ := exists_content_of_mem content inside
    rw [found_of_content read]
    exact ih b (mem_children_of_divide divided hq inside) read

end Mapping

/-- What is found in the chains of a program is found in its document as it is written. -/
theorem Document.mirrored {registry : KindRegistry} {f : Node → List γ} {g : Block → List γ}
    (mirrors : Mirrors registry f g)
    (ordered : ∀ type kind, registry.lookup type = some kind → ValuesFirst kind.fields)
    {d : Document} {q : Program} (h : d.content registry = .ok q) :
    q.instances.flatMap (fun i => f i.body) =
      (d.tidy registry).instances.flatMap fun c => c.blocks.flatMap g := by
  obtain ⟨-, is, instances, rfl⟩ := content_eq_ok_iff.1 h
  rw [tidy, List.flatMap_map]
  have chains : is.flatMap (fun i => f i.body) =
      d.instances.flatMap fun c => c.blocks.flatMap (found registry f) := by
    refine Except.flatMap_eq_of_forall₂ instances fun c i h => ?_
    obtain ⟨body, read, rfl⟩ := canvasContent_eq_ok_iff.1 h
    exact found_of_chainContent mirrors.structural read
  refine chains.trans (List.flatMap_congr fun c hc => ?_)
  rw [List.flatMap_map]
  refine List.flatMap_congr fun b hb => ?_
  obtain ⟨n, read⟩ := exists_content_of_mem_blocks instances hc hb
  rw [found_of_content read]
  exact Mapping.mirrored mirrors ordered read

/-! ## Programs -/

namespace Program

/-- The block ids that a pass over the chains of a program notes. -/
def acceptedIds (p : Program) : List String :=
  ((p.instances.mapM fun i => i.body.accept Node.recordId : StateM (List String) _).run []).2

theorem acceptedIds_eq (p : Program) : p.acceptedIds = p.instances.flatMap (·.body.activeIds) := by
  have bodies := Node.mapM_accept_run (l := p.instances.map (·.body))
    (fun n _ => n.accept_recordId_run) []
  rwa [List.mapM_map, List.nil_append, List.flatMap_map] at bodies

variable {d : Document} {p : Program} {s s' : Supply}

/-- With the core kinds, what is found in a program is found in its document as it is written. -/
theorem mirrored {f : Node → List γ} {g : Block → List γ} (mirrors : Mirrors .core f g)
    (bare : ∀ n, f n.bare = f n) (h : d.content .core = .ok p.bare) :
    p.instances.flatMap (fun i => f i.body) =
      (d.tidy .core).instances.flatMap fun c => c.blocks.flatMap g := by
  rw [← Document.mirrored mirrors (fun _ _ => valuesFirst_core) h, Program.bare,
    List.flatMap_map]
  exact List.flatMap_congr fun i _ => (bare i.body).symm

theorem findBlock?_of_mem (distinct : (p.walk.filterMap Node.blockId?).Nodup) {n : Node}
    (hn : n ∈ p.walk) {id : String} (block : n.blockId? = some id) : p.findBlock? id = some n := by
  rw [← blockIds_eq] at distinct
  cases found : p.findBlock? id with
  | none =>
    have other := List.find?_eq_none.1 found n hn
    exact absurd (beq_iff_eq.2 block) other
  | some m =>
    have same : m.blockId? = some id := by simpa using List.find?_some found
    rw [eq_of_blockId? distinct (List.mem_of_find?_eq_some found) hn same block]

/-- The nodes of `p` and the blocks of `d` correspond one to one, in the order of `r`. -/
structure Corresponds (p : Program) (d r : Document) : Prop where
  nodup : (p.walk.filterMap Node.blockId?).Nodup
  perm : (p.walk.filterMap Node.blockId?).Perm (d.blocks.map (·.layer.id))
  order : p.walk.filterMap Node.blockId? = r.blocks.map (·.layer.id)
  isSome_findBlock? : ∀ id, (p.findBlock? id).isSome ↔ id ∈ d.blocks.map (·.layer.id)
  findBlock? : ∀ b ∈ d.blocks, ∃ n, p.findBlock? b.layer.id = some n ∧
    n.blockId? = some b.layer.id ∧ n.kind.blockType = some b.layer.type
  /-- A pass comes to the blocks that are active, as all blocks around them are. -/
  accepted : p.acceptedIds = (r.lineages.filter Block.takesPart).map (·.1.layer.id)
  accepted_perm : p.acceptedIds.Perm ((d.lineages.filter Block.takesPart).map (·.1.layer.id))

/-- With the core kinds, the nodes of a program that was read and the blocks of its document
correspond one to one, in the order in which the document is written again. -/
theorem corresponds_of_ofDocument (read : (ofDocument .core d).run s = (.ok p, s')) :
    ∃ r, p.toDocument = .ok r ∧ p.Corresponds d r := by
  obtain ⟨content, distinct⟩ := ofDocument_eq_ok_iff.1 ⟨p, s', read, rfl⟩
  rw [blockIds_bare, blockIds_eq] at distinct
  have same := Document.canonical_tidy content
  have marks : p.walk.filterMap Node.mark? = (d.tidy .core).blocks.map Block.mark := by
    rw [walk, List.filterMap_flatMap, Document.marks_blocks]
    exact mirrored (mirrors_marks KindRegistry.consistent_core) Node.marks_bare content
  have active : p.acceptedIds =
      ((d.tidy .core).lineages.filter Block.takesPart).map (·.1.layer.id) := by
    rw [acceptedIds_eq, Document.activeIds_lineages]
    exact mirrored mirrors_activeIds Node.activeIds_bare content
  have ids : p.walk.filterMap Node.blockId? = (d.tidy .core).blocks.map (·.layer.id) := by
    have firsts := congrArg (List.map Prod.fst) marks
    rw [List.map_filterMap, List.map_map] at firsts
    refine Eq.trans (congrArg (p.walk.filterMap ·) (funext fun n => ?_)) firsts
    rw [Node.mark?, Option.map_map]
    exact Option.map_id'.symm
  have perm := ids ▸ Document.perm_ids_of_canonical_eq same
  have node (b : Block) (hb : b ∈ d.blocks) : ∃ n ∈ p.walk,
      n.blockId? = some b.layer.id ∧ n.kind.blockType = some b.layer.type := by
    have mark := (Document.perm_marks_of_canonical_eq same).mem_iff.2 (List.mem_map_of_mem hb)
    rw [← marks] at mark
    obtain ⟨n, hn, e⟩ := List.mem_filterMap.1 mark
    obtain ⟨id, block, e⟩ := Option.map_eq_some_iff.1 e
    obtain ⟨rfl, type⟩ := Prod.ext_iff.1 e
    exact ⟨n, hn, block, type⟩
  refine ⟨d.tidy .core, toDocument_of_content KindRegistry.consistent_core content, distinct, perm,
    ids, fun id => ?_, fun b hb => ?_, active, active ▸ ?_⟩
  · rw [← perm.mem_iff, Program.findBlock?, List.find?_isSome, List.mem_filterMap]
    simp only [beq_iff_eq]
  · obtain ⟨n, hn, block, type⟩ := node b hb
    exact ⟨n, findBlock?_of_mem distinct hn block, block, type⟩
  · rw [Document.activeIds_lineages, Document.activeIds_lineages]
    refine Document.perm_of_canonical_eq (fun l below => ?_) same
    rw [Block.activeIds_mk, Block.activeIds_mk]
    change List.Perm (if (Block.mk l).isActive then _ else _) _
    split
    · exact below.cons _
    · exact .rfl

end Program

/-- A loop whose first statement is turned off, with all that is in it. -/
def muffled : Document where
  formatVersion := "3.1"
  instances := [{ blocks := [.mk {
    id := "loop", type := "controls_repeat_ext"
    values := [⟨"TIMES", .mk { id := "ten", type := "math_number", fields := [⟨"NUM", "10"⟩] }⟩]
    statements := [⟨"DO", [
      .mk { id := "pause", type := "robControls_wait_time", attributes := { disabled := true }
            values := [⟨"WAIT", .mk {
              id := "one", type := "math_number", fields := [⟨"NUM", "1"⟩] }⟩] },
      .mk { id := "stop", type := "robActions_motor_stop", fields := [⟨"MOTORPORT", "B"⟩] }]⟩] }] }]

/-- All five blocks are there, and a pass comes to three of them. -/
theorem Program.corresponds_muffled :
    ∃ p s' r, (ofDocument .core muffled).run {} = (.ok p, s') ∧ p.toDocument = .ok r ∧
      p.Corresponds muffled r ∧ p.acceptedIds = ["loop", "ten", "stop"] := by
  have computed : ((ofDocument .core muffled).run {}).1.toOption.any
      (fun p => p.acceptedIds = ["loop", "ten", "stop"]) = true := by decide +kernel
  obtain ⟨p, s', read, accepted⟩ := Except.exists_eq_ok_of_any_fst computed
  obtain ⟨r, written, corresponds⟩ := corresponds_of_ofDocument read
  exact ⟨p, s', r, read, written, corresponds, of_decide_eq_true accepted⟩

end BlockGraph

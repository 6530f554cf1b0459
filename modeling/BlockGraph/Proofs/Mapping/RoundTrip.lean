import BlockGraph.Mapping.RoundTrip
import BlockGraph.Proofs.Document.Canonical
import BlockGraph.Proofs.Mapping.Writing

/-!
# Round trips

What becomes of a document that is read and written, and read again.
-/

namespace BlockGraph

open Mapping

variable {α β : Type}

/-! ## Canonical forms -/

namespace Mapping

variable {registry : KindRegistry}

/-- The slots of a block in the order of its table. Names stay distinct. -/
structure Rearranged (l m : BlockLayer α) : Prop where
  fields : l.fields.Perm m.fields
  values : l.values.Perm m.values
  statements : (l.statements.filter (!·.blocks.isEmpty)).Perm m.statements
  fieldNames : (l.fields.map (·.name)).Nodup
  valueNames : (l.values.map (·.name)).Nodup
  statementNames : (l.statements.map (·.name)).Nodup

theorem rearranged_of_divide {l : BlockLayer α} {kind : Kind} {portions : List (Portion α)}
    (h : divide registry l = .ok (kind, portions)) : Rearranged l (tidyLayer l portions) := by
  obtain ⟨slots, declared, -, slotsOf, -, taken⟩ := divide_eq_ok_iff.1 h
  obtain ⟨⟨fieldNames, fields⟩, ⟨valueNames, values⟩, statementNames, statements⟩ :=
    Slots.ofLayer_eq_ok_iff.1 slotsOf
  have shares := Slots.shares_of_takeAll taken
  have fields' := (fields.symm.trans shares.fields).map fun e => (⟨e.1, e.2⟩ : FieldSlot)
  have values' := (values.symm.trans shares.values).map fun e => (⟨e.1, e.2⟩ : ValueSlot α)
  have chains := (statements.filter fun e : String × List α => !e.2.isEmpty).symm
  have statements' :=
    (chains.trans shares.statements).map fun e => (⟨e.1, e.2⟩ : StatementSlot α)
  refine ⟨?_, ?_, ?_, fieldNames, valueNames, statementNames⟩
  · simpa [tidyLayer, Function.comp_def] using fields'
  · simpa [tidyLayer, Function.comp_def] using values'
  · have none : (({} : Slots α).prune).statements.entries = [] := rfl
    simpa [tidyLayer, Function.comp_def, List.filter_map, none] using statements'

/-- The order of the slots, the empty chains and the annotations do not show in the canonical
form. -/
theorem canonical_tidyLayer {l : BlockLayer α} {kind : Kind} {portions : List (Portion α)}
    (h : divide registry l = .ok (kind, portions)) :
    (tidyLayer l portions).canonical = l.canonical := by
  have same := rearranged_of_divide h
  have full : (tidyLayer l portions).statements.filter (!·.blocks.isEmpty) =
      (tidyLayer l portions).statements := by
    refine List.filter_eq_self.2 fun s hs => ?_
    exact (List.mem_filter.1 (same.statements.mem_iff.2 hs)).2
  have statementNames : ((l.statements.filter (!·.blocks.isEmpty)).map (·.name)).Nodup :=
    same.statementNames.sublist (List.filter_sublist.map _)
  rw [BlockLayer.canonical, BlockLayer.canonical, full,
    ← sortByName_eq_of_perm same.fields same.fieldNames,
    ← sortByName_eq_of_perm same.values same.valueNames,
    ← sortByName_eq_of_perm same.statements statementNames]
  rfl

theorem exists_content_of_mem {p : Portion Block} {v : SlotValue Node}
    (h : p.content registry = .ok v) {b : Block} (hb : b ∈ p.blocks) :
    ∃ n, content registry b = .ok n := by
  obtain ⟨values, statements⟩ := exists_portionContent_iff.1 ⟨v, h⟩
  rcases List.mem_append.1 hb with hb | hb
  · obtain ⟨e, he, rfl⟩ := List.mem_map.1 hb
    obtain ⟨n, h, -⟩ := values e he
    exact ⟨n, h⟩
  · obtain ⟨e, he, hb⟩ := List.mem_flatMap.1 hb
    obtain ⟨n, h, -⟩ := statements e he b hb
    exact ⟨n, h⟩

theorem children_tidyLayer {l : BlockLayer α} {portions : List (Portion α)} {b : α}
    (hb : b ∈ (tidyLayer l portions).children) : ∃ p ∈ portions, b ∈ p.blocks := by
  rcases List.mem_append.1 hb with hb | hb
  · simp only [tidyLayer, List.map_map, List.mem_map, List.mem_flatMap] at hb
    obtain ⟨e, ⟨p, hp, he⟩, rfl⟩ := hb
    exact ⟨p, hp, List.mem_append_left _ (List.mem_map_of_mem he)⟩
  · simp only [tidyLayer, List.flatMap_map, List.mem_flatMap] at hb
    obtain ⟨e, ⟨p, hp, he⟩, hb⟩ := hb
    exact ⟨p, hp, List.mem_append_right _ (List.mem_flatMap.2 ⟨e, he, hb⟩)⟩

/-- The blocks in the tidy form of a block are blocks of it that have a content. -/
theorem content_of_mem_tidyLayer {l : BlockLayer Block} {kind : Kind}
    {portions : List (Portion Block)} {vs : List (SlotValue Node)}
    (divided : divide registry l = .ok (kind, portions))
    (filled : List.Forall₂ (fun p v => p.content registry = .ok v) portions vs) {b : Block}
    (hb : b ∈ (tidyLayer l portions).children) :
    b ∈ l.children ∧ ∃ n, content registry b = .ok n := by
  obtain ⟨q, hq, hb⟩ := children_tidyLayer hb
  obtain ⟨v, filled⟩ := Except.exists_forall₂_iff.1 ⟨_, filled⟩ q hq
  exact ⟨mem_children_of_divide divided hq hb, exists_content_of_mem filled hb⟩

/-- The tidy form of a block means the same. -/
theorem canonical_tidy {b : Block} {n : Node} (h : content registry b = .ok n) :
    (tidy registry b).canonical = b.canonical := by
  induction b using Block.induction generalizing n with
  | step l ih =>
    obtain ⟨-, portions, p, divided, filled, -⟩ := content_eq_ok_iff.1 h
    have inside : ∀ b ∈ (tidyLayer l portions).children,
        (tidy registry b).canonical = b.canonical := fun b hb => by
      obtain ⟨below, m, read⟩ := content_of_mem_tidyLayer divided filled hb
      exact ih b below read
    have divided' : divide registry (l.map Block.canonical) =
        .ok (p.kind, portions.map (Portion.map Block.canonical)) := by
      rw [divide_map, divided]
      rfl
    rw [tidy_of_divide divided, canonical_mk, canonical_mk, BlockLayer.map_map,
      ← canonical_tidyLayer divided', tidyLayer_map]
    exact congrArg (fun l : BlockLayer Block => Block.mk l.canonical) (map_congr_children inside)

end Mapping

/-! ## Documents -/

/-- A document as it is written after it was read. -/
def Document.tidy (registry : KindRegistry) (d : Document) : Document :=
  { d with instances := d.instances.map fun c => { c with
      blocks := c.blocks.map (Mapping.tidy registry) } }

theorem Program.toDocument_of_content {registry : KindRegistry} (consistent : registry.Consistent)
    {d : Document} {p : Program} (h : d.content registry = .ok p.bare) :
    p.toDocument = .ok (d.tidy registry) := by
  obtain ⟨-, is, instances, e⟩ := Document.content_eq_ok_iff.1 h
  obtain ⟨version, description, tags, js⟩ := p
  cases e
  rw [List.forall₂_map_right_iff] at instances
  have chains : js.mapM (fun i => do
      return (⟨i.x, i.y, ← (written i.body).chain⟩ : Chain)) =
      .ok (d.instances.map fun c => { c with blocks := c.blocks.map (Mapping.tidy registry) }) := by
    rw [Except.mapM_eq_ok_iff, List.forall₂_map_right_iff]
    refine (instances.imp fun c ⟨x, y, body⟩ h => ?_).flip
    obtain ⟨_, read, e⟩ := canvasContent_eq_ok_iff.1 h
    cases e
    change ((written body).chain >>= _) = _
    rw [chain_of_content read fun b _ => written_of_content consistent b]
    rfl
  rw [toDocument, chains]
  rfl

/-- All blocks on the canvas have a content if all chains do. -/
theorem Document.exists_content_of_mem_blocks {registry : KindRegistry} {cs : List Chain}
    {is : List Instance} (h : List.Forall₂ (fun c i => canvasContent registry c = .ok i) cs is)
    {c : Chain} (hc : c ∈ cs) {b : Block} (hb : b ∈ c.blocks) :
    ∃ n, Mapping.content registry b = .ok n := by
  obtain ⟨i, h⟩ := Except.exists_forall₂_iff.1 ⟨_, h⟩ c hc
  obtain ⟨body, h, -⟩ := canvasContent_eq_ok_iff.1 h
  obtain ⟨ns, h, -⟩ := chainContent_eq_ok_iff.1 h
  obtain ⟨n, h, -⟩ := Except.exists_forall₂_iff.1 ⟨_, h⟩ b hb
  exact ⟨n, h⟩

theorem Document.canonical_tidy {registry : KindRegistry} {d : Document} {q : Program}
    (h : d.content registry = .ok q) : (d.tidy registry).canonical = d.canonical := by
  obtain ⟨-, is, instances, -⟩ := content_eq_ok_iff.1 h
  have each : ∀ c ∈ d.instances, ∀ b ∈ c.blocks,
      (Mapping.tidy registry b).canonical = b.canonical := fun c hc b hb => by
    obtain ⟨n, h⟩ := exists_content_of_mem_blocks instances hc hb
    exact Mapping.canonical_tidy h
  rw [canonical, canonical, tidy, List.map_map]
  refine congrArg (fun is => { d with instances := is }) (List.map_congr_left fun c hc => ?_)
  simp only [Function.comp_apply, List.map_map]
  exact congrArg (fun blocks => { c with blocks }) (List.map_congr_left (each c hc))

/-- A document that was read is written as a document that means the same. -/
theorem Document.equivalent_of_ofDocument {specs : List ExtensionSpec} {registry : KindRegistry}
    (registered : KindRegistry.core.registerAll specs = .ok registry) {d : Document} {p : Program}
    {s s' : Supply} (read : (Program.ofDocument registry d).run s = (.ok p, s')) :
    ∃ r, p.toDocument = .ok r ∧ d.equivalent r = true := by
  have content := (Program.ofDocument_eq_ok_iff.1 ⟨p, s', read, rfl⟩).1
  have consistent := KindRegistry.consistent_of_registerAll registered
  refine ⟨d.tidy registry, Program.toDocument_of_content consistent content, ?_⟩
  rw [equivalent, decide_eq_true_eq, canonical_tidy content]

/-- An extension with a family of chains. -/
def fork : ExtensionSpec := ⟨"fork", .control, [⟨"DO", "branches", .repeatedStatement⟩]⟩

/-- The core kinds and `fork`. -/
def forkRegistry : KindRegistry := ⟨KindRegistry.core.kinds.insert "fork" (.extension fork)⟩

/-- A block with two chains, the first of which is empty. -/
def forked : Document where
  formatVersion := "3.1"
  instances := [{ blocks := [.mk {
    id := "a", type := "fork"
    statements := [⟨"DO0", []⟩, ⟨"DO1", [.mk { id := "b", type := "fork" }]⟩] }] }]

theorem registerAll_fork : KindRegistry.core.registerAll [fork] = .ok forkRegistry := rfl

theorem exists_ofDocument_forked :
    ∃ p s', (Program.ofDocument forkRegistry forked).run {} = (.ok p, s') := by
  have computed : ((Program.ofDocument forkRegistry forked).run {}).1.toOption.any
      (fun _ => true) = true := by decide +kernel
  obtain ⟨p, s', read, -⟩ := Except.exists_eq_ok_of_any_fst computed
  exact ⟨p, s', read⟩

theorem equivalent_forked :
    ∃ p s' r, (Program.ofDocument forkRegistry forked).run {} = (.ok p, s') ∧
      p.toDocument = .ok r ∧ forked.equivalent r = true := by
  obtain ⟨p, s', read⟩ := exists_ofDocument_forked
  obtain ⟨r, written, same⟩ := Document.equivalent_of_ofDocument registerAll_fork read
  exact ⟨p, s', r, read, written, same⟩

end BlockGraph

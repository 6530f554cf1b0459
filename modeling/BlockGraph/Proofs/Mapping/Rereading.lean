import BlockGraph.Proofs.Mapping.Regular
import BlockGraph.Proofs.Mapping.RoundTrip

/-!
# Reading again what was written

A written block has no empty chains. Read again, a family of numbered chains has as many members
as before if not too many of them are empty and the last one is not, or their number is declared.

* `Node.Compact`: whether the families of a node survive.
* `content_tidy_eq_ok_iff`: the tidy form of a block has the same content if all its nodes are
  compact.
* `Program.reread_iff`: a program is read again as it was if all its nodes are compact.
-/

namespace BlockGraph

open Mapping

/-- Whether the families of chains of a node are dense; conditionals declare their number. -/
def Node.Compact (n : Node) : Prop :=
  ∀ row ∈ n.kind.fields.zip n.phrase.slots, row.1.mode = .repeatedStatement →
    ∀ chains, row.2 = .repeated chains →
      Dense (n.kind = .ifElse) (chains.map (·.statements.isEmpty))

/-- Whether all nodes of a program are compact. -/
def Program.Compact (p : Program) : Prop := ∀ n ∈ p.walk, n.Compact

namespace Mapping

variable {α β : Type} {registry : KindRegistry}

/-! ## Dividing a tidy block -/

theorem ofLayer_tidyLayer {l : BlockLayer α} {kind : Kind} {portions : List (Portion α)}
    {slots : Slots α} (divided : divide registry l = .ok (kind, portions))
    (slotsOf : Slots.ofLayer l = .ok slots) :
    Slots.ofLayer (tidyLayer l portions) = .ok slots.prune := by
  have same := rearranged_of_divide divided
  obtain ⟨⟨-, fields⟩, ⟨-, values⟩, -, statements⟩ := Slots.ofLayer_eq_ok_iff.1 slotsOf
  refine Slots.ofLayer_eq_ok_iff.2 ⟨⟨?_, ?_⟩, ⟨?_, ?_⟩, ?_, ?_⟩
  · exact (same.fields.map _).nodup_iff.1 same.fieldNames
  · exact fields.trans (same.fields.map _)
  · exact (same.values.map _).nodup_iff.1 same.valueNames
  · exact values.trans (same.values.map _)
  · exact (same.statements.map _).nodup_iff.1
      (same.statementNames.sublist (List.filter_sublist.map _))
  · have kept := statements.filter fun e : String × List α => !e.2.isEmpty
    rw [List.filter_map] at kept
    exact kept.trans (same.statements.map _)

theorem declaredCount_isSome {kind : Kind} {blockId : String} {mutation : SortedMap String String}
    {declared : Option Nat} (h : declaredCount kind blockId mutation = .ok declared) :
    declared.isSome = true ↔ kind = .ifElse := by
  unfold declaredCount at h
  split at h
  · next e =>
    refine iff_of_true ?_ e
    split at h
    · cases h; rfl
    · split at h
      · split at h
        · cases h; rfl
        · cases h
      · cases h
  · next ne =>
    cases h
    exact iff_of_false (by simp) ne

/-- The rows divide the tidy form as they divided the block, and into portions of the same size
only if these are compact. -/
theorem divide_tidyLayer_iff {l : BlockLayer α} {kind k : Kind} {portions qs : List (Portion α)}
    (divided : divide registry l = .ok (kind, portions)) :
    divide registry (tidyLayer l portions) = .ok (k, qs) ∧
        qs.map Portion.size = portions.map Portion.size ↔
      k = kind ∧ qs = portions ∧ ∀ p ∈ portions, p.Compact (kind = .ifElse) := by
  obtain ⟨slots, declared, known, slotsOf, count, taken⟩ := divide_eq_ok_iff.1 divided
  have slotsOf' := ofLayer_tidyLayer divided slotsOf
  rw [← declaredCount_isSome count]
  refine ⟨fun h => ?_, fun h => ?_⟩
  · obtain ⟨divided', sizes⟩ := h
    obtain ⟨slots', declared', known', of', count', taken'⟩ := divide_eq_ok_iff.1 divided'
    obtain rfl := Option.some.inj (known.symm.trans known')
    obtain rfl := Except.ok.inj (slotsOf'.symm.trans of')
    obtain rfl := Except.ok.inj (count.symm.trans count')
    obtain ⟨rfl, -, compact⟩ := (Slots.takeAll_prune_iff taken).1 ⟨taken', sizes⟩
    exact ⟨rfl, rfl, compact⟩
  · obtain ⟨rfl, rfl, compact⟩ := h
    obtain ⟨taken', sizes⟩ := (Slots.takeAll_prune_iff taken).2 ⟨rfl, rfl, compact⟩
    exact ⟨divide_eq_ok_iff.2 ⟨_, declared, known, slotsOf', count, taken'⟩, sizes⟩

/-! ## Contents of tidy portions -/

@[simp] theorem Portion.size_map (f : α → β) (p : Portion α) : (p.map f).size = p.size := by
  cases p <;> simp [map, size]

/-- Other blocks in a value slot have the same content there if they have the same content. -/
theorem valueContent_map_iff {f : Block → Block} {slot : String} {o : Option Block} {n : Node}
    (h : valueContent registry slot o = .ok n) :
    valueContent registry slot (o.map f) = .ok n ↔
      ∀ b ∈ o, ∀ m, content registry b = .ok m → content registry (f b) = .ok m := by
  cases o with
  | none => exact iff_of_true h nofun
  | some b =>
    obtain ⟨read, expression⟩ := valueContent_some_eq_ok_iff.1 h
    rw [Option.map_some, valueContent_some_eq_ok_iff]
    simp [read, expression]

theorem chainContent_map_iff {f : Block → Block} {slot : Option String} {blocks : List Block}
    {n : Node} (h : chainContent registry slot blocks = .ok n) :
    chainContent registry slot (blocks.map f) = .ok n ↔
      ∀ b ∈ blocks, ∀ m, content registry b = .ok m → content registry (f b) = .ok m := by
  obtain ⟨ns, read, rfl⟩ := chainContent_eq_ok_iff.1 h
  refine Iff.trans ?_ (Except.forall₂_congr_iff (S := fun b m => content registry (f b) = .ok m ∧
    (slot.isSome → m.kind.isExpression = false)) read fun b _ m ⟨h, statement⟩ => ?_)
  · rw [chainContent_eq_ok_iff]
    simp only [List.forall₂_map_left_iff]
    constructor
    · rintro ⟨ns', read', e⟩
      cases e
      exact read'
    · exact fun read' => ⟨ns, read', rfl⟩
  · simp only [h, Except.ok.injEq, forall_eq']
    exact and_iff_left statement

/-- A result under a constructor. -/
theorem under_eq_ok_iff {y : Except Error α} {g : α → β} (inj : Function.Injective g) {a : α} :
    (do let a ← y; return g a) = Except.ok (g a) ↔ y = .ok a := by
  simp only [Except.bind_eq_ok_iff, Except.pure_eq_ok_iff]
  refine ⟨fun h => ?_, fun h => ?_⟩
  · obtain ⟨b, h, e⟩ := h
    rwa [← inj e]
  · exact ⟨a, h, rfl⟩

/-- Other blocks in a row have the same content there if they have the same content. -/
theorem portionContent_map_iff {f : Block → Block} {p : Portion Block} {v : SlotValue Node}
    (h : p.content registry = .ok v) :
    (p.map f).content registry = .ok v ↔
      ∀ b ∈ p.blocks, ∀ m, content registry b = .ok m → content registry (f b) = .ok m := by
  cases p with
  | literal slot text => exact iff_of_true h (by simp)
  | value slot b =>
    obtain ⟨n, read, e⟩ := Except.bind_eq_ok_iff.1 h
    cases e
    refine (under_eq_ok_iff (g := SlotValue.value) fun _ _ => SlotValue.value.inj).trans ?_
    simpa using valueContent_map_iff read
  | statement slot blocks =>
    obtain ⟨n, read, e⟩ := Except.bind_eq_ok_iff.1 h
    cases e
    refine (under_eq_ok_iff (g := SlotValue.statement) fun _ _ => SlotValue.statement.inj).trans ?_
    simpa using chainContent_map_iff read
  | optionalStatement slot blocks =>
    cases blocks with
    | nil => exact iff_of_true h (by simp)
    | cons b blocks =>
      obtain ⟨n, read, e⟩ := Except.bind_eq_ok_iff.1 h
      cases e
      refine (under_eq_ok_iff (g := fun n => SlotValue.optionalStatement (some n)) fun _ _ e =>
        Option.some.inj (SlotValue.optionalStatement.inj e)).trans ?_
      rw [Portion.blocks_optionalStatement]
      exact chainContent_map_iff read
  | repeatedValue members =>
    obtain ⟨ns, read, e⟩ := Except.bind_eq_ok_iff.1 h
    cases e
    refine (under_eq_ok_iff (g := SlotValue.repeated) fun _ _ => SlotValue.repeated.inj).trans ?_
    rw [Except.mapM_eq_ok_iff] at read ⊢
    rw [List.forall₂_map_left_iff, Except.forall₂_congr_iff read fun e _ n h =>
      valueContent_map_iff h, Portion.blocks_repeatedValue, List.forall_mem_filterMap]
    rfl
  | repeatedStatement members =>
    obtain ⟨ns, read, e⟩ := Except.bind_eq_ok_iff.1 h
    cases e
    refine (under_eq_ok_iff (g := SlotValue.repeated) fun _ _ => SlotValue.repeated.inj).trans ?_
    rw [Except.mapM_eq_ok_iff] at read ⊢
    rw [List.forall₂_map_left_iff, Except.forall₂_congr_iff read fun e _ n h =>
      chainContent_map_iff h, Portion.blocks_repeatedStatement, List.forall_mem_flatMap]

/-! ## Compact nodes -/

theorem isEmpty_chainContent {slot : Option String} {blocks : List Block} {n : Node}
    (h : chainContent registry slot blocks = .ok n) :
    blocks.isEmpty = n.statements.isEmpty := by
  obtain ⟨ns, read, rfl⟩ := chainContent_eq_ok_iff.1 h
  cases read <;> rfl

/-- A node is compact if the portions of its block are. -/
theorem compact_rows_iff {isDeclared : Prop} {specs : List FieldSpec}
    {portions : List (Portion Block)} {vs : List (SlotValue Node)}
    (of : List.Forall₂ (fun spec p => p.Of spec) specs portions)
    (filled : List.Forall₂ (fun p v => p.content registry = .ok v) portions vs) :
    (∀ row ∈ specs.zip vs, row.1.mode = .repeatedStatement →
      ∀ chains, row.2 = .repeated chains → Dense isDeclared (chains.map (·.statements.isEmpty))) ↔
      ∀ p ∈ portions, p.Compact isDeclared := by
  induction of generalizing vs with
  | nil => simp
  | @cons spec p specs portions first others ih =>
    obtain ⟨v, vs, read, rest, rfl⟩ := List.forall₂_cons_left_iff.1 filled
    rw [List.zip_cons_cons, List.forall_mem_cons, List.forall_mem_cons, ih rest]
    refine and_congr_left fun _ => ?_
    cases first with
    | @repeatedStatement name internal contents =>
      obtain ⟨ns, chains, e⟩ := Except.bind_eq_ok_iff.1 read
      cases e
      have empty := Except.map_eq_map_of_forall₂ (Except.mapM_eq_ok_iff.1 chains) fun e n h =>
        isEmpty_chainContent h
      simp [Portion.Compact, empty]
    | _ => exact iff_of_true (fun mode => by cases mode) trivial

theorem compact_structuralContent (p : Phrase Node) (none : p.kind.blockType = none) :
    (structuralContent p).Compact := by
  intro row mem
  cases p <;> cases none <;> cases mem

/-- A block and its tidy form have the same content if that is compact. -/
theorem content_tidy_eq_ok_iff {b : Block} {n : Node} (h : content registry b = .ok n) :
    content registry (tidy registry b) = .ok n ↔ ∀ m ∈ n.walk, m.Compact := by
  induction b using Block.induction generalizing n with
  | step l ih =>
    obtain ⟨named, portions, p, divided, filled, buildable, last, rfl⟩ := content_eq_ok_iff.1 h
    obtain ⟨slots, declared, -, -, -, taken⟩ := divide_eq_ok_iff.1 divided
    have inside : ∀ q ∈ portions, ∀ b ∈ q.blocks, ∀ m, content registry b = .ok m →
        (content registry (tidy registry b) = .ok m ↔ ∀ k ∈ m.walk, k.Compact) :=
      fun q hq b hb m hm => ih b (mem_children_of_divide divided hq hb) hm
    rw [forall_walk_blockContent_iff compact_structuralContent buildable filled,
      tidy_of_divide divided, content_eq_ok_iff, divide_map]
    have compact : (blockContent l p).Compact ↔ ∀ q ∈ portions, q.Compact (p.kind = .ifElse) :=
      compact_rows_iff (Slots.of_takeAll taken) filled
    have rows := Except.forall₂_congr_iff (S := fun q v =>
      (q.map (tidy registry)).content registry = .ok v) filled fun q _ v h =>
        portionContent_map_iff h
    rw [compact]
    refine ⟨fun h => ?_, fun h => ?_⟩
    · obtain ⟨-, _, p', divided', filled', -, -, e⟩ := h
      obtain ⟨⟨k, qs⟩, again, e'⟩ := Except.map_eq_ok_iff.1 divided'
      obtain rfl : p = p' := (Node.mk.inj e).2
      cases e'
      rw [List.forall₂_map_left_iff] at filled'
      have sizes : qs.map Portion.size = portions.map Portion.size := by
        rw [Except.map_eq_map_of_forall₂ filled fun q v h => size_eq_of_content h]
        exact Except.map_eq_map_of_forall₂ filled' fun q v h => by
          rw [← Portion.size_map, size_eq_of_content h]
      obtain ⟨-, rfl, dense⟩ := (divide_tidyLayer_iff divided).1 ⟨again, sizes⟩
      exact ⟨dense, fun q hq b hb m hm =>
        (inside q hq b hb m hm).1 (rows.1 filled' q hq b hb m hm)⟩
    · obtain ⟨dense, all⟩ := h
      obtain ⟨again, -⟩ := (divide_tidyLayer_iff divided).2 ⟨rfl, rfl, dense⟩
      refine ⟨named, portions.map (Portion.map (tidy registry)), p, ?_, ?_, buildable, last, rfl⟩
      · rw [again]
        rfl
      · rw [List.forall₂_map_left_iff]
        exact rows.2 fun q hq b hb m hm => (inside q hq b hb m hm).2 (all q hq b hb m hm)

/-- A chain on the canvas and its tidy form have the same content if that is compact. -/
theorem canvasContent_tidy_eq_ok_iff {c : Chain} {i : Instance}
    (h : canvasContent registry c = .ok i) :
    canvasContent registry { c with blocks := c.blocks.map (tidy registry) } = .ok i ↔
      ∀ n ∈ i.body.walk, n.Compact := by
  obtain ⟨body, read, rfl⟩ := canvasContent_eq_ok_iff.1 h
  have again : canvasContent registry { c with blocks := c.blocks.map (tidy registry) } =
      .ok ⟨c.x, c.y, body⟩ ↔
        chainContent registry none (c.blocks.map (tidy registry)) = .ok body := by
    rw [canvasContent_eq_ok_iff]
    refine ⟨fun h => ?_, fun read' => ?_⟩
    · obtain ⟨_, read', e⟩ := h
      cases e
      exact read'
    · exact ⟨body, read', rfl⟩
  rw [again, chainContent_map_iff read, forall_walk_chainContent_iff compact_structuralContent read]
  exact forall₂_congr fun b _ => forall₂_congr fun m read => by
    rw [content_tidy_eq_ok_iff read]

end Mapping

/-! ## Documents and programs -/

/-- A document and its tidy form have the same content if that is compact. -/
theorem Document.content_tidy_eq_ok_iff {registry : KindRegistry} {d : Document} {q : Program}
    (h : d.content registry = .ok q) : (d.tidy registry).content registry = .ok q ↔ q.Compact := by
  obtain ⟨version, is, instances, rfl⟩ := content_eq_ok_iff.1 h
  have again : (d.tidy registry).content registry =
      .ok ⟨d.formatVersion, d.description, d.tags, is⟩ ↔
        List.Forall₂ (fun c i => canvasContent registry
          { c with blocks := c.blocks.map (Mapping.tidy registry) } = .ok i) d.instances is := by
    rw [content_eq_ok_iff, tidy]
    simp only [List.forall₂_map_left_iff]
    refine ⟨fun h => ?_, fun instances' => ?_⟩
    · obtain ⟨-, _, instances', e⟩ := h
      cases e
      exact instances'
    · exact ⟨version, is, instances', rfl⟩
  have compact : Program.Compact ⟨d.formatVersion, d.description, d.tags, is⟩ ↔
      ∀ i ∈ is, ∀ n ∈ i.body.walk, n.Compact := List.forall_mem_flatMap
  rw [again, compact]
  exact Except.forall₂_iff_forall_right instances fun c i h => canvasContent_tidy_eq_ok_iff h

theorem Node.compact_bare (n : Node) : n.bare.Compact ↔ n.Compact := by
  simp only [Compact, kind_bare, phrase_bare, Phrase.slots_map, List.zip_map_right,
    List.forall_mem_map, Prod.map]
  refine forall₂_congr fun row _ => forall_congr' fun _ => ?_
  constructor
  · intro h chains e
    simpa [Function.comp_def] using h (chains.map bare) (by rw [e]; rfl)
  · intro h chains e
    cases content : row.2 with
    | repeated chains' =>
      rw [content] at e
      cases e
      simpa [Function.comp_def] using h chains' content
    | _ => rw [content] at e; cases e

theorem Program.compact_bare (p : Program) : p.bare.Compact ↔ p.Compact := by
  simp [Compact, Node.compact_bare]

/-- Reading attaches no findings. -/
theorem Program.silent_of_ofDocument {registry : KindRegistry} {d : Document} {p : Program}
    {s s' : Supply} (read : (ofDocument registry d).run s = (.ok p, s')) :
    ∀ n ∈ p.walk, n.diagnostics = [] := fun n hn => (regular_of_ofDocument read n hn).silent

/-- A program is read again as it was if all its nodes are compact. Otherwise what was written is
refused or read as another program. -/
theorem Program.reread_iff {specs : List ExtensionSpec} {registry : KindRegistry}
    (registered : KindRegistry.core.registerAll specs = .ok registry) {d : Document} {p : Program}
    {s s' : Supply} (read : (ofDocument registry d).run s = (.ok p, s')) :
    ∃ r, p.toDocument = .ok r ∧ ∀ t,
      (∃ p' t', (ofDocument registry r).run t = (.ok p', t') ∧ p'.alike p = true) ↔
        p.Compact := by
  obtain ⟨content, distinct⟩ := ofDocument_eq_ok_iff.1 ⟨p, s', read, rfl⟩
  have consistent := KindRegistry.consistent_of_registerAll registered
  refine ⟨d.tidy registry, toDocument_of_content consistent content, fun t => ?_⟩
  rw [← compact_bare, ← Document.content_tidy_eq_ok_iff content]
  refine ⟨fun h => ?_, fun content' => ?_⟩
  · obtain ⟨p', t', read', same⟩ := h
    have same :=
      (alike_iff_of_silent (silent_of_ofDocument read') (silent_of_ofDocument read)).1 same
    exact (ofDocument_eq_ok_iff.1 ⟨p', t', read', same⟩).1
  · obtain ⟨p', t', read', same⟩ := ofDocument_eq_ok_iff.2 ⟨content', distinct⟩
    exact ⟨p', t', read',
      (alike_iff_of_silent (silent_of_ofDocument read') (silent_of_ofDocument read)).2 same⟩

theorem Program.reread_forked :
    ∃ p s' r, (ofDocument forkRegistry forked).run {} = (.ok p, s') ∧ p.toDocument = .ok r ∧ ∀ t,
      (∃ p' t', (ofDocument forkRegistry r).run t = (.ok p', t') ∧ p'.alike p = true) ↔
        p.Compact := by
  obtain ⟨p, s', read⟩ := exists_ofDocument_forked
  obtain ⟨r, written, again⟩ := reread_iff registerAll_fork read
  exact ⟨p, s', r, read, written, again⟩

/-- A conditional with 65 branches. One of them stands there and is empty, so that it is not
written. -/
def sparse : Document where
  formatVersion := "3.1"
  instances := [{ blocks := [.mk {
    id := "a", type := "controls_if", attributes.mutation := .ofList [("elseif", "64")]
    values := [⟨"IF0", .mk {
      id := "b", type := "logic_boolean", fields := [⟨"BOOL", "TRUE"⟩] }⟩]
    statements := [⟨"DO0", []⟩] }] }]

/-- What is written need not be read again, even with the core kinds. -/
theorem Program.refused_sparse :
    ∃ p s' r, (ofDocument .core sparse).run {} = (.ok p, s') ∧ p.toDocument = .ok r ∧
      ∀ t p' t', (ofDocument .core r).run t ≠ (.ok p', t') := by
  have first : ((ofDocument .core sparse).run {}).1.isOk = true := by decide +kernel
  have second : ((sparse.tidy .core).content .core).isOk = false := by decide +kernel
  rcases read : (ofDocument .core sparse).run {} with ⟨_ | p, s'⟩
  · rw [read] at first
    cases first
  · have content := (ofDocument_eq_ok_iff.1 ⟨p, s', read, rfl⟩).1
    refine ⟨p, s', sparse.tidy .core, rfl,
      toDocument_of_content KindRegistry.consistent_core content, fun t p' t' read' => ?_⟩
    rw [(ofDocument_eq_ok_iff.1 ⟨p', t', read', rfl⟩).1] at second
    cases second

end BlockGraph

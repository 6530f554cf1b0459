import BlockGraph.Proofs.Mapping.Rereading
import Mathlib.Data.List.Permutation

/-!
# Reading equivalent documents

Slots are looked up by name and annotations are not read, so a block has the content of its
canonical form, row by row, as long as no chain without blocks is left out. Equivalent documents
have the same canonical form.

* `divide_canonical_iff`: the rows divide a block as they divide its canonical form.
* `content_canonical_iff`: a block and its canonical form have the same content.
* `Program.ofDocument_of_equivalent`: equivalent documents are read as the same program.
-/

namespace BlockGraph

open Mapping

variable {α β : Type}

/-! ## Documents without empty chains -/

/-- Whether every chain in a block has blocks. -/
def BlockLayer.Full (l : BlockLayer α) : Prop := ∀ s ∈ l.statements, s.blocks ≠ []

instance (l : BlockLayer α) : Decidable l.Full :=
  decidable_of_iff (l.statements.all (!·.blocks.isEmpty)) (by simp [BlockLayer.Full])

theorem BlockLayer.full_map_iff (f : α → β) (l : BlockLayer α) : (l.map f).Full ↔ l.Full := by
  simp [Full, map, StatementSlot.map]

/-- Whether every chain in a block, and in the blocks inside it, has blocks. -/
def Block.Full (b : Block) : Prop := ∀ c ∈ b.preorder, c.layer.Full

theorem Block.full_mk_iff (l : BlockLayer Block) :
    (mk l).Full ↔ l.Full ∧ ∀ b ∈ l.children, b.Full := by
  rw [Full, preorder_mk, List.forall_mem_cons, List.forall_mem_flatMap]
  rfl

/-- Whether every chain in the blocks of a document has blocks. -/
def Document.Full (d : Document) : Prop := ∀ b ∈ d.blocks, b.layer.Full

instance (d : Document) : Decidable d.Full := inferInstanceAs (Decidable (∀ b ∈ d.blocks, _))

theorem Document.full_iff (d : Document) :
    d.Full ↔ ∀ c ∈ d.instances, ∀ b ∈ c.blocks, b.Full := by
  simp only [Full, blocks, List.forall_mem_flatMap]
  rfl

namespace Mapping

variable {registry : KindRegistry}

/-! ## The order of slots -/

/-- Slots are found by name wherever they stand. -/
theorem Slots.ofLayer_congr {l m : BlockLayer α} (fields : l.fields.Perm m.fields)
    (values : l.values.Perm m.values) (statements : l.statements.Perm m.statements)
    {s : Slots α} : ofLayer l = .ok s ↔ ofLayer m = .ok s := by
  rw [ofLayer_eq_ok_iff, ofLayer_eq_ok_iff, (fields.map _).nodup_iff, (values.map _).nodup_iff,
    (statements.map _).nodup_iff, (fields.map _).congr_right, (values.map _).congr_right,
    (statements.map _).congr_right]

theorem divide_canonical_iff {l : BlockLayer α} (full : l.Full) {kind : Kind}
    {portions : List (Portion α)} :
    divide registry l.canonical = .ok (kind, portions) ↔
      divide registry l = .ok (kind, portions) := by
  have whole : l.statements.filter (!·.blocks.isEmpty) = l.statements :=
    List.filter_eq_self.2 fun s hs => by simpa using full s hs
  have statements : l.canonical.statements.Perm l.statements := by
    rw [BlockLayer.canonical, whole]
    exact List.mergeSort_perm _ _
  have slots (s : Slots α) : Slots.ofLayer l.canonical = .ok s ↔ Slots.ofLayer l = .ok s :=
    Slots.ofLayer_congr (List.mergeSort_perm _ _) (List.mergeSort_perm _ _) statements
  simp only [divide_eq_ok_iff, slots]
  rfl

/-! ## The content of rows -/

theorem Portion.map_id (p : Portion α) : p.map id = p := by
  cases p <;> simp [Portion.map]

section

variable {registry' : KindRegistry} {f g : Block → Block}

theorem valueContent_mono {slot : String} {o : Option Block} {n : Node}
    (h : ∀ b ∈ o, ∀ m, content registry (f b) = .ok m → content registry' (g b) = .ok m)
    (read : valueContent registry slot (o.map f) = .ok n) :
    valueContent registry' slot (o.map g) = .ok n := by
  cases o with
  | none => exact read
  | some b =>
    rw [Option.map_some, valueContent_some_eq_ok_iff] at read ⊢
    exact ⟨h b rfl n read.1, read.2⟩

theorem chainContent_mono {slot : Option String} {blocks : List Block} {n : Node}
    (h : ∀ b ∈ blocks, ∀ m, content registry (f b) = .ok m → content registry' (g b) = .ok m)
    (read : chainContent registry slot (blocks.map f) = .ok n) :
    chainContent registry' slot (blocks.map g) = .ok n := by
  simp only [chainContent_eq_ok_iff, List.forall₂_map_left_iff] at read ⊢
  obtain ⟨ns, each, e⟩ := read
  refine ⟨ns, Except.forall₂_imp_of_mem (fun b hb m here => ?_) each, e⟩
  exact ⟨h b hb m here.1, here.2⟩

/-- What a row takes keeps its content if all blocks in it do. -/
theorem portionContent_mono {p : Portion Block} {v : SlotValue Node}
    (h : ∀ b ∈ p.blocks, ∀ m, content registry (f b) = .ok m → content registry' (g b) = .ok m)
    (read : (p.map f).content registry = .ok v) : (p.map g).content registry' = .ok v := by
  cases p with
  | literal slot text => exact read
  | value slot b =>
    obtain ⟨n, read, e⟩ := Except.bind_eq_ok_iff.1 read
    exact Except.bind_eq_ok_iff.2 ⟨n, valueContent_mono (by simpa using h) read, e⟩
  | statement slot blocks =>
    obtain ⟨n, read, e⟩ := Except.bind_eq_ok_iff.1 read
    exact Except.bind_eq_ok_iff.2 ⟨n, chainContent_mono (by simpa using h) read, e⟩
  | optionalStatement slot blocks =>
    cases blocks with
    | nil => exact read
    | cons b blocks =>
      rw [Portion.blocks_optionalStatement] at h
      obtain ⟨n, read, e⟩ := Except.bind_eq_ok_iff.1 read
      exact Except.bind_eq_ok_iff.2 ⟨n, chainContent_mono h read, e⟩
  | repeatedValue members =>
    rw [Portion.blocks_repeatedValue, List.forall_mem_filterMap] at h
    simp only [Portion.map, Portion.content, Portion.fill, Except.bind_eq_ok_iff,
      Except.mapM_eq_ok_iff, List.forall₂_map_left_iff] at read ⊢
    obtain ⟨ns, each, e⟩ := read
    exact ⟨ns, Except.forall₂_imp_of_mem (fun e he n => valueContent_mono (h e he)) each, e⟩
  | repeatedStatement members =>
    rw [Portion.blocks_repeatedStatement, List.forall_mem_flatMap] at h
    simp only [Portion.map, Portion.content, Portion.fill, Except.bind_eq_ok_iff,
      Except.mapM_eq_ok_iff, List.forall₂_map_left_iff] at read ⊢
    obtain ⟨ns, each, e⟩ := read
    exact ⟨ns, Except.forall₂_imp_of_mem (fun e he n => chainContent_mono (h e he)) each, e⟩

theorem chainContent_congr {slot : Option String} {blocks : List Block} {n : Node}
    (h : ∀ b ∈ blocks, ∀ m, content registry (f b) = .ok m ↔ content registry b = .ok m) :
    chainContent registry slot (blocks.map f) = .ok n ↔
      chainContent registry slot blocks = .ok n := by
  refine ⟨fun read => ?_, fun read => chainContent_mono (f := id) (fun b hb m => (h b hb m).2) ?_⟩
  · simpa using chainContent_mono (g := id) (fun b hb m => (h b hb m).1) read
  · simpa using read

/-- Other blocks with the same content leave the content of a row as it is. -/
theorem portionContent_congr {p : Portion Block} {v : SlotValue Node}
    (h : ∀ b ∈ p.blocks, ∀ m, content registry (f b) = .ok m ↔ content registry b = .ok m) :
    (p.map f).content registry = .ok v ↔ p.content registry = .ok v := by
  refine ⟨fun read => ?_, fun read => portionContent_mono (f := id) (fun b hb m => (h b hb m).2) ?_⟩
  · simpa [Portion.map_id] using portionContent_mono (g := id) (fun b hb m => (h b hb m).1) read
  · simpa [Portion.map_id] using read

end

/-! ## The content of blocks -/

/-- A block without empty chains says what its canonical form says. -/
theorem content_canonical_iff {b : Block} (full : b.Full) {n : Node} :
    content registry b.canonical = .ok n ↔ content registry b = .ok n := by
  induction b using Block.induction generalizing n with
  | step l ih =>
    obtain ⟨here, inside⟩ := (Block.full_mk_iff l).1 full
    rw [canonical_mk, content_eq_ok_iff, content_eq_ok_iff]
    refine and_congr_right fun named => ?_
    have same (p : Phrase Node) : blockContent (l.map Block.canonical).canonical p =
      blockContent l p := rfl
    have rows {kind : Kind} {portions : List (Portion Block)}
        (divided : divide registry l = .ok (kind, portions)) {vs : List (SlotValue Node)} :
        List.Forall₂ (fun p v => (p.map Block.canonical).content registry = .ok v) portions vs ↔
          List.Forall₂ (fun p v => p.content registry = .ok v) portions vs :=
      Except.forall₂_congr_of_mem fun p hp v => portionContent_congr fun b hb m =>
        have mem := mem_children_of_divide divided hp hb
        ih b mem (inside b mem)
    simp only [divide_canonical_iff ((l.full_map_iff _).2 here), divide_map, Except.map_eq_ok_iff,
      same]
    refine ⟨fun h => ?_, fun h => ?_⟩
    · obtain ⟨_, p, ⟨⟨kind, portions⟩, divided, e⟩, filled, rest⟩ := h
      cases e
      rw [List.forall₂_map_left_iff] at filled
      exact ⟨portions, p, divided, (rows divided).1 filled, rest⟩
    · obtain ⟨portions, p, divided, filled, rest⟩ := h
      refine ⟨_, p, ⟨_, divided, rfl⟩, ?_, rest⟩
      rw [List.forall₂_map_left_iff]
      exact (rows divided).2 filled

theorem canvasContent_canonical_iff {c : Chain} (full : ∀ b ∈ c.blocks, b.Full) {i : Instance} :
    canvasContent registry { c with blocks := c.blocks.map Block.canonical } = .ok i ↔
      canvasContent registry c = .ok i := by
  rw [canvasContent_eq_ok_iff, canvasContent_eq_ok_iff]
  refine exists_congr fun body => and_congr_left fun _ => ?_
  exact chainContent_congr fun b hb m => content_canonical_iff (full b hb)

end Mapping

/-! ## Documents -/

/-- A document without empty chains says what its canonical form says. -/
theorem Document.content_canonical_iff {registry : KindRegistry} {d : Document} (full : d.Full)
    {q : Program} : d.canonical.content registry = .ok q ↔ d.content registry = .ok q := by
  rw [full_iff] at full
  simp only [content_eq_ok_iff, canonical, List.forall₂_map_left_iff]
  refine and_congr_right fun _ => exists_congr fun is => and_congr_left fun _ => ?_
  exact Except.forall₂_congr_of_mem fun c hc i => canvasContent_canonical_iff (full c hc)

/-- Documents without empty chains that mean the same are both read or both refused, and the
programs are alike. -/
theorem Program.ofDocument_of_equivalent {registry : KindRegistry} {a b : Document}
    (same : a.equivalent b = true) (fullA : a.Full) (fullB : b.Full) (s t : Supply) :
    ((∃ p s', (ofDocument registry a).run s = (.ok p, s')) ↔
      ∃ q t', (ofDocument registry b).run t = (.ok q, t')) ∧
    ∀ p s' q t', (ofDocument registry a).run s = (.ok p, s') →
      (ofDocument registry b).run t = (.ok q, t') → p.alike q = true := by
  have contents (q : Program) : a.content registry = .ok q ↔ b.content registry = .ok q := by
    rw [← Document.content_canonical_iff fullA, ← Document.content_canonical_iff fullB,
      of_decide_eq_true same]
  refine ⟨⟨fun h => ?_, fun h => ?_⟩, fun p s' q t' readA readB => ?_⟩
  · obtain ⟨p, s', read⟩ := h
    obtain ⟨content, distinct⟩ := ofDocument_eq_ok_iff.1 ⟨p, s', read, rfl⟩
    obtain ⟨q, t', read, -⟩ := ofDocument_eq_ok_iff.2 ⟨(contents _).1 content, distinct⟩
    exact ⟨q, t', read⟩
  · obtain ⟨q, t', read⟩ := h
    obtain ⟨content, distinct⟩ := ofDocument_eq_ok_iff.1 ⟨q, t', read, rfl⟩
    obtain ⟨p, s', read, -⟩ := ofDocument_eq_ok_iff.2 ⟨(contents _).2 content, distinct⟩
    exact ⟨p, s', read⟩
  · have contentA := (ofDocument_eq_ok_iff.1 ⟨p, s', readA, rfl⟩).1
    have contentB := (ofDocument_eq_ok_iff.1 ⟨q, t', readB, rfl⟩).1
    rw [alike_iff_of_silent (silent_of_ofDocument readA) (silent_of_ofDocument readB)]
    exact Except.ok.inj (((contents _).1 contentA).symm.trans contentB)

/-- A loop that is left at once, with its bounds as given and a finding beside it. -/
def briefLoop (bounds : List (String × String)) (findings : List Annotation) : Document where
  formatVersion := "3.1"
  instances := [{ blocks := [.mk {
    id := "a", type := "controls_for", fields := [⟨"VAR", "i"⟩]
    values := bounds.map fun e =>
      ⟨e.1, .mk { id := e.1, type := "math_number", fields := [⟨"NUM", e.2⟩] }⟩
    statements := [⟨"DO", [.mk {
      id := "b", type := "controls_flow_statements", fields := [⟨"FLOW", "BREAK"⟩] }]⟩]
    annotations := findings }] }]

theorem Program.ofDocument_briefLoop :
    let a := briefLoop [("FROM", "1"), ("TO", "3"), ("BY", "1")] []
    let b := briefLoop [("TO", "3"), ("BY", "1"), ("FROM", "1")] [⟨"info", "style", "brief"⟩]
    ∃ p s' q t', (ofDocument .core a).run {} = (.ok p, s') ∧
      (ofDocument .core b).run {} = (.ok q, t') ∧ p.alike q = true := by
  intro a b
  have same : a.equivalent b = true := by cbv
  have fullA : a.Full := by decide +kernel
  have fullB : b.Full := by decide +kernel
  obtain ⟨iff, alike⟩ := @ofDocument_of_equivalent .core a b same fullA fullB {} {}
  have computed : ((ofDocument .core a).run {}).1.toOption.any (fun _ => true) = true := by
    decide +kernel
  obtain ⟨p, s', readA, -⟩ := Except.exists_eq_ok_of_any_fst computed
  obtain ⟨q, t', readB⟩ := iff.1 ⟨p, s', readA⟩
  exact ⟨p, s', q, t', readA, readB, alike p s' q t' readA readB⟩

end BlockGraph

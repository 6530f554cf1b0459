import BlockGraph.Document

/-!
# Equality of documents

Whether two documents are the same can be decided: block by block, the outermost layers are
compared first, then the blocks inside.

* `Block.same_iff`: the comparison decides equality.
-/

namespace BlockGraph

namespace Block

theorem sizeOf_lt_of_mem_children {b : Block} {l : BlockLayer Block} (h : b ∈ l.children) :
    sizeOf b < sizeOf (mk l) := by
  obtain ⟨id, type, attributes, comment, fields, values, statements, annotations⟩ := l
  simp only [mk.sizeOf_spec, BlockLayer.mk.sizeOf_spec]
  rcases List.mem_append.1 h with h | h
  · obtain ⟨slot, mem, rfl⟩ := List.mem_map.1 h
    have : sizeOf slot < sizeOf values := List.sizeOf_lt_of_mem mem
    have : sizeOf slot.block < sizeOf slot := by
      cases slot; simp only [ValueSlot.mk.sizeOf_spec]; omega
    omega
  · obtain ⟨slot, mem, within⟩ := List.mem_flatMap.1 h
    have : sizeOf slot < sizeOf statements := List.sizeOf_lt_of_mem mem
    have : sizeOf b < sizeOf slot := by
      have := List.sizeOf_lt_of_mem within
      cases slot; simp only [StatementSlot.mk.sizeOf_spec] at this ⊢; omega
    omega

/-- Proves a property of all blocks from the property of the blocks inside. -/
theorem induction {motive : Block → Prop}
    (step : ∀ l : BlockLayer Block, (∀ b ∈ l.children, motive b) → motive (mk l)) (b : Block) :
    motive b :=
  match b with
  | mk l => step l fun c _ => induction step c
termination_by sizeOf b
decreasing_by exact sizeOf_lt_of_mem_children ‹_›

/-! ## Layers -/

theorem values_ext {α : Type} {v w : List (ValueSlot α)}
    (shape : v.map (ValueSlot.map fun _ => ()) = w.map (ValueSlot.map fun _ => ()))
    (blocks : v.map (·.block) = w.map (·.block)) : v = w := by
  induction v generalizing w with
  | nil => simpa using shape.symm
  | cons a v ih =>
    obtain ⟨b, w, rfl⟩ := List.exists_cons_of_ne_nil (l := w) (by rintro rfl; simp at shape)
    simp only [List.map_cons, List.cons.injEq] at shape blocks
    obtain ⟨name, block⟩ := a
    obtain ⟨name', block'⟩ := b
    simp only [ValueSlot.map, ValueSlot.mk.injEq] at shape
    rw [ih shape.2 blocks.2, shape.1.1, show block = block' from blocks.1]

theorem statements_ext {α : Type} {s t : List (StatementSlot α)}
    (shape : s.map (StatementSlot.map fun _ => ()) = t.map (StatementSlot.map fun _ => ()))
    (blocks : s.flatMap (·.blocks) = t.flatMap (·.blocks)) : s = t := by
  induction s generalizing t with
  | nil => simpa using shape.symm
  | cons a s ih =>
    obtain ⟨b, t, rfl⟩ := List.exists_cons_of_ne_nil (l := t) (by rintro rfl; simp at shape)
    obtain ⟨name, bs⟩ := a
    obtain ⟨name', bs'⟩ := b
    simp only [List.map_cons, List.cons.injEq, StatementSlot.map, StatementSlot.mk.injEq] at shape
    have len : bs.length = bs'.length := by simpa using congrArg List.length shape.1.2
    obtain ⟨rfl, tail⟩ := List.append_inj (by simpa using blocks) len
    rw [ih shape.2 tail, shape.1.1]

theorem layer_ext {α : Type} {l m : BlockLayer α}
    (shape : l.map (fun _ => ()) = m.map (fun _ => ())) (inside : l.children = m.children) :
    l = m := by
  obtain ⟨id, type, attributes, comment, fields, values, statements, annotations⟩ := l
  obtain ⟨id', type', attributes', comment', fields', values', statements', annotations'⟩ := m
  simp only [BlockLayer.map, BlockLayer.mk.injEq] at shape
  obtain ⟨rfl, rfl, rfl, rfl, rfl, vs, ss, rfl⟩ := shape
  have len : (values.map (·.block)).length = (values'.map (·.block)).length := by
    simpa using congrArg List.length vs
  obtain ⟨hv, hs⟩ := List.append_inj inside len
  rw [values_ext vs hv, statements_ext ss hs]

theorem all_zip_eq {α : Type} {same : α → α → Bool} {l m : List α}
    (agree : ∀ a ∈ l, ∀ b, same a b = true ↔ a = b) (len : l.length = m.length) :
    ((l.zip m).all fun c => same c.1 c.2) = true ↔ l = m := by
  induction l generalizing m with
  | nil => cases m <;> simp_all
  | cons a l ih =>
    cases m with
    | nil => simp at len
    | cons b m =>
      simp only [List.zip_cons_cons, List.all_cons, Bool.and_eq_true, List.cons.injEq]
      rw [agree a List.mem_cons_self b,
        ih (fun a h => agree a (List.mem_cons_of_mem _ h)) (by simpa using len)]

/-! ## The comparison -/

/-- Whether two blocks are the same: their outermost layers and all blocks inside agree. -/
def same : Block → Block → Bool :=
  recurse fun l other =>
    l.map (fun _ => ()) == other.layer.map (fun _ => ()) &&
      (l.children.zip other.layer.children).all fun c => c.1.result c.2

theorem same_mk (l : BlockLayer Block) (other : Block) :
    same (mk l) other = (l.map (fun _ => ()) == other.layer.map (fun _ => ()) &&
      (l.children.zip other.layer.children).all fun c => same c.1 c.2) := by
  rw [same, recurse_mk]
  simp only [BlockLayer.map_map, BlockLayer.children_map, List.zip_map_left, List.all_map]
  rfl

theorem length_children_of_shape {α : Type} {l m : BlockLayer α}
    (shape : l.map (fun _ => ()) = m.map (fun _ => ())) :
    l.children.length = m.children.length := by
  simpa using congrArg (fun k => k.children.length) shape

theorem same_iff {a b : Block} : same a b = true ↔ a = b := by
  induction a using induction generalizing b with
  | step l ih =>
    obtain ⟨m⟩ := b
    rw [same_mk]
    simp only [layer, Bool.and_eq_true, beq_iff_eq, mk.injEq]
    constructor
    · rintro ⟨shape, inside⟩
      exact layer_ext shape
        ((all_zip_eq (fun a h b => ih a h) (length_children_of_shape shape)).1 inside)
    · rintro rfl
      exact ⟨rfl, (all_zip_eq (fun a h b => ih a h) rfl).2 rfl⟩

instance : DecidableEq Block := fun a b =>
  if h : same a b then .isTrue (same_iff.1 h) else .isFalse fun e => h (same_iff.2 e)

end Block

deriving instance DecidableEq for Chain
deriving instance DecidableEq for Document

end BlockGraph

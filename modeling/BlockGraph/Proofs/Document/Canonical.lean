import BlockGraph.Document.Canonical
import Mathlib.Data.List.Nodup
import Mathlib.Data.List.Perm.Basic
import Mathlib.Logic.Relation

/-!
# What canonical forms forget

Two documents are equivalent exactly if small edits lead from one to the other: neighbouring slots
of different names change places, chains without blocks come and go, and annotations change
(`Document.equivalent_iff_reaches`). Slots that share a name never overtake each other, so the
slots of each name, in their order, are all that sorting keeps (`sortByName_eq_iff`). The blocks of
a canonical form are those of the document, in another order (`Block.perm_ids_canonical`).
-/

namespace BlockGraph

open Relation

variable {α β γ : Type}

/-! ## Swaps of neighbours -/

/-- Two neighbours with different names change places. -/
inductive Swap (name : α → String) : List α → List α → Prop where
  | here {a b : α} (l : List α) (differ : name a ≠ name b) : Swap name (a :: b :: l) (b :: a :: l)
  | there (a : α) {l m : List α} (h : Swap name l m) : Swap name (a :: l) (a :: m)

/-- Any number of swaps. -/
abbrev Swaps (name : α → String) : List α → List α → Prop := ReflTransGen (Swap name)

section Swaps

variable {name : α → String} {l m : List α}

theorem Swap.symm (h : Swap name l m) : Swap name m l := by
  induction h with
  | here l differ => exact .here l differ.symm
  | there a _ ih => exact .there a ih

theorem Swap.map {name' : β → String} {f : α → β} (names : ∀ a, name' (f a) = name a)
    (h : Swap name l m) : Swap name' (l.map f) (m.map f) := by
  induction h with
  | here l differ => exact .here _ (by simpa only [names] using differ)
  | there a _ ih => exact .there _ ih

theorem Swaps.cons (a : α) (h : Swaps name l m) : Swaps name (a :: l) (a :: m) :=
  h.lift (a :: ·) fun _ _ step => .there a step

/-- An entry moves past others with other names. -/
theorem Swaps.move (a : α) (pre post : List α) (differ : ∀ b ∈ pre, name b ≠ name a) :
    Swaps name (pre ++ a :: post) (a :: (pre ++ post)) := by
  induction pre with
  | nil => exact .refl
  | cons b pre ih =>
    have inner := ih fun c hc => differ c (List.mem_cons_of_mem b hc)
    exact (inner.cons b).tail (.here _ (differ b List.mem_cons_self))

/-- Entries of one name. -/
def named (name : α → String) (k : String) (l : List α) : List α := l.filter (name · = k)

theorem mem_named {a : α} {k : String} : a ∈ named name k l ↔ a ∈ l ∧ name a = k := by
  simp [named]

theorem named_cons_same (a : α) : named name (name a) (a :: l) = a :: named name (name a) l := by
  simp [named]

theorem named_cons_other {a : α} {k : String} (h : name a ≠ k) :
    named name k (a :: l) = named name k l := by
  simp [named, h]

theorem Swap.named_eq (h : Swap name l m) (k : String) : named name k l = named name k m := by
  induction h with
  | @here a b l differ =>
    by_cases ha : name a = k
    · subst ha
      rw [named_cons_same, named_cons_other differ.symm, named_cons_other differ.symm,
        named_cons_same]
    · simp [named, List.filter_cons, ha]
  | there a _ ih =>
    by_cases ha : name a = k
    · subst ha
      rw [named_cons_same, named_cons_same, ih]
    · rw [named_cons_other ha, named_cons_other ha, ih]

theorem Swaps.named_eq (h : Swaps name l m) (k : String) : named name k l = named name k m := by
  induction h with
  | refl => rfl
  | tail _ step ih => exact ih.trans (step.named_eq k)

theorem eq_nil_of_named (h : ∀ k, named name k l = []) : l = [] := by
  refine List.eq_nil_iff_forall_not_mem.2 fun a ha => ?_
  have mem : a ∈ named name (name a) l := mem_named.2 ⟨ha, rfl⟩
  exact absurd (h (name a) ▸ mem) List.not_mem_nil

/-- Swaps lead from one list to another exactly if each name has the same entries in the same
order. -/
theorem swaps_iff : Swaps name l m ↔ ∀ k, named name k l = named name k m := by
  refine ⟨Swaps.named_eq, fun same => ?_⟩
  induction m generalizing l with
  | nil =>
    rw [eq_nil_of_named same]
  | cons a m ih =>
    have first : named name (name a) l = a :: named name (name a) m :=
      (same _).trans (named_cons_same a)
    obtain ⟨pre, post, rfl, apart, -, rest⟩ := List.filter_eq_cons_iff.1 first
    have apart : ∀ b ∈ pre, name b ≠ name a := by simpa using apart
    -- With `a` taken out, what remains agrees name by name.
    have tails (k : String) : named name k (pre ++ post) = named name k m := by
      by_cases hk : name a = k
      · subst hk
        have none : pre.filter (name · = name a) = [] :=
          List.filter_eq_nil_iff.2 fun b hb => by simpa using apart b hb
        rw [named, List.filter_append, none, List.nil_append, rest]
      · simpa [named, hk] using same k
    exact (Swaps.move a pre post apart).trans ((ih tails).cons a)

end Swaps

/-! ## Sorting by name -/

section Sorting

variable {name : α → String}

/-- Whether names come in order. -/
abbrev Ordered (name : α → String) (l : List α) : Prop :=
  l.Pairwise fun a b => (compare (name a) (name b)).isLE = true

theorem compare_isLE_total (a b : String) :
    ((compare a b).isLE || (compare b a).isLE) = true := by
  rw [Bool.or_eq_true]
  rcases h : compare a b with _ | _ | _
  · exact .inl rfl
  · exact .inl rfl
  · rw [Std.OrientedCmp.lt_of_gt h]
    exact .inr rfl

theorem compare_self_isLE (a : String) : (compare a a).isLE = true := by
  have same : compare a a = .eq := Std.ReflCmp.compare_self
  rw [same]
  rfl

theorem ordered_sortByName (l : List α) : Ordered name (sortByName name l) :=
  List.pairwise_mergeSort (fun _ _ _ => Std.TransCmp.isLE_trans)
    (fun _ _ => compare_isLE_total _ _) l

/-- Sorting keeps the entries of one name in their order. -/
theorem named_sortByName (l : List α) (k : String) :
    named name k (sortByName name l) = named name k l := by
  have equals : Ordered name (named name k l) := by
    refine List.pairwise_of_forall_mem_list fun a ha b hb => ?_
    rw [(mem_named.1 ha).2, (mem_named.1 hb).2]
    exact compare_self_isLE k
  have kept : (named name k l).Sublist (sortByName name l) :=
    List.sublist_mergeSort (fun _ _ _ => Std.TransCmp.isLE_trans)
      (fun _ _ => compare_isLE_total _ _) equals List.filter_sublist
  have within : (named name k l).Sublist (named name k (sortByName name l)) := by
    have again : named name k (named name k l) = named name k l := by simp [named]
    exact again ▸ kept.filter (name · = k)
  have perm : (sortByName name l).Perm l := List.mergeSort_perm _ _
  exact (within.eq_of_length (perm.symm.filter _).length_eq).symm

/-- Lists in order are the same if each name has the same entries. -/
theorem eq_of_ordered {l m : List α} (hl : Ordered name l) (hm : Ordered name m)
    (same : ∀ k, named name k l = named name k m) : l = m := by
  induction l generalizing m with
  | nil => exact (eq_nil_of_named fun k => (same k).symm).symm
  | cons a l ih =>
    cases m with
    | nil => exact absurd (eq_nil_of_named same) (List.cons_ne_nil a l)
    | cons b m =>
      have least {c d : α} {k : List α} (hk : Ordered name (c :: k)) (hd : d ∈ c :: k) :
          (compare (name c) (name d)).isLE = true := by
        rcases List.mem_cons.1 hd with rfl | hd
        · exact compare_self_isLE _
        · exact List.rel_of_pairwise_cons hk hd
      have mem {c : α} {j k : List α} (h : named name (name c) j = named name (name c) k)
          (hc : c ∈ j) : c ∈ k :=
        (mem_named.1 (h ▸ mem_named.2 ⟨hc, rfl⟩)).1
      have names : name a = name b := Std.LawfulEqCmp.eq_of_compare <| Std.OrientedCmp.isLE_antisymm
        (least hl (mem (same _).symm List.mem_cons_self))
        (least hm (mem (same _) List.mem_cons_self))
      have heads := same (name a)
      rw [named_cons_same, names, named_cons_same] at heads
      obtain ⟨rfl, -⟩ := List.cons.inj heads
      refine congrArg (a :: ·) (ih hl.of_cons hm.of_cons fun k => ?_)
      by_cases ha : name a = k
      · subst ha
        exact (List.cons.inj heads).2
      · simpa only [named_cons_other ha] using same k

theorem sortByName_eq_iff {l m : List α} :
    sortByName name l = sortByName name m ↔ ∀ k, named name k l = named name k m := by
  constructor
  · intro h k
    rw [← named_sortByName l, h, named_sortByName]
  · intro same
    refine eq_of_ordered (ordered_sortByName l) (ordered_sortByName m) fun k => ?_
    rw [named_sortByName, same, named_sortByName]

theorem swaps_sortByName (l : List α) : Swaps name l (sortByName name l) :=
  swaps_iff.2 fun k => (named_sortByName l k).symm

/-- Sorting by distinct names forgets the order. -/
theorem sortByName_eq_of_perm {l m : List α} (perm : l.Perm m)
    (distinct : (l.map name).Nodup) : sortByName name l = sortByName name m := by
  have same : (sortByName name l).Perm (sortByName name m) :=
    (List.mergeSort_perm _ _).trans (perm.trans (List.mergeSort_perm _ _).symm)
  refine same.eq_of_pairwise (fun a b ha hb h h' => ?_) (ordered_sortByName l)
    (ordered_sortByName m)
  have ha : a ∈ l := (List.mergeSort_perm _ _).mem_iff.1 ha
  have hb : b ∈ l := perm.mem_iff.2 ((List.mergeSort_perm _ _).mem_iff.1 hb)
  refine List.inj_on_of_nodup_map distinct ha hb ?_
  exact Std.LawfulEqCmp.eq_of_compare (Std.OrientedCmp.isLE_antisymm h h')

end Sorting

/-! ## Canonical forms of blocks -/

theorem map_congr_children {l : BlockLayer α} {f g : α → β} (h : ∀ b ∈ l.children, f b = g b) :
    l.map f = l.map g := by
  have values : l.values.map (ValueSlot.map f) = l.values.map (ValueSlot.map g) :=
    List.map_congr_left fun s hs => by
      rw [ValueSlot.map, ValueSlot.map, h _ (List.mem_append_left _ (List.mem_map_of_mem hs))]
  have statements :
      l.statements.map (StatementSlot.map f) = l.statements.map (StatementSlot.map g) :=
    List.map_congr_left fun s hs => by
      rw [StatementSlot.map, StatementSlot.map, List.map_congr_left fun b hb =>
        h b (List.mem_append_right _ (List.mem_flatMap.2 ⟨s, hs, hb⟩))]
  rw [BlockLayer.map, BlockLayer.map, values, statements]

theorem canonical_mk (l : BlockLayer Block) :
    (Block.mk l).canonical = .mk (l.map Block.canonical).canonical := by
  rw [Block.canonical, Block.recurse_mk, BlockLayer.map_map]
  rfl

/-! ## Blocks in canonical order -/

theorem BlockLayer.perm_children_canonical (l : BlockLayer α) :
    l.canonical.children.Perm l.children := by
  have chains : (l.statements.filter (!·.blocks.isEmpty)).flatMap (·.blocks) =
      l.statements.flatMap (·.blocks) := by
    have full := List.flatten_filter_not_isEmpty (L := l.statements.map (·.blocks))
    rwa [List.filter_map] at full
  refine ((List.mergeSort_perm _ _).map _).append ?_
  exact chains ▸ (List.mergeSort_perm _ _).flatMap_right _

section Found

variable {γ : Type} {g : Block → List γ}
  (step : ∀ l : BlockLayer Block,
    ((l.map Block.canonical).canonical.children.flatMap g).Perm (l.children.flatMap g) →
      (g (.mk (l.map Block.canonical).canonical)).Perm (g (.mk l)))
include step

/-- What is found block by block is found in the canonical form, in another order. -/
theorem Block.perm_canonical (b : Block) : (g b.canonical).Perm (g b) := by
  induction b using Block.induction with
  | step l ih =>
    rw [canonical_mk]
    have children := (l.map Block.canonical).perm_children_canonical.flatMap_right g
    refine step l (children.trans ?_)
    rw [BlockLayer.children_map, List.flatMap_map]
    exact List.Perm.flatMap_left _ ih

/-- The same is found in documents that mean the same. -/
theorem Document.perm_of_canonical_eq {a b : Document} (h : a.canonical = b.canonical) :
    (a.instances.flatMap fun c => c.blocks.flatMap g).Perm
      (b.instances.flatMap fun c => c.blocks.flatMap g) := by
  have same (d : Document) : (d.canonical.instances.flatMap fun c => c.blocks.flatMap g).Perm
      (d.instances.flatMap fun c => c.blocks.flatMap g) := by
    rw [canonical, List.flatMap_map]
    refine .flatMap_left _ fun c _ => ?_
    rw [List.flatMap_map]
    exact .flatMap_left _ fun b _ => Block.perm_canonical step b
  exact (same a).symm.trans (h ▸ same b)

end Found

/-! ## Ids -/

/-- The ids of a block and of all blocks inside it. -/
def Block.ids (b : Block) : List String := b.preorder.map (·.layer.id)

theorem Block.ids_mk (l : BlockLayer Block) : (mk l).ids = l.id :: l.children.flatMap ids := by
  rw [ids, preorder_mk, List.map_cons, List.map_flatMap]
  rfl

theorem Document.ids_blocks (d : Document) : d.blocks.map (·.layer.id) =
    d.instances.flatMap fun c => c.blocks.flatMap Block.ids := by
  simp only [blocks, List.map_flatMap]
  rfl

/-- Documents that mean the same have blocks with the same ids. -/
theorem Document.perm_ids_of_canonical_eq {a b : Document} (h : a.canonical = b.canonical) :
    (a.blocks.map (·.layer.id)).Perm (b.blocks.map (·.layer.id)) := by
  rw [ids_blocks, ids_blocks]
  refine perm_of_canonical_eq (fun l below => ?_) h
  rw [Block.ids_mk, Block.ids_mk]
  exact below.cons _

/-! ## Edits -/

/-- An edit of the outermost block: a swap, a chain without blocks put in or taken out, or other
annotations. -/
inductive BlockLayer.Step : BlockLayer α → BlockLayer α → Prop where
  | fields (l : BlockLayer α) {fields : List FieldSlot} (h : Swap (·.name) l.fields fields) :
      Step l { l with fields }
  | values (l : BlockLayer α) {values : List (ValueSlot α)} (h : Swap (·.name) l.values values) :
      Step l { l with values }
  | statements (l : BlockLayer α) {statements : List (StatementSlot α)}
      (h : Swap (·.name) l.statements statements) : Step l { l with statements }
  | insert (l : BlockLayer α) (name : String) {before after : List (StatementSlot α)}
      (h : l.statements = before ++ after) :
      Step l { l with statements := before ++ ⟨name, []⟩ :: after }
  | delete (l : BlockLayer α) (name : String) {before after : List (StatementSlot α)}
      (h : l.statements = before ++ ⟨name, []⟩ :: after) :
      Step l { l with statements := before ++ after }
  | annotations (l : BlockLayer α) (annotations : List Annotation) : Step l { l with annotations }

/-- An edit of a block or of one inside it. -/
inductive Block.Step : Block → Block → Prop where
  | here {l m : BlockLayer Block} (h : l.Step m) : Step (mk l) (mk m)
  | value (l : BlockLayer Block) {before after : List (ValueSlot Block)} {name : String}
      {b c : Block} (inside : l.values = before ++ ⟨name, b⟩ :: after) (h : Step b c) :
      Step (mk l) (mk { l with values := before ++ ⟨name, c⟩ :: after })
  | statement (l : BlockLayer Block) {before after : List (StatementSlot Block)} {name : String}
      {above below : List Block} {b c : Block}
      (inside : l.statements = before ++ ⟨name, above ++ b :: below⟩ :: after) (h : Step b c) :
      Step (mk l) (mk { l with statements := before ++ ⟨name, above ++ c :: below⟩ :: after })

/-- An edit of one block of a document, at any depth. -/
inductive Document.Step : Document → Document → Prop where
  | block (d : Document) {before after : List Chain} {x y : Int64} {above below : List Block}
      {b c : Block} (inside : d.instances = before ++ ⟨x, y, above ++ b :: below⟩ :: after)
      (h : b.Step c) :
      Step d { d with instances := before ++ ⟨x, y, above ++ c :: below⟩ :: after }

/-! ## Edits keep the canonical form -/

/-- The chains that have blocks. -/
abbrev full (statements : List (StatementSlot α)) : List (StatementSlot α) :=
  statements.filter fun s => !s.blocks.isEmpty

theorem named_filter (name : α → String) (p : α → Bool) (k : String) (l : List α) :
    named name k (l.filter p) = (named name k l).filter p := by
  rw [named, named, List.filter_filter, List.filter_filter]
  exact congrArg (fun q => l.filter q) (funext fun a => Bool.and_comm _ _)

theorem BlockLayer.Step.canonical_eq {l m : BlockLayer α} (h : l.Step m) :
    l.canonical = m.canonical := by
  cases h with
  | fields h =>
    have sorted := sortByName_eq_iff.2 h.named_eq
    rw [BlockLayer.canonical, sorted]
    rfl
  | values h =>
    have sorted := sortByName_eq_iff.2 h.named_eq
    rw [BlockLayer.canonical, sorted]
    rfl
  | @statements statements h =>
    have sorted : sortByName (·.name) (full l.statements) = sortByName (·.name) (full statements) :=
      sortByName_eq_iff.2 fun k => by rw [named_filter, named_filter, h.named_eq]
    rw [BlockLayer.canonical, sorted]
    rfl
  | insert name h => simp [BlockLayer.canonical, h]
  | delete name h => simp [BlockLayer.canonical, h]
  | annotations => rfl

theorem BlockLayer.Step.map (f : α → β) {l m : BlockLayer α} (h : l.Step m) :
    (l.map f).Step (m.map f) := by
  cases h with
  | fields h => exact .fields (l.map f) h
  | values h => exact .values (l.map f) (h.map fun _ => rfl)
  | statements h => exact .statements (l.map f) (h.map fun _ => rfl)
  | insert name h =>
    simpa [BlockLayer.map, StatementSlot.map] using
      Step.insert (l.map f) name (by rw [BlockLayer.map, h, List.map_append])
  | delete name h =>
    simpa [BlockLayer.map, StatementSlot.map] using
      Step.delete (l.map f) name (by rw [BlockLayer.map, h, List.map_append]; rfl)
  | annotations annotations => exact .annotations (l.map f) annotations

theorem Block.Step.canonical_eq {b c : Block} (h : b.Step c) : b.canonical = c.canonical := by
  induction h with
  | here h => rw [canonical_mk, canonical_mk, (h.map Block.canonical).canonical_eq]
  | value l inside _ ih =>
    rw [canonical_mk, canonical_mk, BlockLayer.map, inside]
    simp [BlockLayer.map, ValueSlot.map, ih]
  | statement l inside _ ih =>
    rw [canonical_mk, canonical_mk, BlockLayer.map, inside]
    simp [BlockLayer.map, StatementSlot.map, ih]

theorem Document.Step.canonical_eq {a b : Document} (h : a.Step b) : a.canonical = b.canonical := by
  obtain ⟨inside, h⟩ := h
  rw [Document.canonical, Document.canonical, inside]
  simp [h.canonical_eq]

/-! ## Edits lead to the canonical form -/

/-- Entries change one after the other. -/
theorem reaches_map {R : γ → γ → Prop} (put : List β → γ) {f : β → β} {l : List β}
    (each : ∀ before after, ∀ b ∈ l,
      ReflTransGen R (put (before ++ b :: after)) (put (before ++ f b :: after))) :
    ReflTransGen R (put l) (put (l.map f)) := by
  -- The entries before the current one have changed already.
  suffices ∀ before, ReflTransGen R (put (before ++ l)) (put (before ++ l.map f)) from this []
  induction l with
  | nil => exact fun _ => .refl
  | cons b l ih =>
    intro before
    have rest := ih (fun before after c hc => each before after c (List.mem_cons_of_mem b hc))
      (before ++ [f b])
    rw [List.append_assoc, List.append_assoc] at rest
    exact (each before l b List.mem_cons_self).trans rest

theorem BlockLayer.reaches_full (l : BlockLayer α) :
    ReflTransGen Step l { l with statements := full l.statements } := by
  suffices ∀ before after, ReflTransGen Step { l with statements := before ++ after }
      { l with statements := before ++ full after } from this [] l.statements
  intro before after
  induction after generalizing before with
  | nil => exact .refl
  | cons s after ih =>
    obtain ⟨name, blocks⟩ := s
    cases blocks with
    | nil =>
      have first : Step { l with statements := before ++ ⟨name, []⟩ :: after }
        { l with statements := before ++ after } := .delete _ name rfl
      exact .head first (ih before)
    | cons b blocks =>
      have rest := ih (before ++ [⟨name, b :: blocks⟩])
      rwa [List.append_assoc, List.append_assoc] at rest

theorem BlockLayer.reaches_canonical (l : BlockLayer α) : ReflTransGen Step l l.canonical := by
  let fields := sortByName (·.name) l.fields
  let values := sortByName (·.name) l.values
  have byFields : ReflTransGen Step l { l with fields } :=
    (swaps_sortByName l.fields).lift (fun fields => { l with fields })
      fun _ _ h => .fields { l with fields := _ } h
  have byValues : ReflTransGen Step { l with fields } { l with fields, values } :=
    (swaps_sortByName l.values).lift (fun values => { l with fields, values })
      fun _ _ h => .values { l with fields, values := _ } h
  have byFull : ReflTransGen Step { l with fields, values }
      { l with fields, values, statements := full l.statements } :=
    reaches_full { l with fields, values }
  have byStatements : ReflTransGen Step { l with fields, values, statements := full l.statements }
      { l.canonical with annotations := l.annotations } :=
    (swaps_sortByName (full l.statements)).lift
      (fun statements => { l with fields, values, statements })
      fun _ _ h => .statements { l with fields, values, statements := _ } h
  exact byFields.trans <| byValues.trans <| byFull.trans <|
    byStatements.tail (.annotations { l.canonical with annotations := l.annotations } [])

/-- The blocks inside a block take on their canonical forms. -/
theorem Block.reaches_map_canonical (l : BlockLayer Block)
    (ih : ∀ b ∈ l.children, ReflTransGen Step b b.canonical) :
    ReflTransGen Step (mk l) (mk (l.map canonical)) := by
  have values : ReflTransGen Step (mk l)
      (mk { l with values := l.values.map (ValueSlot.map canonical) }) := by
    refine reaches_map (fun values => mk { l with values }) fun before after v hv => ?_
    have inner := ih v.block (List.mem_append_left _ (List.mem_map_of_mem hv))
    exact inner.lift (fun b => mk { l with values := before ++ ⟨v.name, b⟩ :: after })
      fun _ _ h => .value _ rfl h
  let l' := { l with values := l.values.map (ValueSlot.map canonical) }
  have statements : ReflTransGen Step (mk l') (mk (l.map canonical)) := by
    refine reaches_map (fun statements => mk { l' with statements }) fun before after s hs => ?_
    refine reaches_map (fun blocks =>
      mk { l' with statements := before ++ ⟨s.name, blocks⟩ :: after }) fun above below b hb => ?_
    have inner := ih b (List.mem_append_right _ (List.mem_flatMap.2 ⟨s, hs, hb⟩))
    exact inner.lift
      (fun b => mk { l' with statements := before ++ ⟨s.name, above ++ b :: below⟩ :: after })
      fun _ _ h => .statement _ rfl h
  exact values.trans statements

theorem Block.reaches_canonical (b : Block) : ReflTransGen Step b b.canonical := by
  induction b using Block.induction with
  | step l ih =>
    have outermost := (l.map canonical).reaches_canonical.lift mk fun _ _ => Step.here
    rw [canonical_mk]
    exact (reaches_map_canonical l ih).trans outermost

theorem Document.reaches_canonical (d : Document) : ReflTransGen Step d d.canonical := by
  refine reaches_map (fun instances => { d with instances }) fun before after c _ => ?_
  let put (blocks : List Block) : Document :=
    { d with instances := before ++ { c with blocks } :: after }
  refine reaches_map put fun above below b _ => ?_
  exact b.reaches_canonical.lift (fun b => put (above ++ b :: below))
    fun _ _ h => .block _ rfl h

/-! ## Edits can be undone -/

theorem BlockLayer.Step.symm {l m : BlockLayer α} (h : l.Step m) : m.Step l := by
  cases h with
  | fields h => exact .fields { l with fields := _ } h.symm
  | values h => exact .values { l with values := _ } h.symm
  | statements h => exact .statements { l with statements := _ } h.symm
  | @insert name before after h =>
    have undone := Step.delete
      { l with statements := before ++ (⟨name, []⟩ : StatementSlot α) :: after } name rfl
    rwa [← h] at undone
  | @delete name before after h =>
    have undone := Step.insert { l with statements := before ++ after } name rfl
    rwa [← h] at undone
  | annotations annotations => exact .annotations { l with annotations } l.annotations

theorem Block.Step.symm {b c : Block} (h : b.Step c) : c.Step b := by
  induction h with
  | here h => exact .here h.symm
  | @value l before after name _ c inside _ ih =>
    have undone := Step.value { l with values := before ++ ⟨name, c⟩ :: after } rfl ih
    rwa [← inside] at undone
  | @statement l before after name above below _ c inside _ ih =>
    have undone := Step.statement
      { l with statements := before ++ ⟨name, above ++ c :: below⟩ :: after } rfl ih
    rwa [← inside] at undone

theorem Document.Step.symm {a b : Document} (h : a.Step b) : b.Step a := by
  obtain @⟨before, after, x, y, above, below, b, c, inside, h⟩ := h
  have undone :=
    Step.block { a with instances := before ++ ⟨x, y, above ++ c :: below⟩ :: after } rfl h.symm
  rwa [← inside] at undone

/-! ## Equivalence -/

theorem Document.canonical_eq_of_reaches {a b : Document} (h : ReflTransGen Step a b) :
    a.canonical = b.canonical := by
  induction h with
  | refl => rfl
  | tail _ step ih => exact ih.trans step.canonical_eq

/-- Documents are equivalent exactly if edits lead from one to the other. The canonical form is one
of the documents that edits lead to, and stands for itself. -/
theorem Document.equivalent_iff_reaches (a b : Document) :
    (a.equivalent b = true ↔ ReflTransGen Step a b) ∧
      a.canonical.canonical = a.canonical ∧ a.equivalent a.canonical = true := by
  have again := canonical_eq_of_reaches a.reaches_canonical
  refine ⟨⟨fun same => ?_, fun h => ?_⟩, again.symm, decide_eq_true again⟩
  · have same : a.canonical = b.canonical := of_decide_eq_true same
    have : Std.Symm Step := ⟨fun _ _ => Step.symm⟩
    have back : ReflTransGen Step b.canonical b :=
      ReflTransGen.stdSymm.symm _ _ b.reaches_canonical
    exact a.reaches_canonical.trans (same ▸ back)
  · exact decide_eq_true (canonical_eq_of_reaches h)

end BlockGraph

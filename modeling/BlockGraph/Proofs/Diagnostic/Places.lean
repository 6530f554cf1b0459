import BlockGraph.Proofs.Diagnostic
import Mathlib.Algebra.Ring.Nat

/-!
# Findings and their places

A store keeps its findings twice: in one list, and for each node as places in that list. However
the calls at different nodes are mixed, the two stay in step.

* `DiagnosticStore.Placed`: the places of a node are exactly those of its findings, ascending.
* `DiagnosticStore.Placed.push`: one more finding keeps this.
* `DiagnosticStore.records_pushAll`: what a store tells after any run.
-/

namespace BlockGraph

namespace DiagnosticStore

variable {s : DiagnosticStore}

/-! ## Places -/

/-- The places of the findings about a node. -/
def placesOf (s : DiagnosticStore) (id : NodeId) : List Nat := (s.places.get? id).getD []

/-- The node of the finding at a place, if there is one. -/
def nodeAt? (s : DiagnosticStore) (i : Nat) : Option NodeId := s.toList[i]?.bind Diagnostic.node?

theorem placesOf_push (s : DiagnosticStore) (n : Node) (d : Diagnostic) (id : NodeId) :
    (s.push n d).placesOf id = if id = n.id then s.placesOf id ++ [s.size] else s.placesOf id := by
  unfold placesOf
  rw [DiagnosticStore.push, SortedMap.get?_insert]
  by_cases same : id = n.id
  · subst same
    rw [if_pos rfl, if_pos rfl]
    rfl
  · rw [if_neg same, if_neg same]

theorem nodeAt?_push_of_lt {n : Node} {d : Diagnostic} {i : Nat} (old : i < s.size) :
    (s.push n d).nodeAt? i = s.nodeAt? i := by
  unfold nodeAt?
  rw [toList_push, List.getElem?_append_left (show i < s.toList.length from old)]

theorem nodeAt?_push_self (s : DiagnosticStore) (n : Node) (d : Diagnostic) :
    (s.push n d).nodeAt? s.size = some n.id := by
  unfold nodeAt?
  rw [toList_push, show s.size = s.toList.length from rfl, List.getElem?_concat_length]
  rfl

/-- The places of a node are those at which its findings stand, in ascending order. -/
def Placed (s : DiagnosticStore) : Prop :=
  ∀ id, s.placesOf id = (List.range s.size).filter fun i => s.nodeAt? i = some id

theorem placed_empty : Placed empty := fun _ => rfl

/-- The new finding gets the next place, and all others stay where they are. -/
theorem Placed.push (h : s.Placed) (n : Node) (d : Diagnostic) : (s.push n d).Placed := by
  intro id
  have old : ((List.range s.size).filter fun i => (s.push n d).nodeAt? i = some id) =
      s.placesOf id := by
    rw [h id]
    apply List.filter_congr
    intro i hi
    rw [nodeAt?_push_of_lt (List.mem_range.1 hi)]
  rw [placesOf_push, size_push, List.range_succ, List.filter_append, old]
  by_cases same : id = n.id
  · subst same
    rw [if_pos rfl, List.filter_singleton, nodeAt?_push_self]
    simp
  · rw [if_neg same, List.filter_singleton, nodeAt?_push_self]
    simp [Ne.symm same]

theorem Placed.pushAll (h : s.Placed) (found : List (Node × Diagnostic)) :
    (s.pushAll found).Placed := by
  unfold DiagnosticStore.pushAll
  induction found generalizing s with
  | nil => exact h
  | cons e found ih => exact ih (h.push e.1 e.2)

/-! ## Findings -/

/-- A finding is among those about its node and no other. -/
theorem Indexed.existsUnique_of_mem (h : s.Indexed) {d : Diagnostic} {id : NodeId}
    (mem : d ∈ s.toList) (node : d.node? = some id) : ∃! id, d ∈ s.forNode id := by
  have there (i : NodeId) : d ∈ s.forNode i ↔ i = id := by
    rw [h.forNode, List.mem_filter, decide_eq_true_eq, node, Option.some_inj]
    exact ⟨fun found => found.2.symm, fun same => ⟨mem, same.symm⟩⟩
  exact ⟨id, (there id).2 rfl, fun i found => (there i).1 found⟩

/-- There is an error exactly if one is counted. -/
theorem hasErrors_iff_count : s.hasErrors = true ↔ 0 < s.count .error := by
  have some : 0 < s.count .error ↔ ∃ d ∈ s.toList, d.severity = .error := by
    unfold count
    simp only [List.countP_pos_iff, beq_iff_eq]
  rw [some, ← not_iff_not, Bool.not_eq_true, hasErrors_eq_false_iff]
  simp

/-! ## Runs -/

/-- What a store tells after the findings `found` at nodes, in this order. -/
structure Records (s : DiagnosticStore) (found : List (Node × Diagnostic)) : Prop where
  /-- Nothing is moved, dropped or put together, and each finding is at its node. -/
  toList : s.toList = found.map fun e => { e.2 with location := some e.1.location }
  size : s.size = found.length
  placed : s.Placed
  forNode : ∀ id, s.forNode id = s.toList.filter (·.node? = some id)
  owner : ∀ d ∈ s.toList, ∃! id, d ∈ s.forNode id
  /-- Node by node all findings are there, as often as in the list. -/
  perm : ∀ ids : List NodeId, ids.Nodup → (∀ e ∈ found, e.1.id ∈ ids) →
    (ids.flatMap s.forNode).Perm s.toList
  sum_length : ∀ ids : List NodeId, ids.Nodup → (∀ e ∈ found, e.1.id ∈ ids) →
    (ids.map fun id => (s.forNode id).length).sum = s.size
  hasErrors_iff_count : s.hasErrors = true ↔ 0 < s.count .error
  count_iff_maxSeverity? : 0 < s.count .error ↔ s.maxSeverity? = some .error

theorem node?_of_mem_pushAll {found : List (Node × Diagnostic)} {d : Diagnostic}
    (h : d ∈ (empty.pushAll found).toList) : ∃ e ∈ found, d.node? = some e.1.id := by
  rw [toList_pushAll] at h
  obtain ⟨e, he, rfl⟩ := List.mem_map.1 h
  exact ⟨e, he, rfl⟩

/-- A store that began empty records every run. -/
theorem records_pushAll (found : List (Node × Diagnostic)) :
    (empty.pushAll found).Records found := by
  have list : (empty.pushAll found).toList =
      found.map fun e => { e.2 with location := some e.1.location } := toList_pushAll empty found
  have size : (empty.pushAll found).size = found.length := by
    show (empty.pushAll found).toList.length = found.length
    rw [list, List.length_map]
  have indexed : (empty.pushAll found).Indexed := indexed_empty.pushAll found
  have whole (ids : List NodeId) (distinct : ids.Nodup) (covered : ∀ e ∈ found, e.1.id ∈ ids) :
      (ids.flatMap (empty.pushAll found).forNode).Perm (empty.pushAll found).toList := by
    apply indexed.perm_flatMap_forNode distinct
    intro d hd
    obtain ⟨e, he, node⟩ := node?_of_mem_pushAll hd
    exact ⟨e.1.id, covered e he, node⟩
  refine ⟨list, size, placed_empty.pushAll found, indexed.forNode, ?_, whole, ?_,
    hasErrors_iff_count, ?_⟩
  · intro d hd
    obtain ⟨e, -, node⟩ := node?_of_mem_pushAll hd
    exact indexed.existsUnique_of_mem hd node
  · intro ids distinct covered
    rw [← List.length_flatMap, (whole ids distinct covered).length_eq]
    rfl
  · rw [← hasErrors_iff_count, hasErrors, beq_iff_eq]

end DiagnosticStore

end BlockGraph

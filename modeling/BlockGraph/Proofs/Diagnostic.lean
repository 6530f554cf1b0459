import BlockGraph.Diagnostic.Store
import BlockGraph.Proofs.SortedMap
import Mathlib.Data.List.Perm.Basic

/-!
# The findings of one run

A store lists its findings in order and keeps the places of those about a node beside it.

* `DiagnosticStore.pushAll`: findings at nodes, one after the other.
* `DiagnosticStore.Indexed`: the findings about a node are those of the list that are at it.
* `perm_flatMap_filter`: findings that are looked up place by place are all there.
* `Severity.max?_eq_some_iff`: the highest severity.
-/

namespace BlockGraph

/-! ## Severities -/

namespace Severity

theorem rank_injective {s t : Severity} (h : s.rank = t.rank) : s = t := by
  cases s <;> cases t <;> first | rfl | cases h

theorem max_cases (s t : Severity) :
    max s t = t ∧ s.rank ≤ t.rank ∨ max s t = s ∧ t.rank ≤ s.rank := by
  unfold max
  split
  · exact .inl ⟨rfl, by omega⟩
  · exact .inr ⟨rfl, by omega⟩

theorem foldl_max (rest : List Severity) (s : Severity) :
    rest.foldl max s ∈ s :: rest ∧ ∀ t ∈ s :: rest, t.rank ≤ (rest.foldl max s).rank := by
  induction rest generalizing s with
  | nil => simp
  | cons t rest ih =>
    obtain ⟨mem, above⟩ := ih (max s t)
    rw [List.foldl_cons]
    generalize rest.foldl max (max s t) = top at mem above ⊢
    simp only [List.mem_cons, forall_eq_or_imp] at mem above ⊢
    rcases max_cases s t with ⟨same, le⟩ | ⟨same, le⟩ <;> rw [same] at mem above
    · exact ⟨.inr mem, by omega, above⟩
    · exact ⟨mem.imp_right .inr, above.1, by omega, above.2⟩

/-- The highest severity is one that no other exceeds. -/
theorem max?_eq_some_iff {l : List Severity} {s : Severity} :
    max? l = some s ↔ s ∈ l ∧ ∀ t ∈ l, t.rank ≤ s.rank := by
  cases l with
  | nil => simp [max?]
  | cons t rest =>
    obtain ⟨mem, above⟩ := foldl_max rest t
    rw [max?, Option.some_inj]
    constructor
    · rintro rfl
      exact ⟨mem, above⟩
    · intro h
      exact rank_injective (Nat.le_antisymm (h.2 _ mem) (above s h.1))

/-- The order of findings does not matter for the highest severity. -/
theorem max?_eq_of_perm {l m : List Severity} (h : l.Perm m) : max? l = max? m := by
  refine Option.ext fun s => ?_
  simp only [max?_eq_some_iff, h.mem_iff]

end Severity

theorem DiagnosticStore.hasErrors_eq_false_iff {s : DiagnosticStore} :
    s.hasErrors = false ↔ ∀ d ∈ s.toList, d.severity ≠ .error := by
  have highest (t : Severity) : t.rank ≤ Severity.error.rank := by cases t <;> decide
  have errors : s.hasErrors = true ↔ ∃ d ∈ s.toList, d.severity = .error := by
    rw [hasErrors, beq_iff_eq, maxSeverity?, Diagnostic.maxSeverity?, Severity.max?_eq_some_iff]
    simp [highest]
  rw [← Bool.not_eq_true, errors]
  simp

/-! ## Places -/

/-- The node that a finding is at. -/
def Diagnostic.node? (d : Diagnostic) : Option NodeId := d.location.map (·.node)

/-- What is looked up place by place is everything, if everything is at one of the places. -/
theorem perm_flatMap_filter {α κ : Type} [DecidableEq κ] {key : α → Option κ} {places : List κ}
    (distinct : places.Nodup) {l : List α} (covered : ∀ a ∈ l, ∃ i ∈ places, key a = some i) :
    (places.flatMap fun i => l.filter (key · = some i)).Perm l := by
  induction places generalizing l with
  | nil =>
    have none : l = [] := List.eq_nil_iff_forall_not_mem.2 fun a ha => by
      obtain ⟨_, mem, -⟩ := covered a ha
      cases mem
    simp [none]
  | cons i places ih =>
    rw [List.nodup_cons] at distinct
    -- the findings at other places are those that remain when the ones at `i` are taken out
    have others : (places.flatMap fun j => l.filter (key · = some j)) =
        places.flatMap fun j => (l.filter (key · ≠ some i)).filter (key · = some j) := by
      refine List.flatMap_congr fun j hj => ?_
      have differ : j ≠ i := fun same => distinct.1 (same ▸ hj)
      rw [List.filter_filter]
      refine List.filter_congr fun a _ => ?_
      by_cases here : key a = some j
      · simp [here, differ]
      · simp [here]
    rw [List.flatMap_cons, others]
    have split := List.filter_append_perm (key · = some i) l
    simp only [← decide_not] at split
    refine ((ih distinct.2 fun a ha => ?_).append_left _).trans split
    rw [List.mem_filter, decide_eq_true_eq] at ha
    obtain ⟨j, hj, found⟩ := covered a ha.1
    rcases List.mem_cons.1 hj with rfl | hj
    · exact absurd found ha.2
    · exact ⟨j, hj, found⟩

namespace DiagnosticStore

variable {s : DiagnosticStore}

/-- Findings at nodes, one after the other. -/
def pushAll (s : DiagnosticStore) (found : List (Node × Diagnostic)) : DiagnosticStore :=
  found.foldl (fun s e => s.push e.1 e.2) s

theorem toList_pushAll (s : DiagnosticStore) (found : List (Node × Diagnostic)) :
    (s.pushAll found).toList =
      s.toList ++ found.map fun e => { e.2 with location := some e.1.location } := by
  unfold pushAll
  induction found generalizing s with
  | nil => simp
  | cons e found ih => rw [List.foldl_cons, ih, toList_push, List.append_assoc]; rfl

theorem pushAll_append (s : DiagnosticStore) (found others : List (Node × Diagnostic)) :
    s.pushAll (found ++ others) = (s.pushAll found).pushAll others := List.foldl_append

theorem subset_pushAll (s : DiagnosticStore) (found : List (Node × Diagnostic)) :
    s.toList ⊆ (s.pushAll found).toList := by
  rw [toList_pushAll]
  exact List.subset_append_left _ _

/-- The findings about a node are those of the list that are at it, in the same order. -/
structure Indexed (s : DiagnosticStore) : Prop where
  inRange : ∀ id, ∀ i ∈ (s.places.get? id).getD [], i < s.entries.size
  forNode : ∀ id, s.forNode id = s.toList.filter (·.node? = some id)

theorem indexed_empty : Indexed {} where
  inRange id i mem := by cases mem
  forNode id := rfl

theorem Indexed.push (h : s.Indexed) (n : Node) (d : Diagnostic) : (s.push n d).Indexed where
  inRange id i mem := by
    have old := h.inRange id i
    simp only [DiagnosticStore.push, SortedMap.get?_insert, Array.size_push] at mem ⊢
    split at mem
    · next same =>
      subst same
      rcases List.mem_append.1 mem with mem | mem
      · exact Nat.lt_succ_of_lt (old mem)
      · rw [List.mem_singleton.1 mem]
        exact Nat.lt_succ_self _
    · exact Nat.lt_succ_of_lt (old mem)
  forNode id := by
    -- a new finding moves none of the old ones
    have old : (((s.places.get? id).getD []).filterMap ((s.push n d).entries[·]?)) =
        s.forNode id := by
      refine List.filterMap_congr fun i hi => ?_
      have lt := h.inRange id i hi
      exact (Array.getElem?_push_lt lt).trans (Array.getElem?_eq_getElem lt).symm
    rw [toList_push, List.filter_append, ← h.forNode id, ← old]
    unfold DiagnosticStore.forNode
    by_cases same : id = n.id
    · subst same
      simp [DiagnosticStore.push, SortedMap.get?_insert, Diagnostic.node?, Node.location]
    · simp [DiagnosticStore.push, SortedMap.get?_insert, Diagnostic.node?, Node.location, same,
        Ne.symm same]

theorem Indexed.pushAll (h : s.Indexed) (found : List (Node × Diagnostic)) :
    (s.pushAll found).Indexed := by
  unfold DiagnosticStore.pushAll
  induction found generalizing s with
  | nil => exact h
  | cons e found ih => exact ih (h.push e.1 e.2)

/-- The findings about different nodes, put together, are all findings about these nodes. -/
theorem Indexed.perm_flatMap_forNode (h : s.Indexed) {ids : List NodeId} (distinct : ids.Nodup)
    (covered : ∀ d ∈ s.toList, ∃ id ∈ ids, d.node? = some id) :
    (ids.flatMap s.forNode).Perm s.toList := by
  rw [List.flatMap_congr fun id _ => h.forNode id]
  exact perm_flatMap_filter distinct covered

end DiagnosticStore

end BlockGraph

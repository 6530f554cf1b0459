import BlockGraph.Proofs.Mapping.Identity
import Mathlib.Data.List.Lattice
import Mathlib.Data.List.Pairwise

/-!
# Own bodies

A method and a loop over a variable keep one chain to themselves: what is declared in it is not seen
outside. In a tree without repeated ids a node has one place, so it is clear which of these chains
it is in.

* `Node.ownBody?`, `Node.Encloses`: the chain that a node keeps to itself, and what is in it.
* `Node.eq_of_mem_ids`, `Node.id_notMem_ids`: the subtrees of the children of a node are apart from
  each other and from the node.
* `Node.id_notMem_ids_ownBody`: a node is not in the own body of one below it.
-/

namespace BlockGraph

namespace Phrase

variable {α β : Type}

/-- The chain that a method or a loop over a variable keeps to itself. -/
def ownBody? : Phrase α → Option α
  | forLoop _ _ _ _ body | methodDef _ body => some body
  | _ => none

theorem ownBody?_map (f : α → β) (p : Phrase α) : (p.map f).ownBody? = p.ownBody?.map f := by
  cases p <;> rfl

theorem mem_children_of_ownBody? {p : Phrase α} {body : α} (own : p.ownBody? = some body) :
    body ∈ p.children := by
  cases p with
  | forLoop | methodDef =>
    obtain rfl := Option.some.inj own
    simp [children, slots, SlotValue.nodes]
  | _ => cases own

theorem kind_ne_of_ownBody? {p : Phrase α} {body : α} (own : p.ownBody? = some body) :
    p.kind ≠ .stmtList := by
  cases p with
  | forLoop | methodDef => exact Kind.noConfusion
  | _ => cases own

end Phrase

/-- The phrase of a method or a loop over a variable, with another chain that it keeps to itself. -/
def Phrase.withBody {α : Type} (body : α) : Phrase α → Phrase α
  | .forLoop var start stop step _ => .forLoop var start stop step body
  | .methodDef name _ => .methodDef name body
  | p => p

/-- What occurs once in a list of lists occurs in one of them. -/
theorem eq_of_nodup_flatMap {α β : Type} {l : List α} {f : α → List β}
    (distinct : (l.flatMap f).Nodup) {a b : α} (ha : a ∈ l) (hb : b ∈ l) {i : β} (left : i ∈ f a)
    (right : i ∈ f b) : a = b := by
  have : Std.Symm (Function.onFun List.Disjoint f) := ⟨fun _ _ apart => List.Disjoint.symm apart⟩
  by_contra differ
  exact (List.nodup_flatMap.1 distinct).2.forall ha hb differ left right

namespace Node

/-- The chain that a method or a loop over a variable keeps to itself. -/
def ownBody? (n : Node) : Option Node := n.phrase.ownBody?

/-- Whether `n` is in the chain that `m` keeps to itself. -/
def Encloses (m n : Node) : Prop := ∃ body, m.ownBody? = some body ∧ n ∈ body.walk

/-! ## Places -/

theorem mem_walk_iff {m n : Node} : m ∈ n.walk ↔ m = n ∨ ∃ c ∈ n.children, m ∈ c.walk := by
  rw [walk_eq, List.mem_cons, List.mem_flatMap]

theorem id_mem_ids {m n : Node} (mem : m ∈ n.walk) : m.id ∈ n.ids := List.mem_map_of_mem mem

theorem ids_subset {m n : Node} (mem : m ∈ n.walk) : m.ids ⊆ n.ids :=
  List.map_subset _ (walk_subset mem)

theorem mem_walk_of_mem_children {c n : Node} (child : c ∈ n.children) : c ∈ n.walk :=
  mem_walk_iff.2 (.inr ⟨c, child, c.mem_walk_self⟩)

section Distinct

variable {n : Node} (distinct : n.ids.Nodup)

include distinct

theorem nodup_ids_of_mem_children {c : Node} (child : c ∈ n.children) : c.ids.Nodup := by
  rw [ids_eq, List.nodup_cons, List.nodup_flatMap] at distinct
  exact distinct.2.1 c child

/-- A node is not below itself. -/
theorem id_notMem_ids {c : Node} (child : c ∈ n.children) : n.id ∉ c.ids := by
  rw [ids_eq, List.nodup_cons] at distinct
  exact fun mem => distinct.1 (List.mem_flatMap.2 ⟨c, child, mem⟩)

/-- What is below two children of a node is below one. -/
theorem eq_of_mem_ids {c d : Node} (left : c ∈ n.children) (right : d ∈ n.children) {i : NodeId}
    (hc : i ∈ c.ids) (hd : i ∈ d.ids) : c = d := by
  rw [ids_eq, List.nodup_cons] at distinct
  exact eq_of_nodup_flatMap distinct.2 left right hc hd

/-- A node is not in the own body of a node below it, nor in its own. -/
theorem id_notMem_ids_ownBody {m body : Node} (mem : m ∈ n.walk) (own : m.ownBody? = some body) :
    n.id ∉ body.ids := by
  have child := Phrase.mem_children_of_ownBody? own
  rcases mem_walk_iff.1 mem with rfl | ⟨c, hc, below⟩
  · exact id_notMem_ids distinct child
  · have inside := walk_subset below (mem_walk_of_mem_children child)
    exact fun here => id_notMem_ids distinct hc (ids_subset inside here)

/-- The operands of a node are apart from its own body. -/
theorem notMem_ids_ownBody_of_operand {body c : Node} (own : n.ownBody? = some body)
    (operand : c ∈ n.phrase.operands) {i : NodeId} (mem : i ∈ c.ids) : i ∉ body.ids := by
  obtain ⟨h, p⟩ := n
  rw [ids_eq, List.nodup_cons] at distinct
  replace distinct : (p.children.flatMap ids).Nodup := distinct.2
  cases p with
  | forLoop var start stop step chain =>
    obtain rfl := Option.some.inj own
    have apart : ([start, stop, step].flatMap ids ++ chain.ids).Nodup := by
      simpa [Phrase.children, Phrase.slots, SlotValue.nodes] using distinct
    exact fun here => List.disjoint_of_nodup_append apart
      (List.mem_flatMap.2 ⟨c, operand, mem⟩) here
  | methodDef => cases operand
  | _ => cases own

end Distinct

end Node

end BlockGraph

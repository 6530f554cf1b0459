import BlockGraph.Decimal.Shortest

/-!
# JSON values

A value keeps the members of its objects as they were written: repeated names and their order are
for the consumer to judge.
-/

namespace BlockGraph

/-- A JSON value. Whole numbers of at most 64 bits are kept exactly. -/
inductive Json where
  | null
  | bool (value : Bool)
  | int (value : Int)
  | float (value : Float)
  | str (text : String)
  | arr (items : List Json)
  | obj (members : List (String × Json))
  deriving Inhabited

namespace Json

def children : Json → List Json
  | arr items => items
  | obj members => members.map (·.2)
  | _ => []

theorem sizeOf_lt_of_mem_children {c j : Json} (h : c ∈ j.children) : sizeOf c < sizeOf j := by
  cases j with
  | arr items =>
    have := List.sizeOf_lt_of_mem (show c ∈ items from h)
    simp only [arr.sizeOf_spec]
    omega
  | obj members =>
    obtain ⟨⟨name, value⟩, mem, rfl⟩ := List.mem_map.1 h
    have := List.sizeOf_lt_of_mem mem
    simp only [obj.sizeOf_spec, Prod.mk.sizeOf_spec] at this ⊢
    omega
  | _ => simp [children] at h

end Json

end BlockGraph

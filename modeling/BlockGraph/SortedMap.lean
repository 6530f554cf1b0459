/-!
# Sorted maps

Association lists whose keys strictly ascend. The invariant is part of the type, so two maps with
the same entries are equal and the order of a traversal is the order of the keys.

* `SortedMap.get?_insert_self`, `SortedMap.get?_insert_of_ne`: what an insertion does to the
  lookup.
* `SortedMap.keys_pairwise`: the keys ascend.
-/

namespace BlockGraph

/-- A finite map, kept as entries with strictly ascending keys. -/
structure SortedMap (κ : Type) (α : Type) [Ord κ] where
  entries : List (κ × α)
  ascending : entries.Pairwise (fun a b => compare a.1 b.1 = .lt)
  deriving DecidableEq

namespace SortedMap

variable {κ α β : Type} [Ord κ]

/-! ## Insertion into the entry list -/

/-- Puts `v` under `k`, replacing what was there. -/
def insertEntry (k : κ) (v : α) : List (κ × α) → List (κ × α)
  | [] => [(k, v)]
  | (k', v') :: rest =>
    match compare k k' with
    | .lt => (k, v) :: (k', v') :: rest
    | .eq => (k, v) :: rest
    | .gt => (k', v') :: insertEntry k v rest

theorem mem_insertEntry {k : κ} {v : α} {e : κ × α} {l : List (κ × α)}
    (h : e ∈ insertEntry k v l) : e = (k, v) ∨ e ∈ l := by
  induction l with
  | nil => simpa [insertEntry] using h
  | cons hd tl ih =>
    obtain ⟨k', v'⟩ := hd
    rw [insertEntry] at h
    split at h
    · simpa using h
    · simp only [List.mem_cons] at h ⊢
      exact h.elim .inl (fun m => .inr (.inr m))
    · simp only [List.mem_cons] at h ⊢
      exact h.elim (fun e => .inr (.inl e)) fun m => (ih m).elim .inl (fun m => .inr (.inr m))

theorem insertEntry_ascending [Std.TransOrd κ] [Std.LawfulEqOrd κ] (k : κ) (v : α)
    {l : List (κ × α)} (h : l.Pairwise (fun a b => compare a.1 b.1 = .lt)) :
    (insertEntry k v l).Pairwise (fun a b => compare a.1 b.1 = .lt) := by
  induction l with
  | nil => simp [insertEntry]
  | cons hd tl ih =>
    obtain ⟨k', v'⟩ := hd
    rw [insertEntry]
    have above : ∀ a ∈ tl, compare k' a.1 = .lt := fun a ha => List.rel_of_pairwise_cons h ha
    split
    · next hlt =>
      refine h.cons fun a ha => ?_
      rcases List.mem_cons.1 ha with rfl | ha
      · exact hlt
      · exact Std.TransCmp.lt_trans hlt (above a ha)
    · next heq =>
      obtain rfl := Std.LawfulEqCmp.eq_of_compare heq
      exact h.of_cons.cons fun a ha => above a ha
    · next hgt =>
      refine (ih h.of_cons).cons fun a ha => ?_
      rcases mem_insertEntry ha with rfl | ha
      · exact Std.OrientedCmp.lt_of_gt hgt
      · exact above a ha

/-! ## Operations -/

def empty : SortedMap κ α := ⟨[], .nil⟩

instance : Inhabited (SortedMap κ α) := ⟨empty⟩

/-- The value under `k`. -/
def get? (m : SortedMap κ α) (k : κ) : Option α :=
  (m.entries.find? (fun e => compare k e.1 == .eq)).map (·.2)

/-- Whether `k` has a value. -/
def contains (m : SortedMap κ α) (k : κ) : Bool := (m.get? k).isSome

/-- Puts `v` under `k`, replacing what was there. -/
def insert [Std.TransOrd κ] [Std.LawfulEqOrd κ] (m : SortedMap κ α) (k : κ) (v : α) :
    SortedMap κ α :=
  ⟨insertEntry k v m.entries, insertEntry_ascending k v m.ascending⟩

/-- Removes the value under `k`. -/
def erase (m : SortedMap κ α) (k : κ) : SortedMap κ α :=
  ⟨m.entries.filter (fun e => compare k e.1 != .eq), m.ascending.filter _⟩

/-- Keeps the entries whose key satisfies `p`. -/
def filterKeys (p : κ → Bool) (m : SortedMap κ α) : SortedMap κ α :=
  ⟨m.entries.filter (fun e => p e.1), m.ascending.filter _⟩

/-- Reads pairs from left to right; a later pair replaces an earlier one of the same key. -/
def ofList [Std.TransOrd κ] [Std.LawfulEqOrd κ] (l : List (κ × α)) : SortedMap κ α :=
  l.foldl (fun m e => m.insert e.1 e.2) empty

/-- The keys, ascending. -/
def keys (m : SortedMap κ α) : List κ := m.entries.map (·.1)

/-- The values, in the order of their keys. -/
def values (m : SortedMap κ α) : List α := m.entries.map (·.2)

def size (m : SortedMap κ α) : Nat := m.entries.length

def isEmpty (m : SortedMap κ α) : Bool := m.entries.isEmpty

/-! ## Laws -/

@[simp] theorem entries_empty : (empty : SortedMap κ α).entries = [] := rfl

@[simp] theorem get?_empty (k : κ) : (empty : SortedMap κ α).get? k = none := rfl

theorem ext_entries {m m' : SortedMap κ α} (h : m.entries = m'.entries) : m = m' := by
  cases m; cases m'; cases h; rfl

theorem keys_pairwise (m : SortedMap κ α) : m.keys.Pairwise (fun a b => compare a b = .lt) :=
  m.ascending.map _ fun _ _ h => h

theorem get?_insert_self [Std.TransOrd κ] [Std.LawfulEqOrd κ] (m : SortedMap κ α) (k : κ) (v : α) :
    (m.insert k v).get? k = some v := by
  suffices ∀ l : List (κ × α),
      (insertEntry k v l).find? (fun e => compare k e.1 == .eq) = some (k, v) by
    simp [get?, insert, this]
  intro l
  induction l with
  | nil => simp [insertEntry]
  | cons hd tl ih =>
    obtain ⟨k', v'⟩ := hd
    rw [insertEntry]
    split
    · simp
    · simp
    · next h => simp [h, ih]

theorem get?_insert_of_ne [Std.TransOrd κ] [Std.LawfulEqOrd κ] (m : SortedMap κ α) {k k' : κ}
    (v : α) (h : k' ≠ k) : (m.insert k v).get? k' = m.get? k' := by
  have hk : compare k' k ≠ .eq := fun e => h (Std.LawfulEqCmp.eq_of_compare e)
  suffices ∀ l : List (κ × α), (insertEntry k v l).find? (fun e => compare k' e.1 == .eq) =
      l.find? (fun e => compare k' e.1 == .eq) by
    simp [get?, insert, this]
  intro l
  induction l with
  | nil => simp [insertEntry, hk]
  | cons hd tl ih =>
    obtain ⟨k₀, v₀⟩ := hd
    rw [insertEntry]
    split
    · simp [hk]
    · next e =>
      obtain rfl := Std.LawfulEqCmp.eq_of_compare e
      simp [hk]
    · simp [List.find?_cons, ih]

theorem mem_entries_ofList [Std.TransOrd κ] [Std.LawfulEqOrd κ] {e : κ × α} {l : List (κ × α)}
    (h : e ∈ (ofList l).entries) : e ∈ l := by
  suffices ∀ (l : List (κ × α)) (m : SortedMap κ α),
      e ∈ (l.foldl (fun m e => m.insert e.1 e.2) m).entries → e ∈ l ∨ e ∈ m.entries by
    exact (this l empty h).elim id fun h => by simp at h
  intro l
  induction l with
  | nil => exact fun m h => .inr h
  | cons hd tl ih =>
    intro m h
    rcases ih _ h with h | h
    · exact .inl (List.mem_cons_of_mem _ h)
    · rcases mem_insertEntry h with rfl | h
      · exact .inl List.mem_cons_self
      · exact .inr h

end SortedMap

/-- A finite set of keys, kept in ascending order. -/
abbrev SortedSet (κ : Type) [Ord κ] := SortedMap κ Unit

namespace SortedSet

variable {κ : Type} [Ord κ]

/-- Adds `k`. -/
def add [Std.TransOrd κ] [Std.LawfulEqOrd κ] (s : SortedSet κ) (k : κ) : SortedSet κ :=
  SortedMap.insert s k ()

/-- The members, ascending. -/
def toList (s : SortedSet κ) : List κ := SortedMap.keys s

/-- The set of the members of `l`. -/
def ofMembers [Std.TransOrd κ] [Std.LawfulEqOrd κ] (l : List κ) : SortedSet κ :=
  l.foldl SortedSet.add SortedMap.empty

end SortedSet

end BlockGraph

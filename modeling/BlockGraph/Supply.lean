import BlockGraph.Error

/-!
# Fresh identities

Every node gets an id that no node had before, and every deep copy an edition of its own. Ids and
editions are numbered apart, so that copies use up no ids. Numbers are handed out in ascending order
and are used up also by operations that fail.
-/

namespace BlockGraph

/-- The next numbers, which were never handed out. -/
structure Supply where
  /-- For the id of a node. -/
  next : Nat := 1
  /-- For an edition. Zero is never handed out. -/
  nextEdition : Nat := 1
  deriving DecidableEq, Repr

namespace Supply

/-- What is left when the number of an id was handed out. -/
def afterNumber (s : Supply) : Supply := { s with next := s.next + 1 }

/-- What is left when an edition was handed out. -/
def afterEdition (s : Supply) : Supply := { s with nextEdition := s.nextEdition + 1 }

@[simp] theorem next_afterNumber (s : Supply) : s.afterNumber.next = s.next + 1 := rfl

@[simp] theorem next_afterEdition (s : Supply) : s.afterEdition.next = s.next := rfl

end Supply

abbrev Fresh := StateM Supply

/-- A computation that makes nodes and may fail. What it used up stays used up. -/
abbrev Make := ExceptT Error Fresh

def freshNumber : Fresh Nat := fun s => (s.next, s.afterNumber)

def freshEdition : Fresh Nat := fun s => (s.nextEdition, s.afterEdition)

/-- A result as a computation that uses nothing up. -/
def Make.ofExcept {α : Type} (e : Except Error α) : Make α := fun s => (e, s)

end BlockGraph

import BlockGraph.Error

/-!
# Numbered slots

A family of slots has members `NAME0`, `NAME1` and so on. How many there are is declared by the
block or else follows from the highest number; only so many of them may be absent.

* `numbered?`: the number of a member, written without needless zeros.
* `takeNumbered`: splits a family off the slots of a block.
* `repeatCount`: how many members there are.
-/

namespace BlockGraph.Mapping

def maxCount : Nat := 0xffffffffffffffff

def maxAbsent : Nat := 64

/-- The number that decimal digits spell, if it is not too large. -/
def countOf? (ds : List Char) : Option Nat :=
  if ds.isEmpty || !ds.all Char.isDigit then none
  else
    let n := Decimal.ofDigits ds
    if n ≤ maxCount then some n else none

/-- A declared count: digits, with or without a plus. -/
def readCount? (text : String) : Option Nat :=
  match text.toList with
  | '+' :: ds => countOf? ds
  | ds => countOf? ds

/-- What follows the family's name in the name of a slot. -/
def suffix? (family name : String) : Option (List Char) :=
  if family.toList.isPrefixOf name.toList then some (name.toList.drop family.length) else none

/-- Whether a name is that of the family followed by digits. -/
def isNumbered (family name : String) : Bool :=
  match suffix? family name with
  | some ds => !ds.isEmpty && ds.all Char.isDigit
  | none => false

/-- The number of a member of the family. A number has no zero in front. -/
def numbered? (family name : String) : Option Nat :=
  match suffix? family name with
  | some ('0' :: _ :: _) => none
  | some ds => countOf? ds
  | none => none

/-- Splits the members of a family off `slots`: the members under their numbers, and the rest. -/
def takeNumbered {α : Type} (blockId family : String) (slots : SortedMap String α) :
    Except Error (SortedMap Nat α × SortedMap String α) := do
  let found ← (slots.filterKeys (isNumbered family)).entries.foldlM (fun found e =>
    match numbered? family e.1 with
    | none => throw (.malformed blockId (.badNumber e.1 family))
    | some n =>
      if found.contains n then throw (.malformed blockId (.numberTwice family n))
      else pure (found.insert n e.2)) (SortedMap.empty : SortedMap Nat α)
  return (found, slots.filterKeys (!isNumbered family ·))

/-- How many members a family has: as many as declared, and otherwise one more than its highest
number says. After the largest number of all there is no next one, and no block has nearly as many
slots as that. -/
def repeatCount {α : Type} (blockId family : String) (declared : Option Nat)
    (found : SortedMap Nat α) : Except Error Nat := do
  let highest := found.keys.getLast?
  let count ←
    match declared, highest with
    | some count, some top =>
      if count ≤ top then throw (.malformed blockId (.beyondCount family top count))
      else pure count
    | some count, none => pure count
    | none, some top =>
      if top < maxCount then pure (top + 1)
      else throw (.malformed blockId (.tooFewPresent family maxCount found.size))
    | none, none => pure 0
  if maxAbsent < count - found.size then
    throw (.malformed blockId (.tooFewPresent family count found.size))
  return count

/-- The number of branches that a block declares: one more than its entry says. Only conditional
blocks declare one. -/
def declaredCount (kind : Kind) (blockId : String) (mutation : SortedMap String String) :
    Except Error (Option Nat) :=
  if kind = .ifElse then
    match mutation.get? "elseif" with
    | none => .ok (some 1)
    | some text =>
      match readCount? text with
      | some n =>
        if n < maxCount then .ok (some (n + 1))
        else .error (.malformed blockId (.badBranchCount text))
      | none => .error (.malformed blockId (.badBranchCount text))
  else .ok none

end BlockGraph.Mapping

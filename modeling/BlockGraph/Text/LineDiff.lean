/-!
# Line differences

Two texts are compared line by line: a table of common subsequence lengths is filled row by row,
a common subsequence is read off from its last cell, and the lines between its members become
additions and removals.

* `LineDiff.Changes`: the edits with their number of added and removed lines.
-/

namespace BlockGraph.Text.LineDiff

/-! ## Lines -/

def splitLines : List Char → List (List Char)
  | [] => [[]]
  | c :: cs =>
    match splitLines cs with
    | [] => [[c]]
    | line :: lines => if c = '\n' then [] :: line :: lines else (c :: line) :: lines

/-- The lines of a text; the empty text has none. -/
def lines (text : String) : List String :=
  if text.isEmpty then [] else (splitLines text.toList).map String.ofList

def unlines (ls : List String) : String := "\n".intercalate ls

/-! ## The table -/

/-- Continues a row of the table: each cell is one more than its diagonal neighbour where the
lines agree, and otherwise the larger of its left and upper neighbours. -/
def rowFrom (line : String) : (diagonal left : Nat) → List (String × Nat) → List Nat
  | _, _, [] => []
  | diagonal, left, (other, up) :: rest =>
    let cell := if other = line then diagonal + 1 else max left up
    cell :: rowFrom line up cell rest

/-- The rows for the lines of the left text, each computed from the one above it. -/
def rowsFrom (right : List String) : (above : List Nat) → (left : List String) → List (List Nat)
  | _, [] => []
  | above, line :: rest =>
    let row := rowFrom line 0 0 (right.zip above)
    row :: rowsFrom right row rest

/-- `table left right` has in row `i` and column `j` the length of a longest common subsequence of
the first `i + 1` and `j + 1` lines. -/
def table (left right : List String) : Array (Array Nat) :=
  ((rowsFrom right (right.map fun _ => 0) left).map List.toArray).toArray

/-- The cell in row `i` and column `j`. -/
def cell (t : Array (Array Nat)) (i j : Nat) : Nat := (t.getD i #[]).getD j 0

/-- The cell before the one in row `i` and column `j`, rows following each other: before the first
cell of a row comes the last cell of the row above. -/
def cellBefore (t : Array (Array Nat)) (width i : Nat) : (j : Nat) → Nat
  | 0 => cell t (i - 1) (width - 1)
  | j + 1 => cell t i j

/-! ## Common lines -/

/-- Collects common lines from the last cell of the table backwards. `i` and `j` count the lines
that are left of either text. -/
def backtrack (t : Array (Array Nat)) (left right : Array String) :
    (i j : Nat) → List String → List String
  | 0, _, common => common
  | _, 0, common => common
  | i + 1, j + 1, common =>
    let line := left.getD i ""
    if line = right.getD j "" then backtrack t left right i j (line :: common)
    else if i = 0 ∧ j = 0 then common
    else if i = 0 ∨ cell t (i - 1) j < cellBefore t right.size i j then
      backtrack t left right (i + 1) j common
    else backtrack t left right i (j + 1) common
termination_by i j => i + j

def common (left right : List String) : List String :=
  backtrack (table left right) left.toArray right.toArray left.length right.length []

/-! ## Edits -/

/-- A run of lines that both texts have, that only the right one has, or only the left one. -/
inductive Edit where
  | same (text : String)
  | add (text : String)
  | rem (text : String)
  deriving DecidableEq, Repr

/-- The longest common beginning of three lists of lines. -/
def sameRun : List String → List String → List String → List String
  | x :: left, y :: right, z :: shared =>
    if x = z ∧ y = z then x :: sameRun left right shared else []
  | _, _, _ => []

def runBefore (shared lines : List String) : List String :=
  lines.takeWhile fun line => some line ≠ shared.head?

/-- A run as an edit; an empty run is none. -/
def editOf (edit : String → Edit) : List String → List Edit
  | [] => []
  | run => [edit (unlines run)]

/-- Turns two texts and the lines they share into runs: shared lines, then lines of the left text,
then lines of the right one, as long as a round consumes anything. -/
def merge (left right shared : List String) : List Edit :=
  let kept := sameRun left right shared
  let shared' := shared.drop kept.length
  let removed := runBefore shared' (left.drop kept.length)
  let added := runBefore shared' (right.drop kept.length)
  let left' := left.drop (kept.length + removed.length)
  let right' := right.drop (kept.length + added.length)
  if _shorter : left'.length + right'.length < left.length + right.length then
    editOf .same kept ++ editOf .rem removed ++ editOf .add added ++ merge left' right' shared'
  else []
termination_by left.length + right.length
decreasing_by exact _shorter

/-- The edits from one text to another, and how many lines they add or remove. -/
structure Changes where
  distance : Nat
  edits : List Edit
  deriving DecidableEq, Repr

def compareTexts (left right : String) : Changes :=
  let l := lines left
  let r := lines right
  let shared := common l r
  ⟨l.length + r.length - 2 * shared.length, merge l r shared⟩

end BlockGraph.Text.LineDiff

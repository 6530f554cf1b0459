import BlockGraph.SortedMap

/-!
# Attributes of blocks

What an editor keeps about a block beside its content. `disabled` and `inTask` decide whether a
block takes part in a program; the rest only has to survive.
-/

namespace BlockGraph

/-- The editor's flags of a block. -/
structure Attributes where
  disabled : Bool := false
  collapsed : Bool := false
  inline : Bool := false
  deletable : Bool := true
  movable : Bool := true
  editable : Bool := true
  /-- Whether the block belongs to a task; unknown if absent. -/
  inTask : Option Bool := none
  /-- Entries that change the shape of a block. -/
  mutation : SortedMap String String := .empty
  deriving DecidableEq

/-- Whether a block takes part in a program: neither disabled nor detached. -/
def Attributes.isActive (a : Attributes) : Bool := !a.disabled && a.inTask != some false

/-- A user's comment on a block. -/
structure Comment where
  text : String
  pinned : Bool := false
  width : Option UInt32 := none
  height : Option UInt32 := none
  deriving DecidableEq

end BlockGraph

import BlockGraph.Spelling

/-!
# Types of expressions
-/

namespace BlockGraph

/-- The type of an expression, as far as a run can tell. -/
inductive ExprType where
  | number
  | boolean
  | string
  /-- A statement, which has no value. -/
  | void
  /-- Missing, reported already, or of a block type that says nothing about it. -/
  | unknown
  deriving DecidableEq, Repr

namespace ExprType

/-- Whether an expression of type `a` may stand where `b` is asked for. -/
def fits (a b : ExprType) : Bool := a == b || a == unknown || b == unknown

def ofDataType : DataType → ExprType
  | .number => number
  | .boolean => boolean
  | .string => string

def name : ExprType → String
  | number => "Number"
  | boolean => "Boolean"
  | string => "String"
  | void => "a statement"
  | unknown => "unknown"

@[simp] theorem fits_self (a : ExprType) : a.fits a := by simp [fits]

@[simp] theorem fits_unknown (a : ExprType) : a.fits unknown := by simp [fits]

@[simp] theorem unknown_fits (a : ExprType) : unknown.fits a := by simp [fits]

end ExprType

end BlockGraph

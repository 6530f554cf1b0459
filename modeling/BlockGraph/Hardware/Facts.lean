import BlockGraph.SortedMap

/-!
# Hardware facts

What a program uses, feature by feature. A fact counts once, however often it is recorded.
-/

namespace BlockGraph

/-! ## Features -/

namespace Feature

def motors : String := "motor"
def sensors : String := "sensor"
def display : String := "display"
def sound : String := "sound"
def variableNames : String := "variable"
def methodNames : String := "method"

end Feature

/-! ## Facts -/

/-- Facts by feature. -/
structure Facts where
  byFeature : SortedMap String (SortedSet String) := .empty
  deriving DecidableEq

namespace Facts

def record (f : Facts) (feature fact : String) : Facts :=
  ⟨f.byFeature.insert feature (((f.byFeature.get? feature).getD .empty).add fact)⟩

/-- The facts of a feature, ascending. -/
def facts (f : Facts) (feature : String) : List String :=
  ((f.byFeature.get? feature).map SortedSet.toList).getD []

def uses (f : Facts) (feature : String) : Bool := !(f.facts feature).isEmpty

/-- The features that have facts, ascending. -/
def features (f : Facts) : List String := f.byFeature.keys

def isEmpty (f : Facts) : Bool := f.byFeature.isEmpty

end Facts

end BlockGraph

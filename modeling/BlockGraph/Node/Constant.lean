import BlockGraph.Decimal.Numeral
import BlockGraph.Node
import BlockGraph.Text.WhiteSpace

/-!
# Constants

The values of nodes that are constants. A number is kept as it was typed, so it may have no value.
-/

namespace BlockGraph

/-- The number that a text spells; white space around it does not matter. -/
def readNumber? (text : String) : Option Float :=
  (Decimal.Numeral.read? (Text.trim text.toList)).map Decimal.Numeral.toFloat

namespace Node

def number? (n : Node) : Option Float :=
  match n.phrase with
  | .numConst text => readNumber? text
  | _ => none

def boolean? (n : Node) : Option Bool :=
  match n.phrase with
  | .boolConst value => some value
  | _ => none

end Node

end BlockGraph

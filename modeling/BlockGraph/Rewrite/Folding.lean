import BlockGraph.Decimal.Shortest
import BlockGraph.Node.Constant
import BlockGraph.Program
import BlockGraph.Rewrite

/-!
# Constant folding

Replaces operators on constants by their results, from the bottom up. A division by zero and a
result that is no finite number stay as they are.

* `Folding.fold?`: what a single operator is replaced by.
* `Node.foldConstants`: folds a tree and counts the operators that it replaced.
-/

namespace BlockGraph

namespace Folding

/-- How a computed number is spelled. Zero has no sign. -/
def spellNumber (x : Float) : String := if x == 0 then "0" else Decimal.shortest x

/-! ## Operators -/

def arith (op : ArithOp) (a b : Float) : Option Float :=
  let finite (x : Float) : Option Float := if x.isFinite then some x else none
  match op with
  | .add => finite (a + b)
  | .minus => finite (a - b)
  | .multiply => finite (a * b)
  | .divide => if b == 0 then none else finite (a / b)
  | .power => finite (a.pow b)

def compareNumbers (op : CompareOp) (a b : Float) : Bool :=
  match op with
  | .eq => a == b
  | .neq => a != b
  | .lt => a < b
  | .lte => a <= b
  | .gt => a > b
  | .gte => a >= b

/-- The result of comparing truth values, which have no order. -/
def compareBooleans (op : CompareOp) (a b : Bool) : Option Bool :=
  match op with
  | .eq => some (a == b)
  | .neq => some (a != b)
  | _ => none

def compareConstants (op : CompareOp) (left right : Node) : Option Bool :=
  match left.number?, right.number? with
  | some a, some b => some (compareNumbers op a b)
  | _, _ =>
    match left.boolean?, right.boolean? with
    | some a, some b => compareBooleans op a b
    | _, _ => none

def logic (op : LogicOp) (a b : Bool) : Bool :=
  match op with
  | .and => a && b
  | .or => a || b

/-- The constant that an operator on constants comes to. -/
def fold? : Phrase Node → Option (Phrase Node)
  | .arithmetic op left right => do
    let x ← arith op (← left.number?) (← right.number?)
    return .numConst (spellNumber x)
  | .compare op left right => return .boolConst (← compareConstants op left right)
  | .logic op left right => return .boolConst (logic op (← left.boolean?) (← right.boolean?))
  | .negate operand => return .boolConst (!(← operand.boolean?))
  | _ => none

/-! ## The pass -/

/-- Folds the children and then the node. The state counts the replaced operators. -/
def handler : RewriteHandler Nat (Except Error Node) := fun n p => ExceptT.run do
  let rebuilt ← n.rebuildChildren p
  match fold? rebuilt.phrase with
  | none => return rebuilt
  | some phrase =>
    modifyThe Nat (· + 1)
    Node.freshly (rebuilt.withPhrase phrase)

end Folding

/-- Folds the constants of a tree and counts the operators replaced on top of those counted
already. -/
def Node.foldConstants (n : Node) : Rewriting Nat Node := n.modify Folding.handler

/-- Folds the constants of all chains of a program. -/
def Program.foldConstants (p : Program) : Rewriting Nat Program := p.mapBodies Node.foldConstants

end BlockGraph

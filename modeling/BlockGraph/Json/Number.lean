import BlockGraph.Json.Value

/-!
# JSON numbers

A number is kept exactly if it is whole, written without point and exponent, and fits 64 bits,
signed or unsigned. Every other number becomes a float: its leading digits, as many as fit 64 bits,
are scaled by a power of ten. A number beyond the range of floats is refused.

* `NumberText.value?`: the value of a number, if it has one.
-/

namespace BlockGraph.Json

/-- The parts of a written number. -/
structure NumberText where
  negative : Bool
  whole : List Char
  fraction : Option (List Char) := none
  /-- The sign of the exponent, whether it is negative, and its digits. -/
  exponent : Option (Bool × List Char) := none
  deriving DecidableEq, Repr

def maxWord : Nat := 0xffffffffffffffff

/-- Appends digits to `n` while the result fits 64 bits, and counts the digits taken. -/
def absorb (n : Nat) : List Char → Nat × Nat
  | [] => (n, 0)
  | d :: ds =>
    let next := 10 * n + (d.toNat - '0'.toNat)
    if next ≤ maxWord then
      let (m, taken) := absorb next ds
      (m, taken + 1)
    else (n, 0)

/-- Scales a float by a power of ten, in steps that a float can hold. -/
def scale (f : Float) (exponent : Int) : Option Float :=
  if exponent.natAbs ≤ 308 then
    let power := Float.ofScientific 1 false exponent.natAbs
    if exponent < 0 then some (f / power)
    else
      let product := f * power
      if product.isInf then none else some product
  else if f == 0.0 then some f
  else if 0 ≤ exponent then none
  else scale (f / Float.ofScientific 1 false 308) (exponent + 308)
termination_by exponent.natAbs

namespace NumberText

/-- The leading digits as a number, and the power of ten that belongs to it. -/
def significand (t : NumberText) : Nat × Int :=
  let (n, taken) := absorb 0 t.whole
  let (m, more) := absorb n (t.fraction.getD [])
  (m, (t.whole.length - taken : Nat) - (more : Int))

/-- The value as a float. An exponent beyond 32 bits makes any number but zero too large or
vanish. -/
def float? (t : NumberText) : Option Float :=
  let (m, e) := t.significand
  let magnitude :=
    match t.exponent with
    | none => scale (Float.ofNat m) e
    | some (negative, ds) =>
      let n := Decimal.ofDigits ds
      if n < 0x80000000 then scale (Float.ofNat m) (if negative then e - n else e + n)
      else if negative || m == 0 then some 0.0
      else none
  magnitude.map fun f => if t.negative then -f else f

/-- The value of a number, if it is in range. A negative zero is a float. -/
def value? (t : NumberText) : Option Json :=
  let n := Decimal.ofDigits t.whole
  if t.fraction.isNone && t.exponent.isNone && !t.negative && n ≤ maxWord then some (.int n)
  else if t.fraction.isNone && t.exponent.isNone && t.negative && 0 < n &&
      n ≤ 0x8000000000000000 then
    some (.int (-n))
  else t.float?.map .float

end NumberText

end BlockGraph.Json

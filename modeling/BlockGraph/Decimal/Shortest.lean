import BlockGraph.Decimal.Numeral

/-!
# Shortest decimals

The fewest decimal digits that still read back as a given float. A positive float is `m · 2 ^ q`;
the numbers that round to it form an interval around it, which includes its ends exactly if `m` is
even. The first decimal grid with a point in that interval fixes the number of digits, and the
nearest such point fixes the digits. Of two that are equally near, a form chooses one.

* `digitsOf`: the digits and the place of the point.
-/

namespace BlockGraph.Decimal

/-- Digits after a point that is then moved `point` places to the right. -/
structure Digits where
  digits : List Char
  point : Int
  deriving DecidableEq, Repr

/-- Which of two equally near grid points is chosen. -/
inductive Tie where
  | toEven
  | upward
  deriving DecidableEq, Repr

/-- Whether `n` is chosen and not `n + 1`. -/
def Tie.keeps (tie : Tie) (n : Nat) : Bool :=
  match tie with
  | .toEven => n % 2 == 0
  | .upward => false

/-- A positive float with the interval of numbers that round to it, all as multiples of one
`1 / scale`. -/
structure Rounding where
  value : Nat
  low : Nat
  high : Nat
  scale : Nat
  /-- Whether the two ends belong to the interval. -/
  closed : Bool
  deriving DecidableEq, Repr

/-- What the leading bit of a normal float adds to its fraction. -/
def hidden : Nat := 0x10000000000000

/-- The interval around the positive float with these bits. The lower neighbour of a power of two
is half as far away as the upper one. -/
def Rounding.ofBits (bits : UInt64) : Rounding :=
  let fraction := bits.toNat % hidden
  let biased := bits.toNat / hidden % 0x800
  let m := if biased = 0 then fraction else fraction + hidden
  let e := max biased 1 - 1
  let below := if fraction = 0 ∧ 1 < biased then 1 else 2
  -- the float is `m · 2 ^ (e - 1074)`; a quarter of its last place is the unit
  let unit := Nat.pow 2 e
  ⟨4 * m * unit, (4 * m - below) * unit, (4 * m + 2) * unit, Nat.pow 2 1076, m % 2 = 0⟩

namespace Rounding

/-- Whether the number `n / d` rounds to the float. -/
def contains (r : Rounding) (n d : Nat) : Bool :=
  let lowSide := r.low * d
  let here := n * r.scale
  let highSide := r.high * d
  if r.closed then lowSide ≤ here && here ≤ highSide else lowSide < here && here < highSide

/-- The number of digits before the point, negative if zeros follow the point. -/
def magnitude (r : Rounding) : Int :=
  let estimate : Int := (Nat.toDigits 10 r.value).length - (Nat.toDigits 10 r.scale).length
  let bound :=
    if 0 ≤ estimate then r.scale * Nat.pow 10 estimate.natAbs ≤ r.value
    else r.scale ≤ r.value * Nat.pow 10 estimate.natAbs
  if bound then estimate + 1 else estimate

/-- The grid point with place value `10 ^ place` that is nearest to the float among those that
round to it, counted in places. -/
def onGrid? (r : Rounding) (tie : Tie) (place : Int) : Option Nat :=
  let up := if 0 ≤ place then Nat.pow 10 place.natAbs else 1
  let down := if 0 ≤ place then 1 else Nat.pow 10 place.natAbs
  -- a grid point `n` is the number `n * up / down`
  let step := r.scale * up
  let n := r.value * down / step
  let above := (n + 1) * step - r.value * down
  let under := r.value * down - n * step
  let nFits := r.contains (n * up) down
  let nextFits := r.contains ((n + 1) * up) down
  if nFits && (!nextFits || under < above || (under == above && tie.keeps n)) then some n
  else if nextFits then some (n + 1)
  else none

end Rounding

def dropZeros (ds : List Char) : List Char := (ds.reverse.dropWhile (· = '0')).reverse

/-- The shortest digits of the positive finite float with these bits. Seventeen always suffice. -/
def digitsOf (tie : Tie) (bits : UInt64) : Digits :=
  let r := Rounding.ofBits bits
  let e := r.magnitude
  let found := (List.range 17).findSome? fun (i : Nat) =>
    (r.onGrid? tie (e - (i + 1))).map fun n => (n, e - (i + 1))
  match found with
  | some (n, place) =>
    let ds := Nat.toDigits 10 n
    ⟨dropZeros ds, ds.length + place⟩
  | none => ⟨['0'], 1⟩

/-! ## Written forms -/

/-- How finite floats are written. -/
structure Layout where
  /-- The places of the point, counted from before the first digit, that are written without an
  exponent; without bounds an exponent is never written. -/
  positional : Option (Int × Int)
  /-- Whether a whole number ends in a point and a zero. -/
  fraction : Bool
  tie : Tie
  deriving DecidableEq, Repr

def positionalText (fraction : Bool) (d : Digits) : List Char :=
  if d.point ≤ 0 then '0' :: '.' :: (List.replicate d.point.natAbs '0' ++ d.digits)
  else
    let whole := d.digits.take d.point.natAbs
    let rest := d.digits.drop d.point.natAbs
    let padded := whole ++ List.replicate (d.point.natAbs - whole.length) '0'
    if rest.isEmpty then padded ++ (if fraction then ['.', '0'] else []) else padded ++ '.' :: rest

/-- Writes one digit before the point and a signed exponent without zeros in front. -/
def scientificText (d : Digits) : List Char :=
  let e := d.point - 1
  let mantissa :=
    match d.digits with
    | [] => ['0']
    | [c] => [c]
    | c :: cs => c :: '.' :: cs
  mantissa ++ 'e' :: (if e < 0 then '-' else '+') :: Nat.toDigits 10 e.natAbs

def Layout.magnitudeText (layout : Layout) (bits : UInt64) : List Char :=
  if bits = 0 then if layout.fraction then ['0', '.', '0'] else ['0']
  else
    let d := digitsOf layout.tie bits
    match layout.positional with
    | none => positionalText layout.fraction d
    | some (lo, hi) =>
      if lo ≤ d.point ∧ d.point ≤ hi then positionalText layout.fraction d else scientificText d

/-- Writes a float: its sign, also that of zero, then its magnitude. -/
def Layout.write (layout : Layout) (x : Float) : String :=
  if x.isNaN then "NaN"
  else
    let bits := x.toBits
    let sign := if bits < 0x8000000000000000 then [] else ['-']
    let magnitude := bits &&& 0x7fffffffffffffff
    if x.isInf then String.ofList (sign ++ "inf".toList)
    else String.ofList (sign ++ layout.magnitudeText magnitude)

/-- Without exponent, and without a point on whole numbers; ties go up. -/
def plain : Layout := ⟨none, false, .upward⟩

/-- With a point or an exponent: from `1e-5` up to below `1e16` around the point. Ties go to the
even digit. -/
def pointed : Layout := ⟨some (-4, 16), true, .toEven⟩

def shortest (x : Float) : String := plain.write x

end BlockGraph.Decimal

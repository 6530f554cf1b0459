/-!
# Numerals

Numbers as they are written: an optional sign, then digits with an optional point and an optional
exponent, or the name of an infinity or of no number at all.

* `Numeral.read?`: what counts as a numeral.
* `Numeral.toFloat`: the nearest float.
-/

namespace BlockGraph.Decimal

/-- A number as written. -/
inductive Numeral where
  /-- The number `significand · 10 ^ exponent`, or its opposite. -/
  | finite (negative : Bool) (significand : Nat) (exponent : Int)
  | infinite (negative : Bool)
  | nan
  deriving DecidableEq, Repr

/-- The digits at the front of a text, and what follows them. -/
def spanDigits (cs : List Char) : List Char × List Char :=
  (cs.takeWhile Char.isDigit, cs.dropWhile Char.isDigit)

/-- The number that a list of digits spells; the empty list spells zero. -/
def ofDigits (ds : List Char) : Nat := ds.foldl (fun n d => 10 * n + (d.toNat - '0'.toNat)) 0

@[simp] theorem ofDigits_nil : ofDigits [] = 0 := rfl

namespace Numeral

/-- Splits off a leading sign: whether it is a minus, and the rest. -/
def splitSign : List Char → Bool × List Char
  | '-' :: cs => (true, cs)
  | '+' :: cs => (false, cs)
  | cs => (false, cs)

/-- The exponent that makes up all of `cs`: nothing, or a mark, a sign and at least one digit. -/
def readExponent? : List Char → Option Int
  | [] => some 0
  | c :: cs =>
    if c = 'e' ∨ c = 'E' then
      let (negative, ds) := splitSign cs
      if ds.isEmpty ∨ ¬ ds.all Char.isDigit then none
      else some (if negative then - (ofDigits ds : Int) else ofDigits ds)
    else none

/-- Digits with an optional point, at least one of them, and an optional exponent. -/
def readFinite? (negative : Bool) (cs : List Char) : Option Numeral :=
  let (whole, rest) := spanDigits cs
  let (fraction, rest) :=
    match rest with
    | '.' :: rest => spanDigits rest
    | rest => ([], rest)
  if whole.isEmpty ∧ fraction.isEmpty then none
  else (readExponent? rest).map fun e =>
    finite negative (ofDigits (whole ++ fraction)) (e - fraction.length)

/-- Reads a numeral that makes up all of `cs`. -/
def read? (cs : List Char) : Option Numeral :=
  let (negative, body) := splitSign cs
  let name := body.map Char.toLower
  if name = "inf".toList ∨ name = "infinity".toList then some (infinite negative)
  else if name = "nan".toList then some nan
  else readFinite? negative body

/-- The number of digits of `n`; zero has none. -/
def digitCount (n : Nat) : Nat := if n = 0 then 0 else (Nat.toDigits 10 n).length

/-- The nearest float. Beyond the range of finite floats it is an infinity, below the smallest
positive one a zero; a number with no digit left of the 330th place after the point is that
small, and one with more than 310 digits before it that large. -/
def toFloat : Numeral → Float
  | nan => 0.0 / 0.0
  | infinite negative => if negative then -1.0 / 0.0 else 1.0 / 0.0
  | finite negative significand exponent =>
    let magnitude : Int := digitCount significand + exponent
    let size : Float :=
      if significand = 0 ∨ magnitude < -330 then 0.0
      else if 310 < magnitude then 1.0 / 0.0
      else Float.ofScientific significand (exponent < 0) exponent.natAbs
    if negative then -size else size

end Numeral

end BlockGraph.Decimal

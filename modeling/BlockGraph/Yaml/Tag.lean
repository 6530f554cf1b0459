import BlockGraph.Yaml.Scalar

/-!
# Tags as they are written

A tag is a handle and a suffix. Where a character may not stand in a tag, its octets are written
with a percent sign and two hexadecimal digits each. Octets may also go together as those of a
character do without being any: a tag with such octets is a tag, but has no text.

* `tagText?`: the text of a part of a tag.
* `splitTag?`: the tag in front of a text.
-/

namespace BlockGraph.Yaml

/-! ## Octets -/

/-- A part of the text of a tag. -/
inductive TagUnit where
  | char (c : Char)
  | octet (value : Nat)
  deriving DecidableEq, Repr

/-- The parts of a text. Fails if a percent sign has fewer than two digits. -/
def tagUnits? : List Char → Option (List TagUnit)
  | [] => some []
  | '%' :: high :: low :: cs => do
    let value := 16 * (← hexValue? high) + (← hexValue? low)
    return .octet value :: (← tagUnits? cs)
  | '%' :: _ => none
  | c :: cs => return .char c :: (← tagUnits? cs)

/-- A character of which some octets are read. -/
structure OpenChar where
  /-- The number of octets to come. -/
  left : Nat
  /-- The bits that are read. -/
  value : Nat
  /-- The least number that takes so many octets. -/
  least : Nat
  deriving DecidableEq, Repr

namespace OpenChar

def begin? (octet : Nat) : Option OpenChar :=
  if octet < 0x80 then some ⟨0, octet, 0⟩
  else if octet < 0xc0 then none
  else if octet < 0xe0 then some ⟨1, octet - 0xc0, 0x80⟩
  else if octet < 0xf0 then some ⟨2, octet - 0xe0, 0x800⟩
  else if octet < 0xf8 then some ⟨3, octet - 0xf0, 0x10000⟩
  else none

def next? (c : OpenChar) (octet : Nat) : Option OpenChar :=
  if 0x80 ≤ octet ∧ octet < 0xc0 then
    some { c with left := c.left - 1, value := 0x40 * c.value + (octet - 0x80) }
  else none

/-- The character itself, if there is one with this number and it takes so many octets. -/
def char? (c : OpenChar) : Option Char := if c.least ≤ c.value then charOf? c.value else none

end OpenChar

/-- The characters of a text; an item is `none` where octets are no character. Fails if the octets
do not even go together as those of a character do. -/
def tagChars? : (begun : Option OpenChar) → List TagUnit → Option (List (Option Char))
  | none, [] => some []
  | some _, [] => none
  | none, .char c :: us => return some c :: (← tagChars? none us)
  | some _, .char _ :: _ => none
  | begun, .octet octet :: us => do
    let c ← begun.elim (OpenChar.begin? octet) (·.next? octet)
    if c.left = 0 then return c.char? :: (← tagChars? none us)
    tagChars? (some c) us

/-- The text of a part of a tag, which ends at the first null character. -/
def tagText? (written : List Char) : Option (Option String) := do
  let cs ← tagChars? none (← tagUnits? written)
  return ((cs.takeWhile (· != some '\x00')).mapM id).map String.ofList

/-! ## Handles and suffixes -/

def isTagChar (c : Char) : Bool :=
  isNameChar c || ";/?:@&=+$.%!~*'()".toList.contains c

/-- Whether a character may stand in a tag between angle brackets, or in what a handle stands
for. -/
def isFullTagChar (c : Char) : Bool := isTagChar c || ",[]".toList.contains c

/-- A handle with a name between two exclamation marks, which may be empty, and what follows. -/
def namedHandle? : List Char → Option (String × List Char)
  | '!' :: cs =>
    match cs.dropWhile isNameChar with
    | '!' :: rest => some (String.ofList ('!' :: cs.takeWhile isNameChar ++ ['!']), rest)
    | _ => none
  | _ => none

/-- Splits the tag in front of a text into its handle and its suffix. -/
def splitTag? (cs : List Char) : Option (String × Option String × List Char) :=
  match cs, namedHandle? cs with
  | '!' :: '<' :: cs, _ => do
    let written := cs.takeWhile isFullTagChar
    match cs.dropWhile isFullTagChar with
    | '>' :: rest => if written.isEmpty then none else return ("", ← tagText? written, rest)
    | _ => none
  | _, some (handle, rest) => do
    let written := rest.takeWhile isTagChar
    if written.isEmpty then none
    else return (handle, ← tagText? written, rest.dropWhile isTagChar)
  | '!' :: cs, none => do
    let suffix ← tagText? (cs.takeWhile isTagChar)
    let rest := cs.dropWhile isTagChar
    return if suffix == some "" then ("", some "!", rest) else ("!", suffix, rest)
  | _, _ => none

end BlockGraph.Yaml

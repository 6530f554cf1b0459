import BlockGraph.Decimal.Numeral
import BlockGraph.Yaml.Tag

/-!
# Directives

Lines in front of a document that say which version of YAML it is written in and what the handles
of its tags stand for.

* `directive?`: the directive on a line.
-/

namespace BlockGraph.Yaml

/-- A part of a version, which has nine digits at most, and what follows. -/
def versionPart? (cs : List Char) : Option (Nat × List Char) :=
  let (digits, rest) := Decimal.spanDigits cs
  if digits.isEmpty || 9 < digits.length then none else some (Decimal.ofDigits digits, rest)

/-- Reads the version of YAML, which must be 1.1 or 1.2. -/
def version? (cs : List Char) : Option (Token × List Char) := do
  let (major, cs) ← versionPart? cs
  match cs with
  | '.' :: cs =>
    let (minor, rest) ← versionPart? cs
    if major == 1 && (minor == 1 || minor == 2) then return (.version, rest) else none
  | _ => none

/-- Reads a handle, which may be a single exclamation mark, and what it stands for. -/
def handle? (cs : List Char) : Option (Token × List Char) := do
  let (handle, cs) ←
    match cs, namedHandle? cs with
    | _, some named => some named
    | '!' :: cs, none => some ("!", cs)
    | _, none => none
  if !cs.head?.any isBlank then none
  let cs := cs.dropWhile isBlank
  let written := cs.takeWhile isFullTagChar
  let rest := cs.dropWhile isFullTagChar
  if written.isEmpty || !isSpaced rest then none
  return (.handle handle (← tagText? written), rest)

/-- Reads a directive after its percent sign, and the rest of its line. -/
def directive? (cs : List Char) : Option (Token × List Char) := do
  let name := String.ofList (cs.takeWhile isNameChar)
  let afterName := cs.dropWhile isNameChar
  if !isSpaced afterName then none
  let (t, rest) ←
    match name with
    | "YAML" => version? (afterName.dropWhile isBlank)
    | "TAG" => handle? (afterName.dropWhile isBlank)
    | _ => none
  return (t, ← afterLine? rest)

end BlockGraph.Yaml

import BlockGraph.Json.Value

/-!
# Writing JSON

Two layouts: one with every item and member on a line of its own, indented by two spaces a level,
and one without any blanks. Characters outside ASCII are written as they are.
-/

namespace BlockGraph.Json

def textChar (c : Char) : List Char :=
  match c with
  | '"' => ['\\', '"']
  | '\\' => ['\\', '\\']
  | '\x08' => ['\\', 'b']
  | '\x0c' => ['\\', 'f']
  | '\n' => ['\\', 'n']
  | '\r' => ['\\', 'r']
  | '\t' => ['\\', 't']
  | c =>
    if c.toNat < 0x20 then
      ['\\', 'u', '0', '0', Nat.digitChar (c.toNat / 16), Nat.digitChar (c.toNat % 16)]
    else [c]

def textLiteral (text : String) : List Char := '"' :: text.toList.flatMap textChar ++ ['"']

/-- A float; what is no finite number is written as `null`. -/
def floatLiteral (f : Float) : List Char :=
  if f.isFinite then (Decimal.pointed.write f).toList else "null".toList

def scalar : Json → List Char
  | .null => "null".toList
  | .bool b => if b then "true".toList else "false".toList
  | .int n => (toString n).toList
  | .float f => floatLiteral f
  | .str s => textLiteral s
  | _ => []

/-- A line break and the blanks of the given level. -/
def lineBreak (level : Nat) : List Char := '\n' :: List.replicate (2 * level) ' '

/-! ## With line breaks -/

mutual

def prettyAt (level : Nat) : Json → List Char
  | .arr [] => ['[', ']']
  | .arr (item :: items) =>
    '[' :: lineBreak (level + 1) ++ prettyAt (level + 1) item ++ prettyItems (level + 1) items ++
      lineBreak level ++ [']']
  | .obj [] => ['\x7b', '\x7d']
  | .obj (member :: members) =>
    '\x7b' :: lineBreak (level + 1) ++ prettyMember (level + 1) member ++
      prettyMembers (level + 1) members ++ lineBreak level ++ ['\x7d']
  | v => scalar v
termination_by structural v => v

def prettyItems (level : Nat) : List Json → List Char
  | [] => []
  | item :: items => ',' :: lineBreak level ++ prettyAt level item ++ prettyItems level items
termination_by structural items => items

def prettyMember (level : Nat) : String × Json → List Char
  | (name, v) => textLiteral name ++ [':', ' '] ++ prettyAt level v
termination_by structural member => member

def prettyMembers (level : Nat) : List (String × Json) → List Char
  | [] => []
  | member :: members =>
    ',' :: lineBreak level ++ prettyMember level member ++ prettyMembers level members
termination_by structural members => members

end

/-- The text of a value, with line breaks. -/
def pretty (j : Json) : String := String.ofList (prettyAt 0 j)

/-! ## On one line -/

mutual

def compactChars : Json → List Char
  | .arr [] => ['[', ']']
  | .arr (item :: items) => '[' :: compactChars item ++ compactItems items ++ [']']
  | .obj [] => ['\x7b', '\x7d']
  | .obj (member :: members) =>
    '\x7b' :: compactMember member ++ compactMembers members ++ ['\x7d']
  | v => scalar v
termination_by structural v => v

def compactItems : List Json → List Char
  | [] => []
  | item :: items => ',' :: compactChars item ++ compactItems items
termination_by structural items => items

def compactMember : String × Json → List Char
  | (name, v) => textLiteral name ++ ':' :: compactChars v
termination_by structural member => member

def compactMembers : List (String × Json) → List Char
  | [] => []
  | member :: members => ',' :: compactMember member ++ compactMembers members
termination_by structural members => members

end

def compact (j : Json) : String := String.ofList (compactChars j)

end BlockGraph.Json

import BlockGraph.Text.Formless

/-!
# Quoted texts

A text between double quotes, on one line whatever it holds: the usual short escapes, and the
code point in braces for every other character without a form of its own.
-/

namespace BlockGraph.Text

/-- The digits of `n` in base sixteen, lower case. -/
def hex (n : Nat) : List Char := Nat.toDigits 16 n

def quotedChar (c : Char) : List Char :=
  match c with
  | '\x00' => ['\\', '0']
  | '\t' => ['\\', 't']
  | '\r' => ['\\', 'r']
  | '\n' => ['\\', 'n']
  | '"' => ['\\', '"']
  | '\\' => ['\\', '\\']
  | c => if isFormless c then ['\\', 'u', '\x7b'] ++ hex c.toNat ++ ['\x7d'] else [c]

/-- `text` between double quotes. -/
def quoted (text : String) : String :=
  String.ofList ('"' :: text.toList.flatMap quotedChar ++ ['"'])

end BlockGraph.Text

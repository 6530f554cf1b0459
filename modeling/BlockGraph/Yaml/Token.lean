/-!
# YAML tokens

The marks and scalars of a YAML text, in which the ends of indented collections are marks of their
own. Characters fall into a few classes that decide where tokens end.

* `Cursor`: a place in a text.
* `normalize`: the one form of line breaks.
-/

namespace BlockGraph.Yaml

/-- A mark or a scalar. -/
inductive Token where
  | documentStart
  | documentEnd
  | version
  /-- What the handle of a tag stands for, if that is a text. -/
  | handle (name : String) (start : Option String)
  | blockSequenceStart
  | blockMappingStart
  | blockEnd
  | flowSequenceStart
  | flowSequenceEnd
  | flowMappingStart
  | flowMappingEnd
  | blockEntry
  | flowEntry
  | key
  | value
  | alias (name : String)
  | anchor (name : String)
  /-- A tag without a handle is all suffix. -/
  | tag (handle : String) (suffix : Option String)
  | scalar (isPlain : Bool) (text : String)
  deriving DecidableEq, Repr

/-! ## Characters -/

def isPrintable (c : Char) : Bool :=
  let n := c.toNat
  n == 0x09 || n == 0x0a || n == 0x0d || (0x20 ≤ n && n ≤ 0x7e) || n == 0x85 ||
    (0xa0 ≤ n && n ≤ 0xd7ff) || (0xe000 ≤ n && n ≤ 0xfffd) || (0x10000 ≤ n && n ≤ 0x10ffff)

def isBreak (c : Char) : Bool := c == '\n' || c == '\u2028' || c == '\u2029'

/-- Whether a character separates tokens on a line. -/
def isBlank (c : Char) : Bool := c == ' ' || c == '\t'

/-- Whether a text is at its end, a break or a blank. -/
def isSpaced : List Char → Bool
  | [] => true
  | c :: _ => isBlank c || isBreak c

def isNameChar (c : Char) : Bool := c.isAlphanum || c == '_' || c == '-'

/-- Whether a text begins with the three characters of a document mark. -/
def isDocumentMark (mark : Char) (cs : List Char) : Bool :=
  [mark, mark, mark].isPrefixOf cs && isSpaced (cs.drop 3)

/-- A text with the same breaks, in which a line feed stands for every pair of carriage return and
line feed, for every lone carriage return and for every next-line character. -/
def normalize : List Char → List Char
  | [] => []
  | '\r' :: '\n' :: cs => '\n' :: normalize cs
  | c :: cs => (if c == '\r' || c == '\u0085' then '\n' else c) :: normalize cs

/-! ## Places -/

/-- What is left of a text, and where that is. -/
structure Cursor where
  rest : List Char
  line : Nat := 0
  column : Nat := 0
  /-- The number of bytes in front. -/
  offset : Nat := 0

namespace Cursor

def next (c : Cursor) : Cursor :=
  match c.rest with
  | [] => c
  | x :: rest =>
    let offset := c.offset + x.utf8Size
    if isBreak x then ⟨rest, c.line + 1, 0, offset⟩ else ⟨rest, c.line, c.column + 1, offset⟩

/-- The cursor after `n` more characters. -/
def skip : Nat → Cursor → Cursor
  | 0, c => c
  | n + 1, c => skip n c.next

def moveTo (c : Cursor) (rest : List Char) : Cursor := c.skip (c.rest.length - rest.length)

end Cursor

end BlockGraph.Yaml

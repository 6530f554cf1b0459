import BlockGraph.Yaml.Directive

/-!
# From text to YAML tokens

Indented collections begin where a token stands further right than the collection around it, and
end where one stands further left. Whether a scalar is a key shows only when a colon follows it, so
the lexer remembers where the last possible key on each level began.

* `tokens`: the tokens of a text; none if the text has no tokens.
-/

namespace BlockGraph.Yaml

/-- A place where a key may have begun. -/
structure PossibleKey where
  /-- The number of tokens in front of it. -/
  place : Nat
  line : Nat
  column : Nat
  /-- The number of bytes in front of it. -/
  offset : Nat
  /-- Whether a colon has to follow. -/
  isRequired : Bool

/-- A lexer in the middle of a text. -/
structure Lexer where
  cursor : Cursor
  tokens : Array Token := #[]
  /-- The columns of the open indented collections, innermost first. -/
  indents : List Nat := []
  /-- Whether a key may begin here. -/
  allowsKey : Bool := true
  /-- The last possible key inside the innermost brackets. -/
  lastKey : Option PossibleKey := none
  /-- Those on the levels outside of it; as many as there are open brackets. -/
  outerKeys : List (Option PossibleKey) := []

namespace Lexer

def inFlow (l : Lexer) : Bool := !l.outerKeys.isEmpty

/-- The least column inside the innermost indented collection. -/
def floor (l : Lexer) : Nat :=
  match l.indents with
  | [] => 0
  | column :: _ => column + 1

def emit (l : Lexer) (t : Token) : Lexer := { l with tokens := l.tokens.push t }

/-- Adds a token of `n` characters. -/
def take (l : Lexer) (n : Nat) (t : Token) : Lexer :=
  { l.emit t with cursor := l.cursor.skip n }

/-! ## Indentation -/

/-- Closes the indented collections that are right of a column; `none` is left of all columns. -/
def closeTo (l : Lexer) (column : Option Nat) : Lexer :=
  if l.inFlow then l
  else
    let isRight (indent : Nat) : Bool := column.all (· < indent)
    { l with
      tokens := (l.indents.takeWhile isRight).foldl (fun ts _ => ts.push .blockEnd) l.tokens
      indents := l.indents.dropWhile isRight }

/-- Opens an indented collection at a column, unless one is open there. Its token and those in
`more` are put in front of the tokens from number `place` on. -/
def openAt (l : Lexer) (column place : Nat) (t : Token) (more : List Token) : Lexer :=
  let opens := !l.inFlow && l.floor ≤ column
  let new := (if opens then [t] else []) ++ more
  { l with
    tokens := l.tokens.extract 0 place ++ new ++ l.tokens.extract place l.tokens.size
    indents := if opens then column :: l.indents else l.indents }

/-! ## Keys -/

/-- Forgets the last possible key; fails if it had to be one. -/
def dropKey (l : Lexer) : Option Lexer :=
  match l.lastKey with
  | some ⟨_, _, _, _, true⟩ => none
  | _ => some { l with lastKey := none }

def saveKey (l : Lexer) : Option Lexer :=
  if l.allowsKey then do
    let c := l.cursor
    let l' ← l.dropKey
    let isRequired := !l.inFlow && l.indents.head? == some c.column
    return { l' with lastKey := some ⟨l.tokens.size, c.line, c.column, c.offset, isRequired⟩ }
  else some l

def maxKeyLength : Nat := 1024

/-- Forgets a possible key that is too far back. Fails if it had to be one. -/
def refresh (c : Cursor) : Option PossibleKey → Option (Option PossibleKey)
  | none => some none
  | some k =>
    if k.line < c.line || k.offset + maxKeyLength < c.offset then
      if k.isRequired then none else some none
    else some (some k)

/-- Forgets the possible keys that are too far back. -/
def refreshKeys (l : Lexer) : Option Lexer := do
  let lastKey ← refresh l.cursor l.lastKey
  let outerKeys ← l.outerKeys.mapM (refresh l.cursor)
  return { l with lastKey, outerKeys }

/-! ## Between tokens -/

/-- What is left after blanks, comments and breaks, and whether a break was among them. A tab is a
blank only where no key may begin, and a byte-order mark only at the start of a line. -/
def gap (inFlow : Bool) :
    (allowsKey isLineStart isComment : Bool) → List Char → Bool × List Char
  | allowsKey, _, _, [] => (allowsKey, [])
  | allowsKey, isLineStart, isComment, c :: cs =>
    let isSkipped :=
      c == ' ' || (c == '\t' && (inFlow || !allowsKey)) || (c == '\uFEFF' && isLineStart)
    if isBreak c then gap inFlow (allowsKey || !inFlow) true false cs
    else if isComment || c == '#' then gap inFlow allowsKey false true cs
    else if isSkipped then gap inFlow allowsKey false false cs
    else (allowsKey, c :: cs)

def skipGap (l : Lexer) : Lexer :=
  let (allowsKey, rest) := gap l.inFlow l.allowsKey (l.cursor.column == 0) false l.cursor.rest
  { l with allowsKey, cursor := l.cursor.moveTo rest }

/-! ## Single tokens -/

def documentMark (l : Lexer) (t : Token) : Option Lexer := do
  let l ← (l.closeTo none).dropKey
  return { l.take 3 t with allowsKey := false }

def openFlow (l : Lexer) (t : Token) : Option Lexer := do
  let l ← l.saveKey
  return { l.take 1 t with
    allowsKey := true, lastKey := none, outerKeys := l.lastKey :: l.outerKeys }

def closeFlow (l : Lexer) (t : Token) : Option Lexer := do
  let l ← l.dropKey
  let l := l.take 1 t
  match l.outerKeys with
  | [] => return { l with allowsKey := false }
  | key :: outerKeys => return { l with allowsKey := false, lastKey := key, outerKeys }

def flowEntry (l : Lexer) : Option Lexer := do
  let l ← l.dropKey
  return { l.take 1 .flowEntry with allowsKey := true }

def blockEntry (l : Lexer) : Option Lexer := do
  if !l.inFlow && !l.allowsKey then none
  let l ← (l.openAt l.cursor.column l.tokens.size .blockSequenceStart []).dropKey
  return { l.take 1 .blockEntry with allowsKey := true }

def explicitKey (l : Lexer) : Option Lexer := do
  if !l.inFlow && !l.allowsKey then none
  let l ← (l.openAt l.cursor.column l.tokens.size .blockMappingStart []).dropKey
  return { l.take 1 .key with allowsKey := !l.inFlow }

/-- Reads the colon in front of a value. If a key may have begun, it has. -/
def value (l : Lexer) : Option Lexer := do
  match l.lastKey with
  | some k =>
    let l := l.openAt k.column k.place .blockMappingStart [.key]
    return { l.take 1 .value with allowsKey := false, lastKey := none }
  | none =>
    if !l.inFlow && !l.allowsKey then none
    let l := l.openAt l.cursor.column l.tokens.size .blockMappingStart []
    return { l.take 1 .value with allowsKey := !l.inFlow }

/-- Adds a token that may be a key and ends at `rest`. -/
def keyToken (l : Lexer) (t : Token) (rest : List Char) : Option Lexer := do
  let l ← l.saveKey
  return { l.emit t with allowsKey := false, cursor := l.cursor.moveTo rest }

/-- Reads the name of an anchor or an alias after its mark. -/
def named (l : Lexer) (make : String → Token) : Option Lexer :=
  let name := l.cursor.rest.tail.takeWhile isNameChar
  let rest := l.cursor.rest.tail.dropWhile isNameChar
  let isEnd := isSpaced rest || rest.head?.any fun c => "?:,]\x7d%@\x60".toList.contains c
  if name.isEmpty || !isEnd then none else l.keyToken (make (String.ofList name)) rest

def tag (l : Lexer) : Option Lexer := do
  let (handle, suffix, rest) ← splitTag? l.cursor.rest
  if !isSpaced rest && !(l.inFlow && rest.head? == some ',') then none
  l.keyToken (.tag handle suffix) rest

def quoted (l : Lexer) : Option Lexer := do
  let start := l.cursor.column + 1
  let (text, rest) ←
    match l.cursor.rest with
    | '\'' :: cs => singleQuoted [] {} start cs
    | _ :: cs => doubleQuoted .text [] {} start cs
    | [] => none
  l.keyToken (.scalar false text) rest

def plainScalar (l : Lexer) : Option Lexer := do
  let p ← plain l.inFlow l.floor [] {} l.cursor.column l.cursor.rest
  let l' ← l.keyToken (.scalar true p.text) p.rest
  return { l' with allowsKey := p.isLast }

def block (l : Lexer) (isLiteral : Bool) : Option Lexer := do
  let l ← l.dropKey
  let (text, rest) ← blockScalar isLiteral l.floor l.cursor.rest.tail
  return { l.emit (.scalar false text) with allowsKey := true, cursor := l.cursor.moveTo rest }

def startsPlain (inFlow : Bool) : List Char → Bool
  | [] => false
  | c :: cs =>
    if c == '-' then !isSpaced cs
    else if c == '?' || c == ':' then !inFlow && !isSpaced cs
    else !(isFlowMark c || "#&*!|>'\"%@\x60".toList.contains c || isBlank c || isBreak c)

/-- Reads a directive. No key may begin until the next line break. -/
def directive (l : Lexer) : Option Lexer := do
  let l ← (l.closeTo none).dropKey
  let (t, rest) ← directive? l.cursor.rest.tail
  return { l.emit t with allowsKey := false, cursor := l.cursor.moveTo rest }

/-! ## All tokens -/

/-- Reads the token at the cursor, which is not at the end. -/
def token (l : Lexer) : Option Lexer :=
  let cs := l.cursor.rest
  let isSpacedMark := isSpaced cs.tail
  if l.cursor.column == 0 && cs.head? == some '%' then l.directive
  else if l.cursor.column == 0 && isDocumentMark '-' cs then l.documentMark .documentStart
  else if l.cursor.column == 0 && isDocumentMark '.' cs then l.documentMark .documentEnd
  else
    match cs.head? with
    | some '[' => l.openFlow .flowSequenceStart
    | some '\x7b' => l.openFlow .flowMappingStart
    | some ']' => l.closeFlow .flowSequenceEnd
    | some '\x7d' => l.closeFlow .flowMappingEnd
    | some ',' => l.flowEntry
    | some '*' => l.named .alias
    | some '&' => l.named .anchor
    | some '!' => l.tag
    | some '\'' | some '"' => l.quoted
    | some c =>
      if c == '-' && isSpacedMark then l.blockEntry
      else if c == '?' && (l.inFlow || isSpacedMark) then l.explicitKey
      else if c == ':' && (l.inFlow || isSpacedMark) then l.value
      else if c == '|' && !l.inFlow then l.block true
      else if c == '>' && !l.inFlow then l.block false
      else if startsPlain l.inFlow cs then l.plainScalar
      else none
    | none => none

/-- Reads all tokens. Every one of them takes a character, so `fuel` characters are enough. -/
def run : (fuel : Nat) → Lexer → Option Lexer
  | 0, _ => none
  | fuel + 1, l => do
    let l ← l.skipGap.refreshKeys
    if l.cursor.rest.isEmpty then (l.closeTo none).dropKey
    else (← (l.closeTo (some l.cursor.column)).token).run fuel

end Lexer

def tokens (text : String) : Option (List Token) := do
  if !text.toList.all isPrintable then none
  let cs := normalize text.toList
  let l ← Lexer.run (cs.length + 1) { cursor := { rest := cs } }
  return l.tokens.toList

end BlockGraph.Yaml

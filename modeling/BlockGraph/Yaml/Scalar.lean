import BlockGraph.Yaml.Token

/-!
# YAML scalars

Texts without quotes, in single or double quotes, and texts that keep their lines. A line break
inside the first three reads as a blank, and a run of breaks loses one.

* `plain`, `singleQuoted`, `doubleQuoted`, `blockScalar`: the text of a scalar and what follows it.
-/

namespace BlockGraph.Yaml

/-! ## Gaps -/

/-- Blanks and breaks between the words of a scalar, last ones first. -/
structure Gap where
  blanks : List Char := []
  breaks : List Char := []
  /-- Whether a backslash took the first break away. -/
  joined : Bool := false

namespace Gap

def isEmpty (g : Gap) : Bool := g.blanks.isEmpty && g.breaks.isEmpty && !g.joined

def isBroken (g : Gap) : Bool := !g.breaks.isEmpty || g.joined

/-- The gap with one more blank. At the start of a line blanks do not count. -/
def addBlank (g : Gap) (c : Char) : Gap :=
  if g.isBroken then g else { g with blanks := c :: g.blanks }

/-- The gap with one more break. Blanks at the end of a line do not count. -/
def addBreak (g : Gap) (c : Char) : Gap := { g with blanks := [], breaks := c :: g.breaks }

/-- The characters that a gap reads as, last ones first. -/
def text (g : Gap) : List Char :=
  if g.joined then g.breaks
  else
    match g.breaks.reverse with
    | [] => g.blanks
    | ['\n'] => [' ']
    | '\n' :: more => more.reverse
    | _ => g.breaks

end Gap

/-! ## Scalars without quotes -/

def isFlowMark (c : Char) : Bool := ",[]\x7b\x7d".toList.contains c

/-- A scalar without quotes. -/
structure Plain where
  text : String
  rest : List Char
  /-- Whether the scalar is followed by the end of a line. -/
  isLast : Bool

/-- Reads words from column `column` on. Outside brackets a word left of column `floor` does not
belong to the scalar. -/
def plain (inFlow : Bool) (floor : Nat) :
    (read : List Char) → (gap : Gap) → (column : Nat) → List Char → Option Plain
  | read, gap, _, [] => some ⟨String.ofList read.reverse, [], gap.isBroken⟩
  | read, gap, column, c :: cs =>
    let done := some ⟨String.ofList read.reverse, c :: cs, gap.isBroken⟩
    if isBreak c then plain inFlow floor read (gap.addBreak c) 0 cs
    else if isBlank c then
      if gap.isBroken && column < floor && c == '\t' then none
      else plain inFlow floor read (gap.addBlank c) (column + 1) cs
    else if !gap.isEmpty && (c == '#' || (!inFlow && column < floor)) then done
    else if column == 0 && (isDocumentMark '-' (c :: cs) || isDocumentMark '.' (c :: cs)) then done
    else if inFlow && c == ':' && (cs.head?.any fun d => d == '?' || isFlowMark d) then none
    else if (c == ':' && isSpaced cs) || (inFlow && isFlowMark c) then done
    else plain inFlow floor (c :: gap.text ++ read) {} (column + 1) cs

/-! ## Scalars in quotes -/

abbrev Quoted := Option (String × List Char)

/-- Whether a document mark at the start of a line cuts a text off. -/
def isCut (column : Nat) (cs : List Char) : Bool :=
  column == 0 && (isDocumentMark '-' cs || isDocumentMark '.' cs)

/-- Reads up to the closing single quote. Two quotes stand for one. -/
def singleQuoted : (read : List Char) → (gap : Gap) → (column : Nat) → List Char → Quoted
  | _, _, _, [] => none
  | read, gap, column, '\'' :: '\'' :: cs =>
    singleQuoted ('\'' :: gap.text ++ read) {} (column + 2) cs
  | read, gap, _, '\'' :: cs => some (String.ofList (gap.text ++ read).reverse, cs)
  | read, gap, column, c :: cs =>
    if isCut column (c :: cs) then none
    else if isBreak c then singleQuoted read (gap.addBreak c) 0 cs
    else if isBlank c then singleQuoted read (gap.addBlank c) (column + 1) cs
    else singleQuoted (c :: gap.text ++ read) {} (column + 1) cs

/-- The character that a backslash and one letter stand for. -/
def escape? : Char → Option Char
  | '0' => some '\x00'
  | 'a' => some '\x07'
  | 'b' => some '\x08'
  | 't' | '\t' => some '\t'
  | 'n' => some '\n'
  | 'v' => some '\x0b'
  | 'f' => some '\x0c'
  | 'r' => some '\r'
  | 'e' => some '\x1b'
  | ' ' => some ' '
  | '"' => some '"'
  | '/' => some '/'
  | '\\' => some '\\'
  | 'N' => some '\u0085'
  | '_' => some '\u00a0'
  | 'L' => some '\u2028'
  | 'P' => some '\u2029'
  | _ => none

/-- The number of hexadecimal digits that follow a backslash and one letter. -/
def escapeWidth? : Char → Option Nat
  | 'x' => some 2
  | 'u' => some 4
  | 'U' => some 8
  | _ => none

def hexValue? (c : Char) : Option Nat :=
  if '0' ≤ c ∧ c ≤ '9' then some (c.toNat - '0'.toNat)
  else if 'a' ≤ c ∧ c ≤ 'f' then some (c.toNat - 'a'.toNat + 10)
  else if 'A' ≤ c ∧ c ≤ 'F' then some (c.toNat - 'A'.toNat + 10)
  else none

def charOf? (n : Nat) : Option Char :=
  if h : n.isValidChar then some (Char.ofNatAux n h) else none

/-- What the reader of a text in double quotes expects next. -/
inductive Expecting where
  | text
  /-- The rest of an escape. -/
  | escape
  /-- So many further digits of the number of a character. -/
  | digits (left value : Nat)

def doubleQuoted :
    (expecting : Expecting) → (read : List Char) → (gap : Gap) → (column : Nat) → List Char → Quoted
  | _, _, _, _, [] => none
  | .digits left value, read, gap, column, c :: cs => do
    let value := 16 * value + (← hexValue? c)
    match left with
    | 0 | 1 => doubleQuoted .text ((← charOf? value) :: read) gap (column + 1) cs
    | left + 1 => doubleQuoted (.digits left value) read gap (column + 1) cs
  | .escape, read, gap, column, c :: cs =>
    if isBreak c then doubleQuoted .text read { joined := true } 0 cs
    else
      match escapeWidth? c with
      | some n => doubleQuoted (.digits n 0) read gap (column + 1) cs
      | none => do doubleQuoted .text ((← escape? c) :: read) gap (column + 1) cs
  | .text, read, gap, column, c :: cs =>
    if isCut column (c :: cs) then none
    else if c == '"' then some (String.ofList (gap.text ++ read).reverse, cs)
    else if c == '\\' then doubleQuoted .escape (gap.text ++ read) {} (column + 1) cs
    else if isBreak c then doubleQuoted .text read (gap.addBreak c) 0 cs
    else if isBlank c then doubleQuoted .text read (gap.addBlank c) (column + 1) cs
    else doubleQuoted .text (c :: gap.text ++ read) {} (column + 1) cs

/-! ## Scalars that keep their lines -/

/-- What becomes of the breaks at the end of a scalar. -/
inductive Chomping where
  | strip
  | clip
  | keep
  deriving DecidableEq, Repr

def chomping? : Char → Option Chomping
  | '-' => some .strip
  | '+' => some .keep
  | _ => none

/-- The mark for an indentation: a digit other than zero. -/
def indentation? (c : Char) : Option Nat :=
  if '1' ≤ c ∧ c ≤ '9' then some (c.toNat - '0'.toNat) else none

/-- Reads the marks in front of a scalar, in either order, and what follows them. -/
def blockHeader : List Char → Option Chomping × Option Nat × List Char
  | [] => (none, none, [])
  | c :: cs =>
    match chomping? c, indentation? c with
    | some chomping, _ =>
      match cs with
      | d :: ds =>
        match indentation? d with
        | some n => (some chomping, some n, ds)
        | none => (some chomping, none, cs)
      | [] => (some chomping, none, [])
    | none, some n =>
      match cs with
      | d :: ds =>
        match chomping? d with
        | some chomping => (some chomping, some n, ds)
        | none => (none, some n, cs)
      | [] => (none, some n, [])
    | none, none => (none, none, c :: cs)

/-- The text after a line of which only blanks and a comment are left. -/
def afterLine? (cs : List Char) : Option (List Char) :=
  let afterBlanks := cs.dropWhile isBlank
  let afterComment :=
    if afterBlanks.head? == some '#' then afterBlanks.dropWhile (!isBreak ·) else afterBlanks
  match afterComment with
  | [] => some []
  | c :: rest => if isBreak c then some rest else none

/-- Blank lines before a line of text. -/
structure BlankLines where
  /-- The breaks, last ones first. -/
  breaks : List Char
  /-- The most blanks on one of the lines. -/
  width : Nat
  /-- The column where the text begins. -/
  column : Nat
  rest : List Char

/-- Reads blank lines. With an `indent` further blanks belong to the text. -/
def blankLines (indent : Option Nat) :
    (breaks : List Char) → (width column : Nat) → List Char → Option BlankLines
  | breaks, width, column, [] => some ⟨breaks, max width column, column, []⟩
  | breaks, width, column, c :: cs =>
    let before := indent.all (column < ·)
    if before && c == ' ' then blankLines indent breaks width (column + 1) cs
    else if before && c == '\t' then none
    else if isBreak c then blankLines indent (c :: breaks) (max width column) 0 cs
    else some ⟨breaks, max width column, column, c :: cs⟩

/-- How the lines of a scalar go together. -/
structure BlockStyle where
  isLiteral : Bool
  chomping : Chomping
  indent : Nat

/-- The lines of a scalar that are read so far. -/
structure BlockLines where
  /-- The characters, last ones first. -/
  text : List Char := []
  /-- The break at the end of the last line. -/
  lineEnd : List Char := []
  /-- The breaks of the blank lines after it, last ones first. -/
  breaks : List Char := []
  /-- Whether the last line begins with a blank. -/
  isIndented : Bool := false

/-- What stands between the last line and the next. A break between two lines that do not begin
with blanks is folded, unless the scalar is literal. -/
def BlockLines.join (b : BlockLines) (style : BlockStyle) (nextIsIndented : Bool) : List Char :=
  if !style.isLiteral && b.lineEnd == ['\n'] && !b.isIndented && !nextIsIndented then
    b.breaks ++ (if b.breaks.isEmpty then [' '] else []) ++ b.text
  else b.breaks ++ b.lineEnd ++ b.text

def BlockLines.finish (b : BlockLines) (chomping : Chomping) : String :=
  String.ofList <| List.reverse <|
    match chomping with
    | .strip => b.text
    | .clip => b.lineEnd ++ b.text
    | .keep => b.breaks ++ b.lineEnd ++ b.text

/-- Reads lines at the indentation of the scalar. `fuel` bounds their number. -/
def blockLines (style : BlockStyle) :
    (fuel : Nat) → BlockLines → (column : Nat) → List Char → Quoted
  | 0, _, _, _ => none
  | fuel + 1, b, column, cs =>
    if column != style.indent || cs.isEmpty then some (b.finish style.chomping, cs)
    else
      let isIndented := cs.head?.any isBlank
      let line := cs.takeWhile (!isBreak ·)
      let after := cs.dropWhile (!isBreak ·)
      do
        let blank ← blankLines (some style.indent) [] 0 0 after.tail
        blockLines style fuel
          { text := line.reverse ++ b.join style isIndented, lineEnd := after.take 1,
            breaks := blank.breaks, isIndented }
          (if after.isEmpty then column + line.length else blank.column) blank.rest

/-- Reads a scalar that keeps its lines, after its mark. Its lines are at column `floor` at
least. -/
def blockScalar (isLiteral : Bool) (floor : Nat) (cs : List Char) : Quoted := do
  let (chomping, increment, cs) := blockHeader cs
  let cs ← afterLine? cs
  let fixed := increment.map (floor - 1 + ·)
  let blank ← blankLines fixed [] 0 0 cs
  let indent := fixed.getD (max blank.width (max floor 1))
  blockLines ⟨isLiteral, chomping.getD .clip, indent⟩ (cs.length + 1) { breaks := blank.breaks }
    blank.column blank.rest

end BlockGraph.Yaml

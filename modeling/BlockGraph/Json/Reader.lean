import BlockGraph.Json.Number

/-!
# Reading JSON

The reader is a machine that takes one character at a time. A text is refused either because a
character cannot follow what came before, or because the text ends too early; the two are told
apart by whether the machine got stuck.

* `read`: the value that a text spells.
* `maxDepth`: how many arrays and objects may be open at once.
-/

namespace BlockGraph.Json

/-- Why a text is no JSON value. -/
inductive Fault where
  /-- The text ends inside a value. -/
  | ended
  /-- A character cannot stand where it does, or a number is out of range. -/
  | malformed
  deriving DecidableEq, Repr

/-- The number of arrays and objects that may be open at once. -/
def maxDepth : Nat := 127

/-- An open array or object, its contents latest first. An object also holds the name that its
next value belongs to. -/
inductive Frame where
  | array (items : List Json)
  | object (members : List (String × Json)) (name : String)

/-- The place inside a string. -/
inductive TextMode where
  | plain
  | escape
  /-- Inside four digits, latest first; `high` is the first half of a surrogate pair. -/
  | digits (high : Option Nat) (soFar : List Char)
  /-- The first half of a surrogate pair has been read. -/
  | pair (high : Nat)
  | pairEscape (high : Nat)

/-- The place inside a number. -/
inductive NumberMode where
  | sign
  | zero
  | whole
  | point
  | fraction
  | mark
  | markSign
  | exponent
  deriving DecidableEq

def NumberMode.mayEnd : NumberMode → Bool
  | .zero | .whole | .fraction | .exponent => true
  | _ => false

/-- What the machine is waiting for. -/
inductive Mode where
  | value
  | firstItem
  | firstName
  | nextName
  | colon
  /-- A value inside an array or object is complete. -/
  | follow
  /-- The characters of a string so far, latest first. -/
  | text (isName : Bool) (soFar : List Char) (mode : TextMode)
  /-- The rest of `null`, `true` or `false`. -/
  | word (rest : List Char) (value : Json)
  | number (text : NumberText) (mode : NumberMode)
  | done (value : Json)

/-- The reader between two characters. -/
structure Reader where
  stack : List Frame := []
  mode : Mode := .value

namespace Reader

/-- Hands a complete value to the innermost open array or object. -/
def complete (stack : List Frame) (v : Json) : Reader :=
  match stack with
  | [] => ⟨[], .done v⟩
  | .array items :: rest => ⟨.array (v :: items) :: rest, .follow⟩
  | .object members name :: rest => ⟨.object ((name, v) :: members) name :: rest, .follow⟩

def enter? (stack : List Frame) (frame : Frame) (mode : Mode) : Option Reader :=
  if stack.length < maxDepth then some ⟨frame :: stack, mode⟩ else none

def closeArray? : List Frame → Option Reader
  | .array items :: rest => some (complete rest (.arr items.reverse))
  | _ => none

def closeObject? : List Frame → Option Reader
  | .object members _ :: rest => some (complete rest (.obj members.reverse))
  | _ => none

/-- The characters that may stand between the parts of a value. -/
def isBlank (c : Char) : Bool := c == ' ' || c == '\n' || c == '\t' || c == '\r'

def begin? (stack : List Frame) (c : Char) : Option Reader :=
  match c with
  | '"' => some ⟨stack, .text false [] .plain⟩
  | '[' => enter? stack (.array []) .firstItem
  | '\x7b' => enter? stack (.object [] "") .firstName
  | 'n' => some ⟨stack, .word "ull".toList .null⟩
  | 't' => some ⟨stack, .word "rue".toList (.bool true)⟩
  | 'f' => some ⟨stack, .word "alse".toList (.bool false)⟩
  | '-' => some ⟨stack, .number ⟨true, [], none, none⟩ .sign⟩
  | '0' => some ⟨stack, .number ⟨false, ['0'], none, none⟩ .zero⟩
  | c => if c.isDigit then some ⟨stack, .number ⟨false, [c], none, none⟩ .whole⟩ else none

/-- The character after a complete value: a comma or the end of an array or object. -/
def follow? (stack : List Frame) (c : Char) : Option Reader :=
  match c, stack with
  | ',', .array _ :: _ => some ⟨stack, .value⟩
  | ',', .object _ _ :: _ => some ⟨stack, .nextName⟩
  | ']', _ => closeArray? stack
  | '\x7d', _ => closeObject? stack
  | c, _ => if isBlank c then some ⟨stack, .follow⟩ else none

/-! ## Strings -/

def closeText (stack : List Frame) (isName : Bool) (soFar : List Char) : Reader :=
  let text := String.ofList soFar.reverse
  match isName, stack with
  | true, .object members _ :: rest => ⟨.object members text :: rest, .colon⟩
  | _, stack => complete stack (.str text)

def shortEscape? : Char → Option Char
  | '"' => some '"'
  | '\\' => some '\\'
  | '/' => some '/'
  | 'b' => some '\x08'
  | 'f' => some '\x0c'
  | 'n' => some '\n'
  | 'r' => some '\r'
  | 't' => some '\t'
  | _ => none

def hexDigit? (c : Char) : Option Nat :=
  if c.isDigit then some (c.toNat - '0'.toNat)
  else if 'a' ≤ c ∧ c ≤ 'f' then some (c.toNat - 'a'.toNat + 10)
  else if 'A' ≤ c ∧ c ≤ 'F' then some (c.toNat - 'A'.toNat + 10)
  else none

/-- The number that four hexadecimal digits spell, latest first. -/
def hexNumber? (ds : List Char) : Option Nat :=
  ds.foldr (fun d n => do return 16 * (← n) + (← hexDigit? d)) (some 0)

/-- A character given by its code, or the first half of a surrogate pair. -/
def codeUnit? (soFar : List Char) (high : Option Nat) (n : Nat) :
    Option (List Char × TextMode) :=
  match high with
  | none =>
    if 0xdc00 ≤ n ∧ n ≤ 0xdfff then none
    else if 0xd800 ≤ n ∧ n ≤ 0xdbff then some (soFar, .pair n)
    else some (Char.ofNat n :: soFar, .plain)
  | some h =>
    if 0xdc00 ≤ n ∧ n ≤ 0xdfff then
      some (Char.ofNat (0x10000 + (h - 0xd800) * 0x400 + (n - 0xdc00)) :: soFar, .plain)
    else none

/-- Takes one more character of an escaped code. Four bytes make up a code. -/
def escapeDigit? (soFar : List Char) (high : Option Nat) (ds : List Char) :
    Option (List Char × TextMode) :=
  if ds.foldl (fun n d => n + d.utf8Size) 0 < 4 then some (soFar, .digits high ds)
  else if ds.length = 4 then (hexNumber? ds).bind (codeUnit? soFar high)
  else none

def textStep? (stack : List Frame) (isName : Bool) (soFar : List Char) (mode : TextMode)
    (c : Char) : Option Reader :=
  let proceed (r : List Char × TextMode) : Reader := ⟨stack, .text isName r.1 r.2⟩
  match mode with
  | .plain =>
    match c with
    | '"' => some (closeText stack isName soFar)
    | '\\' => some (proceed (soFar, .escape))
    | c => if c.toNat < 0x20 then none else some (proceed (c :: soFar, .plain))
  | .escape =>
    match c with
    | 'u' => some (proceed (soFar, .digits none []))
    | c => (shortEscape? c).map fun e => proceed (e :: soFar, .plain)
  | .digits high ds => (escapeDigit? soFar high (c :: ds)).map proceed
  | .pair high => if c = '\\' then some (proceed (soFar, .pairEscape high)) else none
  | .pairEscape high => if c = 'u' then some (proceed (soFar, .digits (some high) [])) else none

/-! ## Numbers -/

/-- What a character does to a number. -/
inductive NumberStep where
  | more (text : NumberText) (mode : NumberMode)
  | stop
  | stuck

/-- One character after the beginning of a number. Digits are kept latest first. -/
def numberStep (t : NumberText) (mode : NumberMode) (c : Char) : NumberStep :=
  let digit := c.isDigit
  let isMark := c == 'e' || c == 'E'
  let whole := NumberStep.more ⟨t.negative, c :: t.whole, t.fraction, t.exponent⟩
  let fraction (ds : List Char) := NumberStep.more ⟨t.negative, t.whole, some ds, t.exponent⟩
  let exponent (negative : Bool) (ds : List Char) :=
    NumberStep.more ⟨t.negative, t.whole, t.fraction, some (negative, ds)⟩
  match mode with
  | .sign => if c == '0' then whole .zero else if digit then whole .whole else .stuck
  | .zero =>
    if digit then .stuck else if c == '.' then fraction [] .point
    else if isMark then exponent false [] .mark else .stop
  | .whole =>
    if digit then whole .whole else if c == '.' then fraction [] .point
    else if isMark then exponent false [] .mark else .stop
  | .point => if digit then fraction [c] .fraction else .stuck
  | .fraction =>
    if digit then fraction (c :: t.fraction.getD []) .fraction
    else if isMark then exponent false [] .mark else .stop
  | .mark =>
    if digit then exponent false [c] .exponent
    else if c == '-' then exponent true [] .markSign
    else if c == '+' then exponent false [] .markSign else .stuck
  | .markSign =>
    if digit then exponent ((t.exponent.map (·.1)).getD false) [c] .exponent else .stuck
  | .exponent =>
    if digit then
      let (negative, ds) := t.exponent.getD (false, [])
      exponent negative (c :: ds) .exponent
    else .stop

/-- The value of a number whose digits are kept latest first. -/
def numberValue? (t : NumberText) : Option Json :=
  NumberText.value? ⟨t.negative, t.whole.reverse, t.fraction.map List.reverse,
    t.exponent.map fun e => (e.1, e.2.reverse)⟩

/-! ## The machine -/

def betweenStep? (stack : List Frame) (mode : Mode) (c : Char) : Option Reader :=
  if isBlank c then some ⟨stack, mode⟩
  else
    match mode with
    | .value => begin? stack c
    | .firstItem => if c = ']' then closeArray? stack else begin? stack c
    | .firstName =>
      if c = '\x7d' then closeObject? stack
      else if c = '"' then some ⟨stack, .text true [] .plain⟩ else none
    | .nextName => if c = '"' then some ⟨stack, .text true [] .plain⟩ else none
    | .colon => if c = ':' then some ⟨stack, .value⟩ else none
    | .follow => follow? stack c
    | _ => none

def step? (r : Reader) (c : Char) : Option Reader :=
  match r.mode with
  | .text isName soFar mode => textStep? r.stack isName soFar mode c
  | .word rest v =>
    match rest with
    | [] => none
    | [d] => if c = d then some (complete r.stack v) else none
    | d :: ds => if c = d then some ⟨r.stack, .word ds v⟩ else none
  | .number t mode =>
    match numberStep t mode c with
    | .more t mode => some ⟨r.stack, .number t mode⟩
    | .stuck => none
    | .stop => (numberValue? t).bind fun v =>
      let after := complete r.stack v
      betweenStep? after.stack after.mode c
  | mode => betweenStep? r.stack mode c

/-- All characters of a text, one after the other. -/
def run? (r : Reader) (cs : List Char) : Option Reader := cs.foldlM step? r

def finish (r : Reader) : Except Fault Json :=
  match r.mode with
  | .done v => .ok v
  | .number t mode =>
    if mode.mayEnd then
      match numberValue? t with
      | none => .error .malformed
      | some v => if r.stack.isEmpty then .ok v else .error .ended
    else .error .ended
  | _ => .error .ended

theorem run?_append (r : Reader) (a b : List Char) :
    r.run? (a ++ b) = (r.run? a).bind (·.run? b) := by
  simp only [run?, List.foldlM_append]; rfl

end Reader

def read (text : String) : Except Fault Json :=
  match ({} : Reader).run? text.toList with
  | none => .error .malformed
  | some r => r.finish

end BlockGraph.Json

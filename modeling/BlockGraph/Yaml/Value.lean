import BlockGraph.SortedMap
import BlockGraph.Yaml.Lexer

/-!
# YAML values

A text holds one value: a scalar, a sequence or a mapping. An alias stands for a value that was
given a name. It goes by the number of the name, which is how many names were known when the name
was given; where names are given again, several may have one number, and it belongs to the value
that begins last.

* `Yaml.read`: the value that a text holds; none unless there is exactly one.
* `Yaml.Document.resolve`: the value that an alias stands for.
-/

namespace BlockGraph

/-- A YAML value with its tag, if the tag has a text. -/
inductive Yaml where
  | scalar (tag : Option String) (isPlain : Bool) (text : String)
  | sequence (tag : Option String) (items : List Yaml)
  /-- The entries as they were written; keys may be repeated. -/
  | mapping (tag : Option String) (entries : List (Yaml × Yaml))
  | alias (number : Nat)
  deriving Inhabited

namespace Yaml

def absent : Yaml := .scalar none true ""

/-- A value with the values that its aliases stand for. These may be inside one another. -/
structure Document where
  root : Yaml
  /-- The values that have names, by their numbers. -/
  named : SortedMap Nat Yaml

/-- The value itself, or the one that it stands for, which is no alias. -/
def Document.resolve (d : Document) : Yaml → Option Yaml
  | .alias number => d.named.get? number
  | v => some v

/-! ## Reading tokens -/

/-- A reader in the middle of the tokens. -/
structure Reader where
  tokens : List Token
  /-- What the handles of tags stand for. -/
  handles : List (String × Option String) :=
    [("!", some "!"), ("!!", some "tag:yaml.org,2002:")]
  /-- The numbers of the names. -/
  numbers : SortedMap String Nat := .empty
  /-- How many values with names have begun. -/
  begun : Nat := 0
  /-- Which of them the numbers belong to. -/
  owners : SortedMap Nat Nat := .empty
  /-- The values that have ended, by their numbers. -/
  named : SortedMap Nat Yaml := .empty

abbrev Read := StateT Reader Option

namespace Read

def peek : Read (Option Token) := return (← get).tokens.head?

def advance : Read Unit := modify fun r => { r with tokens := r.tokens.tail }

/-- Goes past the next token if it is `t`, and tells whether it was. -/
def accept (t : Token) : Read Bool := do
  if (← peek) == some t then
    advance
    return true
  return false

/-- Goes past the next token, which must be `t`. -/
def expect (t : Token) : Read Unit := do
  if !(← accept t) then failure

/-- Whether the next token is one of `ts` or there is none. -/
def atAny (ts : List Token) : Read Bool := return (← peek).all ts.contains

/-- The text of a tag, if it has one. Its handle must be known. -/
def fullTag (handle : String) (suffix : Option String) : Read (Option String) := do
  if handle.isEmpty then return suffix
  match (← get).handles.lookup handle with
  | some start => return start.bind fun s => suffix.map (s ++ ·)
  | none => failure

/-- What may stand in front of a value. -/
structure Marks where
  anchor : Option String := none
  /-- The text of a tag. A tag may have none. -/
  tag : Option (Option String) := none

/-- Reads an anchor and a tag, in either order. `fuel` bounds their number. -/
def marks : (fuel : Nat) → Marks → Read Marks
  | 0, m => return m
  | fuel + 1, m => do
    match ← peek with
    | some (.anchor name) =>
      if m.anchor.isSome then return m
      advance
      marks fuel { m with anchor := some name }
    | some (.tag handle suffix) =>
      if m.tag.isSome then return m
      advance
      marks fuel { m with tag := some (← fullTag handle suffix) }
    | _ => return m

/-- A value with a name that has begun. -/
structure Named where
  number : Nat
  /-- How many others began before it. -/
  place : Nat

/-- Begins a value, which may have a name. -/
def enter (anchor : Option String) : Read (Option Named) := do
  match anchor with
  | some name =>
    let r ← get
    let v : Named := ⟨r.numbers.size, r.begun⟩
    set { r with
      numbers := r.numbers.insert name v.number
      begun := r.begun + 1
      owners := r.owners.insert v.number v.place }
    return some v
  | none => return none

/-- Ends a value. Its aliases stand for it unless a later one has its number. -/
def leave (entered : Option Named) (v : Yaml) : Read Unit :=
  match entered with
  | some n =>
    modify fun r =>
      if r.owners.get? n.number == some n.place then
        { r with named := r.named.insert n.number v }
      else r
  | none => return

/-- A value unless one of `ends` follows, which leaves it out. -/
def orAbsent (ends : List Token) (value : Read Yaml) : Read Yaml := do
  if ← atAny ends then return absent
  value

mutual

/-- Reads a value. `isBlock` allows indented collections, and `isEntry` a sequence that is not
indented, as the value of a mapping. A lone exclamation mark is no tag of a scalar. -/
def value (isBlock isEntry : Bool) : (fuel : Nat) → Read Yaml
  | 0 => failure
  | fuel + 1 => do
    if let some (.alias name) ← peek then
      advance
      return .alias (← (← get).numbers.get? name)
    let m ← marks 2 {}
    let tag := m.tag.join
    let entered ← enter m.anchor
    let content : Read Yaml := do
      match ← peek with
      | some (.scalar isPlain text) =>
        advance
        return .scalar (tag.filter (· != "!")) isPlain text
      | some .flowSequenceStart =>
        advance
        return .sequence tag (← flowItems true fuel)
      | some .flowMappingStart =>
        advance
        return .mapping tag (← flowEntries true fuel)
      | some .blockEntry =>
        if isEntry then return .sequence tag (← entryItems fuel)
        if m.anchor.isSome || m.tag.isSome then return .scalar tag true ""
        failure
      | some .blockSequenceStart =>
        if !isBlock then failure
        advance
        return .sequence tag (← blockItems fuel)
      | some .blockMappingStart =>
        if !isBlock then failure
        advance
        return .mapping tag (← blockEntries fuel)
      | _ =>
        if m.anchor.isSome || m.tag.isSome then return .scalar tag true ""
        failure
    let v ← content
    leave entered v
    return v

def blockItems : (fuel : Nat) → Read (List Yaml)
  | 0 => failure
  | fuel + 1 => do
    if ← accept .blockEnd then return []
    expect .blockEntry
    let item ← orAbsent [.blockEntry, .blockEnd] (value true false fuel)
    return item :: (← blockItems fuel)

/-- Reads the items of a sequence that is not indented. -/
def entryItems : (fuel : Nat) → Read (List Yaml)
  | 0 => failure
  | fuel + 1 => do
    if !(← accept .blockEntry) then return []
    let item ← orAbsent [.blockEntry, .key, .value, .blockEnd] (value true false fuel)
    return item :: (← entryItems fuel)

def blockEntries : (fuel : Nat) → Read (List (Yaml × Yaml))
  | 0 => failure
  | fuel + 1 => do
    if ← accept .blockEnd then return []
    expect .key
    let k ← orAbsent [.key, .value, .blockEnd] (value true true fuel)
    let v ←
      if ← accept .value then orAbsent [.key, .value, .blockEnd] (value true true fuel)
      else pure absent
    return (k, v) :: (← blockEntries fuel)

def flowItems (isFirst : Bool) : (fuel : Nat) → Read (List Yaml)
  | 0 => failure
  | fuel + 1 => do
    if ← accept .flowSequenceEnd then return []
    if !isFirst then expect .flowEntry
    if ← accept .flowSequenceEnd then return []
    let item ←
      if ← accept .key then do
        let k ← orAbsent [.value, .flowEntry, .flowSequenceEnd] (value false false fuel)
        let v ←
          if ← accept .value then orAbsent [.flowEntry, .flowSequenceEnd] (value false false fuel)
          else pure absent
        pure (Yaml.mapping none [(k, v)])
      else value false false fuel
    return item :: (← flowItems false fuel)

def flowEntries (isFirst : Bool) : (fuel : Nat) → Read (List (Yaml × Yaml))
  | 0 => failure
  | fuel + 1 => do
    if ← accept .flowMappingEnd then return []
    if !isFirst then expect .flowEntry
    if ← accept .flowMappingEnd then return []
    let entry ←
      if ← accept .key then do
        let k ← orAbsent [.value, .flowEntry, .flowMappingEnd] (value false false fuel)
        let v ←
          if ← accept .value then orAbsent [.flowEntry, .flowMappingEnd] (value false false fuel)
          else pure absent
        pure (k, v)
      else do
        let k ← value false false fuel
        pure (k, absent)
    return entry :: (← flowEntries false fuel)

end

/-! ## Documents -/

/-- Reads directives, each of them once. `fuel` bounds their number. -/
def directives : (fuel : Nat) → (seen : List String) → Read Bool
  | 0, _ => failure
  | fuel + 1, seen => do
    match ← peek with
    | some .version =>
      if seen.contains "" then failure
      advance
      directives fuel ("" :: seen)
    | some (.handle handle start) =>
      if seen.contains handle then failure
      advance
      modify fun r => { r with handles := (handle, start) :: r.handles }
      directives fuel (handle :: seen)
    | _ => return !seen.isEmpty

/-- Reads the marks for the end of a document. `fuel` bounds their number. -/
def documentEnds : (fuel : Nat) → Read Unit
  | 0 => return
  | fuel + 1 => do
    if ← accept .documentEnd then documentEnds fuel

def document : Read Document := do
  let fuel := 4 * (← get).tokens.length + 4
  let hasDirectives ← directives fuel []
  let isMarked ← accept .documentStart
  if hasDirectives && !isMarked then failure
  let root ←
    if isMarked then
      orAbsent [.documentStart, .documentEnd, .version] (value true false fuel)
    else value true false fuel
  documentEnds fuel
  let r ← get
  if r.tokens.isEmpty then return ⟨root, r.named⟩
  failure

end Read

def read (text : String) : Option Document := do
  let ts ← tokens text
  Read.document.run' { tokens := ts }

end Yaml

end BlockGraph

import BlockGraph.Json.Value
import BlockGraph.SortedMap
import BlockGraph.Text.Quoted

/-!
# Records in JSON

Reading a JSON value as a record, a list, a text or a number. An object is read in the order of
its names, the last of equal names counting; an array gives the fields of a record in order. The
first thing that does not fit is reported.

* `readRecord`: the fields of a record.
* `ShapeFault.message`: the report.
-/

namespace BlockGraph.Json

/-! ## Faults -/

/-- What a value is, as far as a report shows it. -/
inductive Seen where
  | null
  | bool (value : Bool)
  | int (value : Int)
  | float (value : Float)
  | str (text : String)
  | sequence
  | map
  deriving DecidableEq, Repr

def seen : Json → Seen
  | .null => .null
  | .bool b => .bool b
  | .int n => .int n
  | .float f => .float f
  | .str s => .str s
  | .arr _ => .sequence
  | .obj _ => .map

def ticked (text : String) : String := "`" ++ text ++ "`"

def Seen.describe : Seen → String
  | .null => "null"
  | .bool b => "boolean " ++ ticked (if b then "true" else "false")
  | .int n => "integer " ++ ticked (toString n)
  | .float f => "floating point " ++ ticked (Decimal.pointed.write f)
  | .str s => "string " ++ Text.quoted s
  | .sequence => "sequence"
  | .map => "map"

/-- Why a JSON value does not have the expected shape. -/
inductive ShapeFault where
  | unknownField (name : String) (expected : List String)
  | missingField (name : String)
  | wrongType (seen : Seen) (expected : String)
  | outOfRange (value : Int) (expected : String)
  | wrongLength (length : Nat) (expected : String)
  deriving DecidableEq, Repr

def oneOf : List String → String
  | [] => "nothing"
  | [a] => ticked a
  | [a, b] => ticked a ++ " or " ++ ticked b
  | names => "one of " ++ ", ".intercalate (names.map ticked)

def ShapeFault.message : ShapeFault → String
  | .unknownField name expected =>
    "unknown field " ++ ticked name ++ ", expected " ++ oneOf expected
  | .missingField name => "missing field " ++ ticked name
  | .wrongType seen expected => "invalid type: " ++ seen.describe ++ ", expected " ++ expected
  | .outOfRange n expected =>
    "invalid value: integer " ++ ticked (toString n) ++ ", expected " ++ expected
  | .wrongLength n expected => "invalid length " ++ toString n ++ ", expected " ++ expected

abbrev Shaped (α : Type) := Except ShapeFault α

/-! ## Plain values -/

def readText : Json → Shaped String
  | .str s => .ok s
  | j => .error (.wrongType j.seen "a string")

def readBool : Json → Shaped Bool
  | .bool b => .ok b
  | j => .error (.wrongType j.seen "a boolean")

def readInt64 : Json → Shaped Int64
  | .int n =>
    if -0x8000000000000000 ≤ n ∧ n < 0x8000000000000000 then .ok (Int64.ofInt n)
    else .error (.outOfRange n "i64")
  | j => .error (.wrongType j.seen "i64")

def readUInt32 : Json → Shaped UInt32
  | .int n =>
    if 0 ≤ n ∧ n < 0x100000000 then .ok (UInt32.ofNat n.toNat) else .error (.outOfRange n "u32")
  | j => .error (.wrongType j.seen "u32")

/-- A value that may be `null`. -/
def readOptional {α : Type} (read : Json → Shaped α) : Json → Shaped (Option α)
  | .null => .ok none
  | j => (read j).map some

def readTextMap : Json → Shaped (SortedMap String String)
  | .obj members => do
    let entries ← (SortedMap.ofList members).entries.mapM fun e => do return (e.1, ← readText e.2)
    return .ofList entries
  | j => .error (.wrongType j.seen "a map")

/-- The items of an array, each read with the knowledge that it is one. -/
def readList {α : Type} (j : Json) (read : (item : Json) → item ∈ j.children → Shaped α) :
    Shaped (List α) :=
  match j with
  | .arr items => items.attach.mapM fun item => read item.1 item.2
  | j => .error (.wrongType j.seen "a sequence")

/-! ## Records -/

/-- The fields of a record in order, each with whether it must be given. -/
structure Layout where
  name : String
  fields : List (String × Bool)
  /-- Whether further names are refused. -/
  closed : Bool := true

namespace Layout

def names (l : Layout) : List String := l.fields.map (·.1)

def expected (l : Layout) : String := "struct " ++ l.name

/-- What a report expects of an array that stands for a record. -/
def expectedLength (l : Layout) : String :=
  l.expected ++ " with " ++ toString l.fields.length ++
    (if l.fields.length = 1 then " element" else " elements")

end Layout

theorem snd_mem_children {e : String × Json} {members : List (String × Json)}
    (h : e ∈ (SortedMap.ofList members).entries) : e.2 ∈ (Json.obj members).children :=
  List.mem_map.2 ⟨e, SortedMap.mem_entries_ofList h, rfl⟩

/-- Reads a record field by field, starting from `start`. -/
def readRecord {σ : Type} (l : Layout) (start : σ) (j : Json)
    (field : σ → String → (v : Json) → v ∈ j.children → Shaped σ) : Shaped σ :=
  match j with
  | .obj members => do
    let sorted := SortedMap.ofList members
    let out ← sorted.entries.attach.foldlM (fun s e =>
      if e.1.1 ∈ l.names then field s e.1.1 e.1.2 (snd_mem_children e.2)
      else if l.closed then throw (.unknownField e.1.1 l.names)
      else pure s) start
    match l.fields.find? (fun f => f.2 && !sorted.contains f.1) with
    | some f => throw (.missingField f.1)
    | none => return out
  | .arr items => do
    let out ← l.fields.zipIdx.foldlM (fun s f =>
      if h : f.2 < items.length then field s f.1.1 items[f.2] (List.getElem_mem h)
      else if f.1.2 then throw (.wrongLength f.2 l.expectedLength)
      else pure s) start
    if l.fields.length < items.length then
      throw (.wrongLength items.length "fewer elements in array")
    return out
  | j => .error (.wrongType j.seen l.expected)

end BlockGraph.Json

import BlockGraph.Document
import BlockGraph.Error
import BlockGraph.Json.Printer
import BlockGraph.Json.Reader

/-!
# The format of documents

Documents are written as JSON. Fields that have their default value are left out when writing and
may be left out when reading; the version is checked before anything else is looked at.

* `Document.read`: the document that a text spells.
* `Document.write`: the text of a document.
-/

namespace BlockGraph

open Json

/-! ## Layouts -/

namespace Layouts

def document : Json.Layout where
  name := "Document"
  fields := [("formatVersion", true), ("description", false), ("tags", false),
    ("instances", false)]
  closed := false

def chain : Json.Layout where
  name := "InstanceDoc"
  fields := [("x", false), ("y", false), ("blocks", false)]

def block : Json.Layout where
  name := "BlockDoc"
  fields := [("id", false), ("type", true), ("disabled", false), ("collapsed", false),
    ("inline", false), ("deletable", false), ("movable", false), ("editable", false),
    ("inTask", false), ("mutation", false), ("comment", false), ("fields", false),
    ("values", false), ("statements", false), ("annotations", false)]

def comment : Json.Layout where
  name := "CommentDoc"
  fields := [("text", true), ("pinned", false), ("w", false), ("h", false)]

def field : Json.Layout where
  name := "FieldDoc"
  fields := [("name", true), ("value", true)]

def value : Json.Layout where
  name := "ValueDoc"
  fields := [("name", true), ("block", true)]

def statement : Json.Layout where
  name := "StatementDoc"
  fields := [("name", true), ("blocks", false)]

def annotation : Json.Layout where
  name := "AnnotationDoc"
  fields := [("severity", true), ("code", true), ("message", true)]
  closed := false

end Layouts

/-! ## Reading -/

def Comment.ofJson (j : Json) : Shaped Comment :=
  readRecord Layouts.comment ⟨"", false, none, none⟩ j fun c name v _ =>
    match name with
    | "text" => return { c with text := ← readText v }
    | "pinned" => return { c with pinned := ← readBool v }
    | "w" => return { c with width := ← readOptional readUInt32 v }
    | "h" => return { c with height := ← readOptional readUInt32 v }
    | _ => return c

def FieldSlot.ofJson (j : Json) : Shaped FieldSlot :=
  readRecord Layouts.field ⟨"", ""⟩ j fun s name v _ =>
    match name with
    | "name" => return { s with name := ← readText v }
    | "value" => return { s with value := ← readText v }
    | _ => return s

def Annotation.ofJson (j : Json) : Shaped Annotation :=
  readRecord Layouts.annotation ⟨"", "", ""⟩ j fun a name v _ =>
    match name with
    | "severity" => return { a with severity := ← readText v }
    | "code" => return { a with code := ← readText v }
    | "message" => return { a with message := ← readText v }
    | _ => return a

/-- A named block, by way of a reader for what is inside the value. -/
def ValueSlot.ofJson (j : Json) (readBlock : (b : Json) → b ∈ j.children → Shaped Block) :
    Shaped (ValueSlot Block) :=
  readRecord Layouts.value ⟨"", .mk {}⟩ j fun s name v mem =>
    match name with
    | "name" => return { s with name := ← readText v }
    | "block" => return { s with block := ← readBlock v mem }
    | _ => return s

/-- A named chain, by way of a reader for the chain. -/
def StatementSlot.ofJson (j : Json)
    (readBlocks : (bs : Json) → bs ∈ j.children → Shaped (List Block)) :
    Shaped (StatementSlot Block) :=
  readRecord Layouts.statement ⟨"", []⟩ j fun s name v mem =>
    match name with
    | "name" => return { s with name := ← readText v }
    | "blocks" => return { s with blocks := ← readBlocks v mem }
    | _ => return s

def BlockLayer.setField {α : Type} (l : BlockLayer α) (name : String) (v : Json) :
    Shaped (BlockLayer α) :=
  let a := l.attributes
  match name with
  | "id" => return { l with id := ← readText v }
  | "type" => return { l with type := ← readText v }
  | "disabled" => return { l with attributes := { a with disabled := ← readBool v } }
  | "collapsed" => return { l with attributes := { a with collapsed := ← readBool v } }
  | "inline" => return { l with attributes := { a with inline := ← readBool v } }
  | "deletable" => return { l with attributes := { a with deletable := ← readBool v } }
  | "movable" => return { l with attributes := { a with movable := ← readBool v } }
  | "editable" => return { l with attributes := { a with editable := ← readBool v } }
  | "inTask" => return { l with attributes := { a with inTask := ← readOptional readBool v } }
  | "mutation" => return { l with attributes := { a with mutation := ← readTextMap v } }
  | "comment" => return { l with comment := ← readOptional Comment.ofJson v }
  | "fields" => return { l with fields := ← readList v fun f _ => FieldSlot.ofJson f }
  | "annotations" => return { l with annotations := ← readList v fun a _ => Annotation.ofJson a }
  | _ => return l

def Block.ofJson (j : Json) : Shaped Block := do
  let layer ← readRecord Layouts.block ({} : BlockLayer Block) j fun l name v _ =>
    match name with
    | "values" => do
      let values ← readList v fun s _ => ValueSlot.ofJson s fun b _ => Block.ofJson b
      return { l with values }
    | "statements" => do
      let statements ← readList v fun s _ =>
        StatementSlot.ofJson s fun bs _ => readList bs fun b _ => Block.ofJson b
      return { l with statements }
    | name => l.setField name v
  return .mk layer
termination_by sizeOf j
decreasing_by
  all_goals
    have h₁ := Json.sizeOf_lt_of_mem_children ‹v ∈ j.children›
    have h₂ := Json.sizeOf_lt_of_mem_children ‹s ∈ v.children›
  · have h₃ := Json.sizeOf_lt_of_mem_children ‹b ∈ s.children›
    omega
  · have h₃ := Json.sizeOf_lt_of_mem_children ‹bs ∈ s.children›
    have h₄ := Json.sizeOf_lt_of_mem_children ‹b ∈ bs.children›
    omega

def Chain.ofJson (j : Json) : Shaped Chain :=
  readRecord Layouts.chain {} j fun c name v _ =>
    match name with
    | "x" => return { c with x := ← readInt64 v }
    | "y" => return { c with y := ← readInt64 v }
    | "blocks" => return { c with blocks := ← readList v fun b _ => Block.ofJson b }
    | _ => return c

def Document.ofJson (j : Json) : Shaped Document :=
  readRecord Layouts.document ⟨"", "", [], []⟩ j fun d name v _ =>
    match name with
    | "formatVersion" => return { d with formatVersion := ← readText v }
    | "description" => return { d with description := ← readText v }
    | "tags" => return { d with tags := ← readList v fun t _ => readText t }
    | "instances" => return { d with instances := ← readList v fun c _ => Chain.ofJson c }
    | _ => return d

def checkVersion (version : String) : Except Error Unit :=
  if version ∈ supportedVersions then .ok () else .error (.unsupportedVersion version)

/-- The version that a value claims to have; empty if it claims none. -/
def claimedVersion : Json → String
  | .obj members =>
    match (SortedMap.ofList members).get? "formatVersion" with
    | some (.str version) => version
    | _ => ""
  | _ => ""

/-- The document that a text spells. The version is checked once the text is known to be JSON,
and the shape after that. -/
def Document.read (text : String) : Except Error Document :=
  match Json.read text with
  | .error .ended => .error (.document .ended)
  | .error .malformed => .error (.document .malformed)
  | .ok j => do
    checkVersion (claimedVersion j)
    match Document.ofJson j with
    | .ok d => return d
    | .error fault => throw (.document (.shape fault))

/-! ## Writing -/

/-- A member, unless it has its default value. -/
def unlessDefault (name : String) (isDefault : Bool) (v : Json) : List (String × Json) :=
  if isDefault then [] else [(name, v)]

/-- A member that is left out if the list is empty. -/
def unlessEmpty (name : String) (items : List Json) : List (String × Json) :=
  unlessDefault name items.isEmpty (.arr items)

/-- A member that is left out if there is no value. -/
def ifPresent (name : String) (v : Option Json) : List (String × Json) :=
  match v with
  | none => []
  | some v => [(name, v)]

def Comment.toJson (c : Comment) : Json :=
  .obj <|
    [("text", .str c.text)] ++
    unlessDefault "pinned" (!c.pinned) (.bool c.pinned) ++
    ifPresent "w" (c.width.map fun n => .int n.toNat) ++
    ifPresent "h" (c.height.map fun n => .int n.toNat)

def FieldSlot.toJson (s : FieldSlot) : Json :=
  .obj [("name", .str s.name), ("value", .str s.value)]

def Annotation.toJson (a : Annotation) : Json :=
  .obj [("severity", .str a.severity), ("code", .str a.code), ("message", .str a.message)]

def Attributes.toMembers (a : Attributes) : List (String × Json) :=
  unlessDefault "disabled" (!a.disabled) (.bool a.disabled) ++
  unlessDefault "collapsed" (!a.collapsed) (.bool a.collapsed) ++
  unlessDefault "inline" (!a.inline) (.bool a.inline) ++
  unlessDefault "deletable" a.deletable (.bool a.deletable) ++
  unlessDefault "movable" a.movable (.bool a.movable) ++
  unlessDefault "editable" a.editable (.bool a.editable) ++
  ifPresent "inTask" (a.inTask.map .bool) ++
  unlessDefault "mutation" a.mutation.isEmpty
    (.obj (a.mutation.entries.map fun e => (e.1, .str e.2)))

def Block.toJson : Block → Json :=
  recurse fun l =>
    .obj <|
      [("id", .str l.id), ("type", .str l.type)] ++
      l.attributes.toMembers ++
      ifPresent "comment" (l.comment.map Comment.toJson) ++
      unlessEmpty "fields" (l.fields.map FieldSlot.toJson) ++
      unlessEmpty "values"
        (l.values.map fun s => .obj [("name", .str s.name), ("block", s.block.result)]) ++
      unlessEmpty "statements"
        (l.statements.map fun s =>
          .obj [("name", .str s.name), ("blocks", .arr (s.blocks.map (·.result)))]) ++
      unlessEmpty "annotations" (l.annotations.map Annotation.toJson)

def Chain.toJson (c : Chain) : Json :=
  .obj [("x", .int c.x.toInt), ("y", .int c.y.toInt), ("blocks", .arr (c.blocks.map Block.toJson))]

def Document.toJson (d : Document) : Json :=
  .obj <|
    [("formatVersion", .str d.formatVersion)] ++
    unlessDefault "description" d.description.isEmpty (.str d.description) ++
    unlessEmpty "tags" (d.tags.map .str) ++
    [("instances", .arr (d.instances.map Chain.toJson))]

def Document.write (d : Document) : String := d.toJson.pretty

end BlockGraph

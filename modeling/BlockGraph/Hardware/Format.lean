import BlockGraph.Error
import BlockGraph.Hardware.Config
import BlockGraph.Json.Reader
import BlockGraph.Yaml.Value

/-!
# The formats of hardware configurations

A configuration is written as JSON or as YAML. Both say the same things; they differ in what counts
as a text, a record or a list. A record names each of its fields at most once, while of entries for
one port the last counts.

* `HardwareConfig.readJson`, `HardwareConfig.readYaml`: the configuration that a text spells.
-/

namespace BlockGraph

/-- How a format presents the parts of a configuration. -/
structure ConfigSyntax (α : Type) where
  text? : α → Option String
  category? : α → Option ComponentCategory
  /-- The items of a list. -/
  items? : α → Option (List α)
  /-- The entries of a map, in the order in which they were written. -/
  entries? : α → Option (List (String × α))
  /-- The fields of a record whose fields have the given names. -/
  fields? : (names : List String) → α → Option (List (String × α))

namespace ConfigSyntax

/-- Members as the fields of a record: their names are known and differ from each other. -/
def distinctFields {α : Type} (names : List String) (members : List (String × α)) :
    Option (List (String × α)) :=
  let given := members.map (·.1)
  if given.all names.contains && given.Nodup then some members else none

variable {α : Type} (format : ConfigSyntax α)

def fieldOr {β : Type} (fields : List (String × α)) (name : String) (default : β)
    (read : α → Option β) : Option β :=
  match fields.lookup name with
  | some v => read v
  | none => some default

def component? (v : α) : Option Component := do
  let fields ← format.fields? ["category", "kind"] v
  let category ← format.category? (← fields.lookup "category")
  let kind ← fieldOr fields "kind" "" format.text?
  return { category, kind }

def components? (v : α) : Option (SortedMap String Component) := do
  let entries ← (← format.entries? v).mapM fun e => do return (e.1, ← format.component? e.2)
  return .ofList entries

def capabilities? (v : α) : Option (SortedSet String) := do
  return .ofMembers (← (← format.items? v).mapM format.text?)

def config? (v : α) : Option HardwareConfig := do
  let fields ← format.fields? ["robot", "components", "capabilities"] v
  let robot ← format.text? (← fields.lookup "robot")
  let components ← fieldOr fields "components" .empty format.components?
  let capabilities ← fieldOr fields "capabilities" .empty format.capabilities?
  return { robot, components, capabilities }

end ConfigSyntax

/-! ## JSON -/

namespace Json

def text? : Json → Option String
  | .str text => some text
  | _ => none

def items? : Json → Option (List Json)
  | .arr items => some items
  | _ => none

def members? : Json → Option (List (String × Json))
  | .obj members => some members
  | _ => none

/-- A category, as a text or as an object with nothing in it but the name. -/
def category? : Json → Option ComponentCategory
  | .str name => ComponentCategory.ofName? name
  | .obj [(name, .null)] => ComponentCategory.ofName? name
  | _ => none

/-- A record, as an object or as an array of its fields in order. -/
def configFields? (names : List String) : Json → Option (List (String × Json))
  | .obj members => ConfigSyntax.distinctFields names members
  | .arr items => if items.length ≤ names.length then some (names.zip items) else none
  | _ => none

end Json

def ConfigSyntax.json : ConfigSyntax Json where
  text? := Json.text?
  category? := Json.category?
  items? := Json.items?
  entries? := Json.members?
  fields? := Json.configFields?

/-! ## YAML -/

namespace Yaml

def isNull : Yaml → Bool
  | .scalar _ true text => ["", "~", "null", "Null", "NULL"].contains text
  | _ => false

namespace Document

variable (d : Document)

/-- A text, which any scalar is. -/
def text? (v : Yaml) : Option String := do
  match ← d.resolve v with
  | .scalar _ _ text => some text
  | _ => none

/-- The items of a sequence; what is left out has none. -/
def items? (v : Yaml) : Option (List Yaml) := do
  match ← d.resolve v with
  | .sequence _ items => some items
  | .scalar _ true "" => some []
  | _ => none

/-- The entries of a mapping whose keys are scalars; what is left out has none. -/
def entries? (v : Yaml) : Option (List (String × Yaml)) := do
  match ← d.resolve v with
  | .mapping _ entries => entries.mapM fun e => do return (← d.text? e.1, e.2)
  | .scalar _ true "" => some []
  | _ => none

/-- A category, as a scalar or as a tag of nothing. -/
def category? (v : Yaml) : Option ComponentCategory := do
  let v ← d.resolve v
  match v with
  | .scalar (some tag) _ text =>
    match tag.toList with
    | '!' :: name => if v.isNull then ComponentCategory.ofName? (String.ofList name) else none
    | _ => ComponentCategory.ofName? text
  | .scalar none _ text => ComponentCategory.ofName? text
  | _ => none

/-- A record, as a mapping. -/
def fields? (names : List String) (v : Yaml) : Option (List (String × Yaml)) := do
  ConfigSyntax.distinctFields names (← d.entries? v)

end Document

end Yaml

def ConfigSyntax.yaml (d : Yaml.Document) : ConfigSyntax Yaml where
  text? := d.text?
  category? := d.category?
  items? := d.items?
  entries? := d.entries?
  fields? := d.fields?

/-! ## Reading -/

namespace HardwareConfig

/-- A configuration, if there is one. -/
def orUnreadable (c : Option HardwareConfig) : Except Error HardwareConfig :=
  match c with
  | some c => .ok c
  | none => .error (.config .unreadable)

def readJson (text : String) : Except Error HardwareConfig :=
  orUnreadable ((Json.read text).toOption.bind ConfigSyntax.json.config?)

def readYaml (text : String) : Except Error HardwareConfig :=
  orUnreadable ((Yaml.read text).bind fun d => (ConfigSyntax.yaml d).config? d.root)

end HardwareConfig

end BlockGraph

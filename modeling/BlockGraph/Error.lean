import BlockGraph.Json.Record
import BlockGraph.Kind
import BlockGraph.Version

/-!
# Errors

Everything that ends an operation. An error says what was wrong; its words are in
`Error.message`. What a validation run finds in a program is no error but a diagnostic.

* `Error.isContractViolation`: whether the author of a pass is to blame, and not the input.
-/

namespace BlockGraph

/-! ## Faults of blocks -/

/-- What a slot holds, seen from outside. -/
inductive SlotShape where
  | literal
  | value
  | statement
  | optionalStatement
  | repeated
  deriving DecidableEq, Repr

def SlotShape.name : SlotShape → String
  | literal => "literal"
  | value => "value"
  | statement => "statement"
  | optionalStatement => "optional statement"
  | repeated => "repeated slot"

/-- What is wrong with a block. -/
inductive BlockFault where
  | emptyId (type : String)
  | duplicateId
  | unknownType (type : String)
  | duplicateSlot (name : String)
  | missingField (name : String)
  | expressionInChain (type slot : String)
  | statementInValue (type slot : String)
  | unusedSlot (name type : String)
  /-- A declared number of branches is no number. -/
  | badBranchCount (text : String)
  /-- A numbered slot is not numbered as it should be. -/
  | badNumber (name family : String)
  | numberTwice (family : String) (number : Nat)
  /-- A numbered slot is beyond the declared number of branches. -/
  | beyondCount (family : String) (number count : Nat)
  /-- Too many of the declared branches are absent. -/
  | tooFewPresent (family : String) (count present : Nat)
  | badElse (text : String)
  | undeclaredElse
  /-- More slots are read than there are. -/
  | tableExhausted (entries : Nat)
  | wrongShape (spec : FieldSpec) (found : SlotShape)
  | badChoice (text : String) (field : Option String)
  | badFlag (text : String) (field : Option String)
  | slotCount (rows consumed : Nat)
  | branchMismatch (conditions branches : Nat)
  | noTable (kind : Kind)
  deriving DecidableEq, Repr

def BlockFault.reason : BlockFault → String
  | emptyId type => "'" ++ type ++ "' block has an empty id"
  | duplicateId => "duplicate block id"
  | unknownType type => "unknown block type '" ++ type ++ "'"
  | duplicateSlot name => "duplicate slot '" ++ name ++ "'"
  | missingField name => "missing field '" ++ name ++ "'"
  | expressionInChain type slot =>
    "expression block '" ++ type ++ "' cannot sit in statement slot '" ++ slot ++ "'"
  | statementInValue type slot =>
    "statement block '" ++ type ++ "' cannot fill value slot '" ++ slot ++ "'"
  | unusedSlot name type => "slot '" ++ name ++ "' is not used by " ++ type
  | badBranchCount text => "mutation elseif='" ++ text ++ "' is not a branch count"
  | badNumber name family => "slot '" ++ name ++ "' is not a " ++ family ++ "<n> slot name"
  | numberTwice family number => "slot '" ++ family ++ toString number ++ "' is given twice"
  | beyondCount family number count =>
    "slot '" ++ family ++ toString number ++ "' exceeds the " ++ toString count ++
      " declared by the mutation"
  | tooFewPresent family count present =>
    toString count ++ " '" ++ family ++ "' slots declared but only " ++ toString present ++
      " present"
  | badElse text => "mutation else='" ++ text ++ "' is not 0 or 1"
  | undeclaredElse => "ELSE branch present but the mutation declares none"
  | tableExhausted entries => "slot table exhausted after " ++ toString entries ++ " entries"
  | wrongShape spec found =>
    "slot " ++ spec.external ++ " (" ++ spec.internal ++ ") holds a " ++ found.name ++ " but " ++
      spec.mode.name ++ " was expected"
  | badChoice text field => "invalid value '" ++ text ++ "' for field " ++ field.getD "?"
  | badFlag text field =>
    "field " ++ field.getD "?" ++ " must be TRUE or FALSE, found '" ++ text ++ "'"
  | slotCount rows consumed =>
    "slot count mismatch: table has " ++ toString rows ++ " entries, " ++ toString consumed ++
      " consumed"
  | branchMismatch conditions branches =>
    "if block needs matching conditions and branches, found " ++ toString conditions ++ " and " ++
      toString branches
  | noTable kind => kind.structuralName ++ " has no slot table"

/-! ## Breaches of contract -/

/-- A part of a node that is set while the node is built. -/
inductive NodePart where
  | properties
  | comment
  | phrase
  deriving DecidableEq, Repr

def NodePart.name : NodePart → String
  | properties => "properties"
  | comment => "comment"
  | phrase => "phrase"

/-- What a pass did that it must not. -/
inductive Breach where
  | sealedNode (part : NodePart)
  | noNode
  | notAChain
  | chainAsValue
  | structuralBlock
  deriving DecidableEq, Repr

def Breach.message : Breach → String
  | sealedNode part => "cannot set " ++ part.name ++ " on a sealed node"
  | noNode => "rewrite visitor returned a non-node result"
  | notAChain => "statement slot must hold a statement list"
  | chainAsValue => "value slot cannot hold a statement list"
  | structuralBlock => "structural node rendered as a block"

/-! ## Errors -/

/-- Why a text is no document. -/
inductive DocumentFault where
  /-- The text ends inside a value. -/
  | ended
  /-- The text is no JSON. -/
  | malformed
  /-- The JSON value has another shape. -/
  | shape (fault : Json.ShapeFault)
  deriving DecidableEq, Repr

/-- What is wrong with a hardware configuration. -/
inductive ConfigFault where
  | unreadable
  | platformTwice (name : String)
  deriving DecidableEq, Repr

/-- Why an operation failed. -/
inductive Error where
  | contract (kind : Kind) (breach : Breach)
  | unsupportedVersion (found : String)
  | malformed (blockId : String) (fault : BlockFault)
  | document (fault : DocumentFault)
  | unknownPlatform (name : String) (known : List String)
  | duplicateKind (type : String)
  | config (fault : ConfigFault)
  | io (path : String)
  deriving DecidableEq, Repr

namespace Error

/-- Whether the author of a pass or a plugin made a mistake, rather than the input. -/
def isContractViolation : Error → Bool
  | contract .. | duplicateKind .. => true
  | _ => false

def message : Error → String
  | contract kind breach =>
    "contract violation on " ++ kind.name ++ " node: " ++ breach.message
  | unsupportedVersion found => "unsupported block-graph format version '" ++ found ++ "'"
  | malformed blockId fault =>
    "malformed program at block '" ++ blockId ++ "': " ++ fault.reason
  | document fault =>
    "document is not a valid block graph: " ++
      match fault with
      | .ended => "unexpected end of input"
      | .malformed => "invalid JSON"
      | .shape fault => fault.message
  | unknownPlatform name _ => "unknown platform '" ++ name ++ "'"
  | duplicateKind type => "block type '" ++ type ++ "' is already registered"
  | config fault =>
    "invalid hardware configuration: " ++
      match fault with
      | .unreadable => "unreadable text"
      | .platformTwice name => "platform '" ++ name ++ "' is registered twice"
  | io path => "i/o error on '" ++ path ++ "': no such file or directory"

def code : Error → String
  | contract .. => "blockforge::contract"
  | unsupportedVersion .. => "blockforge::mapper::version"
  | malformed .. => "blockforge::mapper::malformed"
  | document .. => "blockforge::mapper::syntax"
  | unknownPlatform .. => "blockforge::platform"
  | duplicateKind .. => "blockforge::registry::duplicate"
  | config .. => "blockforge::config"
  | io .. => "blockforge::io"

def help? : Error → Option String
  | contract .. =>
    some "sealed nodes are immutable; build a new node or use a rewrite visitor"
  | unsupportedVersion .. =>
    some ("supported versions: " ++ ", ".intercalate supportedVersions)
  | unknownPlatform _ known => some ("known platforms: " ++ ", ".intercalate known)
  | _ => none

end Error

end BlockGraph

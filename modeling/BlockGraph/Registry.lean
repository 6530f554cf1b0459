import BlockGraph.Error

/-!
# Kind registries

Which block types are known, and what kind each of them has. Block types are unique: a type keeps
the kind it was first registered with.

* `KindRegistry.register`: adds an extension.
-/

namespace BlockGraph

/-- The known block types. -/
structure KindRegistry where
  kinds : SortedMap String Kind := .empty
  deriving DecidableEq

namespace KindRegistry

def core : KindRegistry :=
  ⟨.ofList (Kind.coreBlockKinds.filterMap fun k => k.blockType.map (·, k))⟩

def lookup (r : KindRegistry) (type : String) : Option Kind := r.kinds.get? type

def contains (r : KindRegistry) (type : String) : Bool := r.kinds.contains type

/-- Adds an extension; its block type must be new. -/
def register (r : KindRegistry) (spec : ExtensionSpec) : Except Error KindRegistry :=
  if r.contains spec.blockType then .error (.duplicateKind spec.blockType)
  else .ok ⟨r.kinds.insert spec.blockType (.extension spec)⟩

def registerAll (r : KindRegistry) (specs : List ExtensionSpec) : Except Error KindRegistry :=
  specs.foldlM register r

/-- Adds those extensions whose block type is new. -/
def registerNew (r : KindRegistry) (specs : List ExtensionSpec) : KindRegistry :=
  specs.foldl (fun r spec => (r.register spec).toOption.getD r) r

def blockTypes (r : KindRegistry) : List String := r.kinds.keys

end KindRegistry

end BlockGraph

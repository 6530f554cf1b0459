import BlockGraph.Node

/-!
# The life of a node

A node is made with a fresh id, may be changed until it is sealed, and keeps collecting diagnostics
after that. New nodes come from old ones by exchanging the phrase or by copying the whole subtree.

* `Node.alike`: equality of content, whatever the ids, seals and diagnostics.
-/

namespace BlockGraph.Node

/-! ## Making nodes -/

/-- A node with a fresh id that may still be changed. -/
def create (blockId : Option String) (attributes : Attributes) (comment : Option Comment)
    (phrase : Phrase Node) : Fresh Node := do
  return mk { id := ⟨← freshNumber⟩, blockId, attributes, comment } phrase

/-- The node, no longer to be changed. -/
def toSealed : Node → Node
  | mk h p => mk { h with sealed := true } p

def createSealed (blockId : Option String) (attributes : Attributes) (comment : Option Comment)
    (phrase : Phrase Node) : Fresh Node :=
  toSealed <$> create blockId attributes comment phrase

def structural (phrase : Phrase Node) : Fresh Node := createSealed none {} none phrase

/-! ## Changing nodes -/

/-- Fails on a sealed node; `part` is what was to be set. -/
def ensureUnsealed (n : Node) (part : NodePart) : Except Error Unit :=
  if n.isSealed then .error (.contract n.kind (.sealedNode part)) else .ok ()

def setProperties (n : Node) (blockId : Option String) (attributes : Attributes) :
    Except Error Node := do
  n.ensureUnsealed .properties
  return mk { n.header with blockId, attributes } n.phrase

def setComment (n : Node) (comment : Option Comment) : Except Error Node := do
  n.ensureUnsealed .comment
  return mk { n.header with comment } n.phrase

def setPhrase (n : Node) (phrase : Phrase Node) : Except Error Node := do
  n.ensureUnsealed .phrase
  return mk n.header phrase

/-- Attaches a finding, also to a sealed node. -/
def addDiagnostic (d : Diagnostic) : Node → Node
  | mk h p => mk { h with diagnostics := h.diagnostics ++ [d] } p

/-! ## Deriving nodes -/

/-- A sealed node with the same block id, attributes and comment, and another phrase. -/
def withPhrase (n : Node) (phrase : Phrase Node) : Fresh Node :=
  createSealed n.blockId? n.attributes n.comment? phrase

/-- A sealed copy of the whole subtree, as the given edition. Ids and the diagnostics attached so
far are kept. -/
def deepCopy (edition : Nat) : Node → Except Error Node :=
  recurse fun n p => do
    let phrase ← p.mapChildren n.label (·.result)
    return mk { n.header with edition, sealed := true } phrase

/-- Whether two subtrees have the same content: block ids, attributes, comments and phrases. -/
def alike : Node → Node → Bool :=
  recurse fun n p other =>
    n.blockId? == other.blockId? && n.attributes == other.attributes &&
      n.comment? == other.comment? &&
      p.map (fun _ => ()) == other.phrase.map (fun _ => ()) &&
      (p.children.zip other.children).all fun c => c.1.result c.2

/-! ## Walking -/

/-- A node and everything below it, parents first, children in table order. -/
def walk : Node → List Node :=
  recurse fun n p => n :: p.children.flatMap (·.result)

theorem walk_eq (n : Node) : n.walk = n :: n.children.flatMap walk := by
  rw [walk, recurse_eq]
  simp [children, List.flatMap_map]

/-- The subtree with `f` applied to every node, from the bottom up. -/
def mapNodes (f : Node → Node) : Node → Node :=
  recurse fun n p => f (mk n.header (p.map (·.result)))

end BlockGraph.Node

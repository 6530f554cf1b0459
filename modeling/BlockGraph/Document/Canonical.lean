import BlockGraph.Document.Equality
import BlockGraph.Document.Format
import BlockGraph.Text.LineDiff
import BlockGraph.Text.Sha256

/-!
# Canonical documents

Two documents mean the same if their canonical forms are equal. The canonical form lists the slots
of every block by name, leaves out chains without blocks, and drops annotations.

* `Document.equivalent`: whether two documents mean the same.
* `Document.fingerprint`: a digest that equivalent documents share.
* `Document.diff`: the lines in which two canonical forms differ.
-/

namespace BlockGraph

/-- Sorts by name; entries of one name keep their order. -/
def sortByName {α : Type} (name : α → String) (l : List α) : List α :=
  l.mergeSort fun a b => (compare (name a) (name b)).isLE

def BlockLayer.canonical {α : Type} (l : BlockLayer α) : BlockLayer α :=
  { l with
    fields := sortByName (·.name) l.fields
    values := sortByName (·.name) l.values
    statements := sortByName (·.name) (l.statements.filter fun s => !s.blocks.isEmpty)
    annotations := [] }

def Block.canonical : Block → Block :=
  recurse fun l => mk (l.map (·.result)).canonical

namespace Document

def canonical (d : Document) : Document :=
  { d with instances := d.instances.map fun c => { c with blocks := c.blocks.map Block.canonical } }

def canonicalText (d : Document) : String := d.canonical.write

def equivalent (a b : Document) : Bool := a.canonical = b.canonical

def fingerprint (d : Document) : String := Text.Sha256.hexDigest d.canonicalText

/-- The lines in which two canonical forms differ. -/
def diff (a b : Document) : Text.LineDiff.Changes :=
  Text.LineDiff.compareTexts a.canonicalText b.canonicalText

end Document

end BlockGraph

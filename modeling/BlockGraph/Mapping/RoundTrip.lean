import BlockGraph.Document.Canonical
import BlockGraph.Mapping.Reading
import BlockGraph.Mapping.Writing

/-!
# Round trips

Reading a document as a program, writing the program, and reading what was written.
-/

namespace BlockGraph

/-- What becomes of a document on a round trip. -/
structure RoundTrip where
  /-- The document that was written. -/
  written : Document
  /-- Whether it means the same as the first one. -/
  isEquivalent : Bool
  /-- Whether it is read as the same program. -/
  isSameProgram : Bool

def RoundTrip.isFaithful (r : RoundTrip) : Bool := r.isEquivalent && r.isSameProgram

def Document.roundTrip (registry : KindRegistry) (d : Document) : Make RoundTrip := do
  let program ← Program.ofDocument registry d
  let written ← Make.ofExcept program.toDocument
  let again ← Program.ofDocument registry written
  return ⟨written, d.equivalent written, again.alike program⟩

end BlockGraph

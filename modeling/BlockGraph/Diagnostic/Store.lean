import BlockGraph.Program

/-!
# The findings of one run

A run keeps its findings in a store of its own, so that several runs can share one program. The
store lists them in the order in which they were made and knows which belong to which node.

* `DiagnosticStore.toList`: all findings in order, repeated ones included.
* `DiagnosticStore.annotate`: a copy of the program that carries the findings.
-/

namespace BlockGraph

/-- The findings of one run. -/
structure DiagnosticStore where
  entries : Array Diagnostic := #[]
  /-- For each node the places of its findings. -/
  places : SortedMap NodeId (List Nat) := .empty
  deriving DecidableEq

namespace DiagnosticStore

def empty : DiagnosticStore := {}

def push (s : DiagnosticStore) (n : Node) (d : Diagnostic) : DiagnosticStore where
  entries := s.entries.push { d with location := some n.location }
  places := s.places.insert n.id ((s.places.get? n.id).getD [] ++ [s.entries.size])

/-- The findings about a node, in order. -/
def forNode (s : DiagnosticStore) (id : NodeId) : List Diagnostic :=
  ((s.places.get? id).getD []).filterMap (s.entries[·]?)

def toList (s : DiagnosticStore) : List Diagnostic := s.entries.toList

def size (s : DiagnosticStore) : Nat := s.entries.size

def isEmpty (s : DiagnosticStore) : Bool := s.entries.isEmpty

def count (s : DiagnosticStore) (severity : Severity) : Nat :=
  s.toList.countP (·.severity == severity)

def maxSeverity? (s : DiagnosticStore) : Option Severity := Diagnostic.maxSeverity? s.toList

/-- Whether a finding stands in the way of running the program. -/
def hasErrors (s : DiagnosticStore) : Bool := s.maxSeverity? == some .error

def attach (s : DiagnosticStore) (n : Node) : Node :=
  (s.forNode n.id).foldl (fun n d => n.addDiagnostic d) n

/-- A copy of a program with the findings attached to its nodes. -/
def annotate (s : DiagnosticStore) (p : Program) : Make Program := do
  return (← p.deepCopy).mapNodes s.attach

@[simp] theorem toList_push (s : DiagnosticStore) (n : Node) (d : Diagnostic) :
    (s.push n d).toList = s.toList ++ [{ d with location := some n.location }] := by
  simp [push, toList]

@[simp] theorem size_push (s : DiagnosticStore) (n : Node) (d : Diagnostic) :
    (s.push n d).size = s.size + 1 := by
  simp [push, size]

end DiagnosticStore

end BlockGraph

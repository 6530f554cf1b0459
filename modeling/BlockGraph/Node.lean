import BlockGraph.Attributes
import BlockGraph.Diagnostic
import BlockGraph.Phrase
import BlockGraph.Supply

/-!
# Nodes

A program is a tree of nodes. A node carries its identity, the attributes and the comment of its
block, its phrase, and the diagnostics attached to it so far. Once it is sealed its content is
fixed.

All recursion over trees goes through `Node.recurse`, which hands a node its phrase with the
results of the children in their places.

* `Node.recurse_mk`: what the recursion computes.
* `Node.induction`: properties that follow from the same property of the children hold of all
  nodes.
-/

namespace BlockGraph

/-- What a node carries beside its phrase. -/
structure Header where
  id : NodeId
  /-- Which deep copy of a node this is; nodes that were never copied have edition zero. -/
  edition : Nat := 0
  sealed : Bool := false
  blockId : Option String := none
  attributes : Attributes := {}
  comment : Option Comment := none
  diagnostics : List Diagnostic := []
  deriving DecidableEq

/-- A node with its subtree. -/
inductive Node where
  | mk (header : Header) (phrase : Phrase Node)

/-- A child in its place inside a phrase, with what a recursion made of it. -/
structure Visited (β : Type) where
  node : Node
  result : β

namespace Node

variable {β : Type}

/-! ## Recursion -/

mutual

/-- Computes bottom up: `step` sees a node and its phrase, in which every child comes with its own
result. -/
def recurse (step : Node → Phrase (Visited β) → β) : Node → β
  | mk h p => step (mk h p) (visitPhrase step p)
termination_by structural n => n

def visitPhrase (step : Node → Phrase (Visited β) → β) : Phrase Node → Phrase (Visited β)
  | .mainTask debug declarations => .mainTask debug ⟨declarations, recurse step declarations⟩
  | .varDeclaration name type value => .varDeclaration name type ⟨value, recurse step value⟩
  | .stmtList statements => .stmtList (visitList step statements)
  | .ifElse conditions branches otherwise =>
    .ifElse (visitList step conditions) (visitList step branches) (visitOption step otherwise)
  | .repeatTimes times body => .repeatTimes ⟨times, recurse step times⟩ ⟨body, recurse step body⟩
  | .whileUntil mode condition body =>
    .whileUntil mode ⟨condition, recurse step condition⟩ ⟨body, recurse step body⟩
  | .forLoop var start stop step' body =>
    .forLoop var ⟨start, recurse step start⟩ ⟨stop, recurse step stop⟩
      ⟨step', recurse step step'⟩ ⟨body, recurse step body⟩
  | .flowControl flow => .flowControl flow
  | .assign name value => .assign name ⟨value, recurse step value⟩
  | .waitTime duration => .waitTime ⟨duration, recurse step duration⟩
  | .methodDef name body => .methodDef name ⟨body, recurse step body⟩
  | .methodCall name => .methodCall name
  | .numConst text => .numConst text
  | .boolConst value => .boolConst value
  | .stringConst text => .stringConst text
  | .varRef name => .varRef name
  | .arithmetic op left right =>
    .arithmetic op ⟨left, recurse step left⟩ ⟨right, recurse step right⟩
  | .compare op left right => .compare op ⟨left, recurse step left⟩ ⟨right, recurse step right⟩
  | .logic op left right => .logic op ⟨left, recurse step left⟩ ⟨right, recurse step right⟩
  | .negate operand => .negate ⟨operand, recurse step operand⟩
  | .emptyExpr => .emptyExpr
  | .motorSetPower port power => .motorSetPower port ⟨power, recurse step power⟩
  | .motorStop port => .motorStop port
  | .sensorSample sensor port => .sensorSample sensor port
  | .showText text => .showText ⟨text, recurse step text⟩
  | .playTone frequency duration =>
    .playTone ⟨frequency, recurse step frequency⟩ ⟨duration, recurse step duration⟩
  | .extension spec slots => .extension spec (visitSlots step slots)
termination_by structural p => p

def visitSlots (step : Node → Phrase (Visited β) → β) :
    List (SlotValue Node) → List (SlotValue (Visited β))
  | [] => []
  | slot :: slots => visitSlot step slot :: visitSlots step slots
termination_by structural slots => slots

def visitSlot (step : Node → Phrase (Visited β) → β) : SlotValue Node → SlotValue (Visited β)
  | .literal text => .literal text
  | .value node => .value ⟨node, recurse step node⟩
  | .statement node => .statement ⟨node, recurse step node⟩
  | .optionalStatement node => .optionalStatement (visitOption step node)
  | .repeated nodes => .repeated (visitList step nodes)
termination_by structural slot => slot

def visitList (step : Node → Phrase (Visited β) → β) : List Node → List (Visited β)
  | [] => []
  | node :: nodes => ⟨node, recurse step node⟩ :: visitList step nodes
termination_by structural nodes => nodes

def visitOption (step : Node → Phrase (Visited β) → β) : Option Node → Option (Visited β)
  | none => none
  | some node => some ⟨node, recurse step node⟩
termination_by structural node => node

end

def visited (step : Node → Phrase (Visited β) → β) (n : Node) : Visited β := ⟨n, recurse step n⟩

theorem visitList_eq (step : Node → Phrase (Visited β) → β) (nodes : List Node) :
    visitList step nodes = nodes.map (visited step) := by
  induction nodes with
  | nil => rfl
  | cons n nodes ih => simp [visitList, visited, ih]

theorem visitOption_eq (step : Node → Phrase (Visited β) → β) (node : Option Node) :
    visitOption step node = node.map (visited step) := by
  cases node <;> simp [visitOption, visited]

theorem visitSlot_eq (step : Node → Phrase (Visited β) → β) (slot : SlotValue Node) :
    visitSlot step slot = slot.map (visited step) := by
  cases slot <;> simp [visitSlot, SlotValue.map, visited, visitList_eq, visitOption_eq]

theorem visitSlots_eq (step : Node → Phrase (Visited β) → β) (slots : List (SlotValue Node)) :
    visitSlots step slots = slots.map (SlotValue.map (visited step)) := by
  induction slots with
  | nil => rfl
  | cons slot slots ih => simp [visitSlots, visitSlot_eq, ih]

theorem visitPhrase_eq (step : Node → Phrase (Visited β) → β) (p : Phrase Node) :
    visitPhrase step p = p.map (visited step) := by
  cases p <;>
    simp [visitPhrase, Phrase.map, visitList_eq, visitOption_eq, visitSlots_eq, visited]

theorem recurse_mk (step : Node → Phrase (Visited β) → β) (h : Header) (p : Phrase Node) :
    (mk h p).recurse step = step (mk h p) (p.map fun c => ⟨c, c.recurse step⟩) := by
  rw [recurse, visitPhrase_eq]; rfl

/-! ## Parts -/

def header : Node → Header
  | mk h _ => h

def phrase : Node → Phrase Node
  | mk _ p => p

@[simp] theorem header_mk (h : Header) (p : Phrase Node) : (mk h p).header = h := rfl
@[simp] theorem phrase_mk (h : Header) (p : Phrase Node) : (mk h p).phrase = p := rfl
@[simp] theorem mk_header_phrase (n : Node) : mk n.header n.phrase = n := by cases n; rfl

def id (n : Node) : NodeId := n.header.id
def edition (n : Node) : Nat := n.header.edition
def isSealed (n : Node) : Bool := n.header.sealed
def blockId? (n : Node) : Option String := n.header.blockId
def attributes (n : Node) : Attributes := n.header.attributes
def comment? (n : Node) : Option Comment := n.header.comment
def diagnostics (n : Node) : List Diagnostic := n.header.diagnostics

def kind (n : Node) : Kind := n.phrase.kind

def children (n : Node) : List Node := n.phrase.children

def isActive (n : Node) : Bool := n.attributes.isActive

/-- The block id if there is one, and otherwise the name of the id. -/
def label (n : Node) : String := n.blockId?.getD n.id.name

def location (n : Node) : Location := ⟨n.id, n.blockId?⟩

/-- Whether two nodes are one and the same: the same id in the same edition. -/
def isSame (a b : Node) : Bool := a.id == b.id && a.edition == b.edition

/-- The statements of a chain; other nodes have none. -/
def statements (n : Node) : List Node :=
  match n.phrase with
  | .stmtList statements => statements
  | _ => []

theorem recurse_eq (step : Node → Phrase (Visited β) → β) (n : Node) :
    n.recurse step = step n (n.phrase.map fun c => ⟨c, c.recurse step⟩) := by
  cases n; exact recurse_mk step _ _

/-! ## Induction -/

theorem sizeOf_lt_of_mem_nodes {α : Type} [SizeOf α] {c : α} {s : SlotValue α}
    (h : c ∈ s.nodes) : sizeOf c < sizeOf s := by
  cases s with
  | literal text => simp [SlotValue.nodes] at h
  | value node | statement node =>
    simp only [SlotValue.nodes, List.mem_singleton] at h
    subst h
    simp only [SlotValue.value.sizeOf_spec, SlotValue.statement.sizeOf_spec]
    omega
  | optionalStatement node =>
    simp only [SlotValue.nodes, Option.mem_toList] at h
    subst h
    simp only [SlotValue.optionalStatement.sizeOf_spec, Option.some.sizeOf_spec]
    omega
  | repeated nodes =>
    have := List.sizeOf_lt_of_mem (show c ∈ nodes from h)
    simp only [SlotValue.repeated.sizeOf_spec]
    omega

theorem sizeOf_lt_of_mem_children {c n : Node} (h : c ∈ n.children) : sizeOf c < sizeOf n := by
  obtain ⟨header, p⟩ := n
  suffices sizeOf c < sizeOf p by
    simp only [mk.sizeOf_spec]
    omega
  replace h : c ∈ p.children := h
  have listLt {l : List Node} (m : c ∈ l) := List.sizeOf_lt_of_mem m
  cases p with
  | stmtList statements =>
    have := List.sizeOf_lt_of_mem (show c ∈ statements from h)
    simp only [Phrase.stmtList.sizeOf_spec]
    omega
  | extension spec slots =>
    obtain ⟨slot, mem, within⟩ := List.mem_flatMap.1 (show c ∈ slots.flatMap SlotValue.nodes from h)
    have := List.sizeOf_lt_of_mem mem
    have := sizeOf_lt_of_mem_nodes within
    simp only [Phrase.extension.sizeOf_spec]
    omega
  | ifElse conditions branches otherwise =>
    simp only [Phrase.children, Phrase.slots, List.flatMap_cons, List.flatMap_nil,
      SlotValue.nodes, List.mem_append, List.append_nil, Option.mem_toList] at h
    simp only [Phrase.ifElse.sizeOf_spec]
    rcases h with h | h | h
    · have := listLt h; omega
    · have := listLt h; omega
    · subst h; simp only [Option.some.sizeOf_spec]; omega
  | _ =>
    simp [Phrase.children, Phrase.slots, SlotValue.nodes] at h ⊢ <;> grind

/-- Proves a property of all nodes from the property of their children. -/
theorem induction {motive : Node → Prop}
    (step : ∀ n, (∀ c ∈ n.children, motive c) → motive n) (n : Node) : motive n :=
  step n fun c _ => induction step c
termination_by sizeOf n
decreasing_by exact sizeOf_lt_of_mem_children ‹_›

end Node

end BlockGraph

import BlockGraph.Attributes

/-!
# Documents

The graph of blocks that an editor saves: chains of blocks on a canvas, and blocks with named
texts, named blocks and named chains inside.

* `Block.recurse_mk`: what a recursion over nested blocks computes.
* `Document.blocks`: every block, parents first.
-/

namespace BlockGraph

/-! ## Blocks -/

/-- A finding written beside a block. -/
structure Annotation where
  severity : String
  code : String
  message : String
  deriving DecidableEq, Repr

/-- A named text. -/
structure FieldSlot where
  name : String
  value : String
  deriving DecidableEq, Repr

/-- A named block. -/
structure ValueSlot (α : Type) where
  name : String
  block : α
  deriving DecidableEq, Repr

/-- A named chain of blocks. -/
structure StatementSlot (α : Type) where
  name : String
  blocks : List α := []
  deriving DecidableEq, Repr

/-- One block, over any type of block inside it. -/
structure BlockLayer (α : Type) where
  id : String := ""
  type : String := ""
  attributes : Attributes := {}
  comment : Option Comment := none
  fields : List FieldSlot := []
  values : List (ValueSlot α) := []
  statements : List (StatementSlot α) := []
  annotations : List Annotation := []
  deriving DecidableEq

/-- Applies `f` to the block in a slot. -/
def ValueSlot.map {α β : Type} (f : α → β) (s : ValueSlot α) : ValueSlot β := ⟨s.name, f s.block⟩

/-- Applies `f` to every block of a slot. -/
def StatementSlot.map {α β : Type} (f : α → β) (s : StatementSlot α) : StatementSlot β :=
  ⟨s.name, s.blocks.map f⟩

namespace BlockLayer

variable {α β γ : Type}

/-- Applies `f` to every block inside. -/
def map (f : α → β) (l : BlockLayer α) : BlockLayer β :=
  { l with values := l.values.map (ValueSlot.map f),
           statements := l.statements.map (StatementSlot.map f) }

/-- The blocks inside: those of the values, then those of the chains. -/
def children (l : BlockLayer α) : List α :=
  l.values.map (·.block) ++ l.statements.flatMap (·.blocks)

@[simp] theorem map_map (g : β → γ) (f : α → β) (l : BlockLayer α) :
    (l.map f).map g = l.map (g ∘ f) := by
  simp [map, ValueSlot.map, StatementSlot.map, Function.comp_def]

@[simp] theorem map_id (l : BlockLayer α) : l.map (fun a => a) = l := by
  have value (s : ValueSlot α) : s.map (fun a => a) = s := rfl
  have chain (s : StatementSlot α) : s.map (fun a => a) = s := by simp [StatementSlot.map]
  rw [map, List.map_id'' value, List.map_id'' chain]

@[simp] theorem children_map (f : α → β) (l : BlockLayer α) :
    (l.map f).children = l.children.map f := by
  simp [children, map, ValueSlot.map, StatementSlot.map, List.map_flatMap, List.flatMap_map,
    Function.comp_def]

end BlockLayer

/-- A block with all blocks inside it. -/
inductive Block where
  | mk (layer : BlockLayer Block)

namespace Block

variable {β : Type}

def layer : Block → BlockLayer Block
  | mk l => l

/-- A block in its place inside another, with what a recursion made of it. -/
structure Visited (β : Type) where
  block : Block
  result : β

mutual

/-- Computes bottom up: `step` sees a block, in which every block inside comes with its result. -/
def recurse (step : BlockLayer (Visited β) → β) : Block → β
  | mk l => step { l with values := visitValues step l.values,
                          statements := visitStatements step l.statements }
termination_by structural b => b

def visitValues (step : BlockLayer (Visited β) → β) :
    List (ValueSlot Block) → List (ValueSlot (Visited β))
  | [] => []
  | ⟨name, block⟩ :: rest => ⟨name, ⟨block, recurse step block⟩⟩ :: visitValues step rest
termination_by structural values => values

def visitStatements (step : BlockLayer (Visited β) → β) :
    List (StatementSlot Block) → List (StatementSlot (Visited β))
  | [] => []
  | ⟨name, blocks⟩ :: rest => ⟨name, visitBlocks step blocks⟩ :: visitStatements step rest
termination_by structural statements => statements

def visitBlocks (step : BlockLayer (Visited β) → β) : List Block → List (Visited β)
  | [] => []
  | block :: blocks => ⟨block, recurse step block⟩ :: visitBlocks step blocks
termination_by structural blocks => blocks

end

def visited (step : BlockLayer (Visited β) → β) (b : Block) : Visited β := ⟨b, recurse step b⟩

theorem visitBlocks_eq (step : BlockLayer (Visited β) → β) (blocks : List Block) :
    visitBlocks step blocks = blocks.map (visited step) := by
  induction blocks with
  | nil => rfl
  | cons b blocks ih => simp [visitBlocks, visited, ih]

theorem visitValues_eq (step : BlockLayer (Visited β) → β) (values : List (ValueSlot Block)) :
    visitValues step values = values.map (ValueSlot.map (visited step)) := by
  induction values with
  | nil => rfl
  | cons v values ih => simp [visitValues, ValueSlot.map, visited, ih]

theorem visitStatements_eq (step : BlockLayer (Visited β) → β)
    (statements : List (StatementSlot Block)) :
    visitStatements step statements = statements.map (StatementSlot.map (visited step)) := by
  induction statements with
  | nil => rfl
  | cons s statements ih => simp [visitStatements, StatementSlot.map, visitBlocks_eq, ih]

theorem recurse_mk (step : BlockLayer (Visited β) → β) (l : BlockLayer Block) :
    (mk l).recurse step = step (l.map fun b => ⟨b, b.recurse step⟩) := by
  rw [recurse, visitValues_eq, visitStatements_eq]; rfl

/-- A block and everything inside it, parents first, values before chains. -/
def preorder : Block → List Block :=
  recurse fun l => mk (l.map (·.block)) :: l.children.flatMap (·.result)

theorem preorder_mk (l : BlockLayer Block) :
    (mk l).preorder = mk l :: l.children.flatMap preorder := by
  rw [preorder, recurse_mk, BlockLayer.map_map, BlockLayer.children_map, List.flatMap_map]
  exact congrArg (fun m => mk m :: _) l.map_id

end Block

/-! ## Documents -/

/-- A chain on the canvas. -/
structure Chain where
  x : Int64 := 0
  y : Int64 := 0
  blocks : List Block := []

/-- A saved graph of blocks. -/
structure Document where
  formatVersion : String
  description : String := ""
  tags : List String := []
  instances : List Chain := []

/-- Every block of a document, parents first. -/
def Document.blocks (d : Document) : List Block :=
  d.instances.flatMap fun chain => chain.blocks.flatMap Block.preorder

end BlockGraph

/-!
# Spelled choices

Enumerated field values: every choice has one fixed spelling, and reading accepts exactly those.

* `Spelled.read?_spell`, `Spelled.spell_of_read?`: reading inverts spelling.
-/

namespace BlockGraph

/-- A type whose values are spelled as fixed texts. -/
class Spelled (τ : Type) where
  /-- The name of the type in messages. -/
  typeName : String
  all : List τ
  spell : τ → String
  mem_all : ∀ t, t ∈ all
  spell_injective : ∀ t u, spell t = spell u → t = u

namespace Spelled

def read? {τ : Type} [Spelled τ] (text : String) : Option τ :=
  (all : List τ).find? (fun t => spell t == text)

def unknown (τ : Type) [Spelled τ] (text : String) : String :=
  "unknown " ++ typeName τ ++ " '" ++ text ++ "'"

theorem spell_of_read? {τ : Type} [Spelled τ] {text : String} {t : τ}
    (h : read? text = some t) : spell t = text := by
  simpa using List.find?_some h

@[simp] theorem read?_spell {τ : Type} [Spelled τ] (t : τ) : read? (spell t) = some t := by
  have found : (read? (spell t) : Option τ).isSome :=
    List.find?_isSome.2 ⟨t, mem_all t, by simp⟩
  obtain ⟨u, hu⟩ := Option.isSome_iff_exists.1 found
  rw [hu, spell_injective u t (spell_of_read? hu)]

end Spelled

/-! ## The choices of block fields -/

/-- The declared type of a variable. -/
inductive DataType where
  | number
  | boolean
  | string
  deriving DecidableEq, Repr

instance : Spelled DataType where
  typeName := "DataType"
  all := [.number, .boolean, .string]
  spell
    | .number => "Number"
    | .boolean => "Boolean"
    | .string => "String"
  mem_all t := by cases t <;> decide
  spell_injective t u := by cases t <;> cases u <;> decide

/-- How the condition of a loop is read. -/
inductive LoopMode where
  | while
  | until
  deriving DecidableEq, Repr

instance : Spelled LoopMode where
  typeName := "LoopMode"
  all := [.while, .until]
  spell
    | .while => "WHILE"
    | .until => "UNTIL"
  mem_all t := by cases t <;> decide
  spell_injective t u := by cases t <;> cases u <;> decide

/-- A jump out of a loop or to its next round. -/
inductive Flow where
  | break
  | continue
  deriving DecidableEq, Repr

instance : Spelled Flow where
  typeName := "Flow"
  all := [.break, .continue]
  spell
    | .break => "BREAK"
    | .continue => "CONTINUE"
  mem_all t := by cases t <;> decide
  spell_injective t u := by cases t <;> cases u <;> decide

/-- An operation on two numbers with a number as result. -/
inductive ArithOp where
  | add
  | minus
  | multiply
  | divide
  | power
  deriving DecidableEq, Repr

instance : Spelled ArithOp where
  typeName := "ArithOp"
  all := [.add, .minus, .multiply, .divide, .power]
  spell
    | .add => "ADD"
    | .minus => "MINUS"
    | .multiply => "MULTIPLY"
    | .divide => "DIVIDE"
    | .power => "POWER"
  mem_all t := by cases t <;> decide
  spell_injective t u := by cases t <;> cases u <;> decide

/-- A comparison of two values. -/
inductive CompareOp where
  | eq
  | neq
  | lt
  | lte
  | gt
  | gte
  deriving DecidableEq, Repr

instance : Spelled CompareOp where
  typeName := "CompareOp"
  all := [.eq, .neq, .lt, .lte, .gt, .gte]
  spell
    | .eq => "EQ"
    | .neq => "NEQ"
    | .lt => "LT"
    | .lte => "LTE"
    | .gt => "GT"
    | .gte => "GTE"
  mem_all t := by cases t <;> decide
  spell_injective t u := by cases t <;> cases u <;> decide

/-- Whether a comparison needs an order. Only numbers have one. -/
def CompareOp.isOrdering : CompareOp → Bool
  | .eq | .neq => false
  | _ => true

/-- A connective of two truth values. -/
inductive LogicOp where
  | and
  | or
  deriving DecidableEq, Repr

instance : Spelled LogicOp where
  typeName := "LogicOp"
  all := [.and, .or]
  spell
    | .and => "AND"
    | .or => "OR"
  mem_all t := by cases t <;> decide
  spell_injective t u := by cases t <;> cases u <;> decide

/-! ## Flags -/

def flagText (b : Bool) : String := if b then "TRUE" else "FALSE"

def readFlag? (text : String) : Option Bool :=
  if text = "TRUE" then some true else if text = "FALSE" then some false else none

@[simp] theorem readFlag?_flagText (b : Bool) : readFlag? (flagText b) = some b := by
  cases b <;> decide

theorem flagText_of_readFlag? {text : String} {b : Bool} (h : readFlag? text = some b) :
    flagText b = text := by
  unfold readFlag? at h
  split at h
  · next e => cases h; exact e.symm
  · split at h
    · next e => cases h; exact e.symm
    · cases h

end BlockGraph

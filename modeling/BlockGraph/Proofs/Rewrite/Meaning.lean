import BlockGraph.Proofs.Float
import BlockGraph.Proofs.Rewrite.Folding

/-!
# Folding and the meaning of expressions

An expression means a value, given what the blocks mean that are neither constants nor operators.
Folding computes with texts: every result is spelled and read again by the next operator. It keeps
the meaning if the numbers that it spells are read back as they were.

* `Node.eval`: what an expression means.
* `Node.computed`: the numbers that folding computes in an expression.
* `Node.eval_folded`: the folded tree means the same.
* `Program.eval_foldConstants`: so does what a run of folding gives for an expression that was
  read.
-/

namespace BlockGraph

/-! ## Values -/

/-- What an expression can mean. -/
inductive Value where
  | number (x : Float)
  | boolean (b : Bool)
  | text (s : String)

namespace Value

/-- Two values are equal, or zeros of either sign. -/
inductive Same : Value → Value → Prop
  | number {x y : Float} (same : SameNumber x y) : Same (number x) (number y)
  | boolean (b : Bool) : Same (boolean b) (boolean b)
  | text (s : String) : Same (text s) (text s)

theorem Same.refl (v : Value) : Same v v := by
  cases v with
  | number x => exact .number (.refl x)
  | boolean b => exact .boolean b
  | text s => exact .text s

theorem Same.trans {u v w : Value} (h : Same u v) (h' : Same v w) : Same u w := by
  cases h with
  | number first =>
    cases h' with
    | number second => exact .number (first.trans second)
  | boolean => exact h'
  | text => exact h'

/-- Both expressions mean nothing, or they mean the same. -/
abbrev Agree (u v : Option Value) : Prop := Option.Rel Same u v

theorem Agree.refl (v : Option Value) : Agree v v := by
  cases v with
  | none => exact .none
  | some v => exact .some (.refl v)

theorem Agree.trans {u v w : Option Value} (h : Agree u v) (h' : Agree v w) : Agree u w := by
  cases h with
  | none => exact h'
  | some first =>
    cases h' with
    | some second => exact .some (first.trans second)

/-! ## Operators -/

def arith (op : ArithOp) : Option Value → Option Value → Option Value
  | some (number a), some (number b) => (Folding.arith op a b).map number
  | _, _ => none

def compare (op : CompareOp) : Option Value → Option Value → Option Value
  | some (number a), some (number b) => some (boolean (Folding.compareNumbers op a b))
  | some (boolean a), some (boolean b) => (Folding.compareBooleans op a b).map boolean
  | _, _ => none

def logic (op : LogicOp) : Option Value → Option Value → Option Value
  | some (boolean a), some (boolean b) => some (boolean (Folding.logic op a b))
  | _, _ => none

def negate : Option Value → Option Value
  | some (boolean a) => some (boolean !a)
  | _ => none

section Same

variable {u u' v v' : Option Value}

theorem arith_agree {op : ArithOp} (power : op = .power → Folding.PowerSame) (left : Agree u u')
    (right : Agree v v') : Agree (arith op u v) (arith op u' v') := by
  cases left with
  | none => exact .none
  | some left =>
    cases right with
    | none => cases left <;> exact .none
    | some right =>
      cases left <;> cases right
      case number.number a a' left b b' right =>
        change Agree ((Folding.arith op a b).map number) ((Folding.arith op a' b').map number)
        have results := Folding.arith_same power left right
        generalize Folding.arith op a b = x, Folding.arith op a' b' = y at results ⊢
        cases results with
        | none => exact .none
        | some same => exact .some (.number same)
      all_goals exact .none

theorem compare_agree (op : CompareOp) (left : Agree u u') (right : Agree v v') :
    Agree (compare op u v) (compare op u' v') := by
  cases left with
  | none => exact .none
  | some left =>
    cases right with
    | none => cases left <;> exact .none
    | some right =>
      cases left <;> cases right
      case number.number a a' left b b' right =>
        change Agree (some (boolean (Folding.compareNumbers op a b)))
          (some (boolean (Folding.compareNumbers op a' b')))
        rw [Folding.compareNumbers_same op left right]
        exact .refl _
      case boolean.boolean => exact .refl _
      all_goals exact .none

theorem logic_agree (op : LogicOp) (left : Agree u u') (right : Agree v v') :
    Agree (logic op u v) (logic op u' v') := by
  cases left with
  | none => exact .none
  | some left =>
    cases right with
    | none => cases left <;> exact .none
    | some right => cases left <;> cases right <;> exact .refl _

theorem negate_agree (inner : Agree u u') : Agree (negate u) (negate u') := by
  cases inner with
  | none => exact .none
  | some same => cases same <;> exact .refl _

end Same

end Value

/-! ## Evaluation -/

/-- What blocks mean that are neither constants nor operators. -/
abbrev Valuation := String → Option Value

/-- What a phrase means whose operands mean what is in their places. -/
def Phrase.eval (valuation : Valuation) (blockId : Option String) :
    Phrase (Option Value) → Option Value
  | .numConst text => (readNumber? text).map .number
  | .boolConst value => some (.boolean value)
  | .arithmetic op left right => Value.arith op left right
  | .compare op left right => Value.compare op left right
  | .logic op left right => Value.logic op left right
  | .negate operand => Value.negate operand
  | _ => blockId.bind valuation

/-- What an expression means. -/
def Node.eval (valuation : Valuation) : Node → Option Value :=
  recurse fun n p => (p.map (·.result)).eval valuation n.blockId?

theorem Node.eval_eq (valuation : Valuation) (n : Node) :
    n.eval valuation = (n.phrase.map (eval valuation)).eval valuation n.blockId? := by
  rw [eval, recurse_eq, Phrase.map_map]
  rfl

/-- Operands that mean the same can be exchanged. -/
theorem Phrase.eval_agree {valuation : Valuation} {blockId : Option String}
    {r : Phrase (Option Value × Option Value)}
    (power : (∃ l m, r = .arithmetic .power l m) → Folding.PowerSame)
    (inside : ∀ c ∈ r.children, Value.Agree c.1 c.2) :
    Value.Agree ((r.map Prod.fst).eval valuation blockId)
      ((r.map Prod.snd).eval valuation blockId) := by
  cases r with
  | arithmetic op l m =>
    refine Value.arith_agree (fun same => power ⟨l, m, by rw [same]⟩) (inside l ?_) (inside m ?_)
    · exact List.mem_cons_self
    · exact List.mem_cons_of_mem _ List.mem_cons_self
  | compare op l m =>
    refine Value.compare_agree op (inside l ?_) (inside m ?_)
    · exact List.mem_cons_self
    · exact List.mem_cons_of_mem _ List.mem_cons_self
  | logic op l m =>
    refine Value.logic_agree op (inside l ?_) (inside m ?_)
    · exact List.mem_cons_self
    · exact List.mem_cons_of_mem _ List.mem_cons_self
  | negate operand => exact Value.negate_agree (inside operand List.mem_cons_self)
  | _ => exact .refl _

namespace Node

variable {valuation : Valuation}

/-- The identity of nodes and what is attached to them have no meaning. -/
theorem eval_plain (n : Node) : n.plain.eval valuation = n.eval valuation := by
  induction n using Node.induction with
  | step n ih =>
    have inside : (n.phrase.map plain).map (eval valuation) = n.phrase.map (eval valuation) := by
      rw [Phrase.map_map]
      exact Phrase.map_congr_children ih
    rw [eval_eq, eval_eq _ n, blockId?_plain, phrase_plain, inside]

theorem eval_of_number? {n : Node} {x : Float} (h : n.number? = some x) :
    n.eval valuation = some (.number x) := by
  rw [eval_eq]
  unfold number? at h
  split at h
  · next text constant =>
    rw [constant]
    exact congrArg (Option.map Value.number) h
  · cases h

theorem eval_of_boolean? {n : Node} {b : Bool} (h : n.boolean? = some b) :
    n.eval valuation = some (.boolean b) := by
  rw [eval_eq]
  unfold boolean? at h
  split at h
  · next value constant =>
    cases h
    rw [constant]
    rfl
  · cases h

end Node

/-! ## Folding -/

/-- The text of a number is read back as the same number. -/
def Folding.ReadsBack (x : Float) : Prop :=
  ∃ y, readNumber? (spellNumber x) = some y ∧ SameNumber y x

/-- The constant that replaces an operator means what the operator did. -/
theorem Folding.Step.eval_agree {p q : Phrase Node} (step : Step p q) {valuation : Valuation}
    {blockId : Option String}
    (readable : ∀ op l r a b x, p = .arithmetic op l r → l.number? = some a → r.number? = some b →
      arith op a b = some x → ReadsBack x) :
    Value.Agree ((q.map (Node.eval valuation)).eval valuation blockId)
      ((p.map (Node.eval valuation)).eval valuation blockId) := by
  cases step with
  | @arithmetic op l r a b x left right result =>
    obtain ⟨y, read, same⟩ := readable op l r a b x rfl left right result
    simp only [Phrase.map, Phrase.eval, Node.eval_of_number? left, Node.eval_of_number? right,
      Value.arith, read, result]
    exact .some (.number same)
  | numbers left right =>
    simp only [Phrase.map, Phrase.eval, Node.eval_of_number? left, Node.eval_of_number? right,
      Value.compare]
    exact .refl _
  | booleans left right result =>
    simp only [Phrase.map, Phrase.eval, Node.eval_of_boolean? left, Node.eval_of_boolean? right,
      Value.compare, result]
    exact .refl _
  | logic left right =>
    simp only [Phrase.map, Phrase.eval, Node.eval_of_boolean? left, Node.eval_of_boolean? right,
      Value.logic]
    exact .refl _
  | negate inner =>
    simp only [Phrase.map, Phrase.eval, Node.eval_of_boolean? inner, Value.negate]
    exact .refl _

namespace Node

open Folding

/-- The numbers that folding computes in an expression. -/
def computed (e : Node) : List Float :=
  e.walk.filterMap fun m =>
    match m.phrase with
    | .arithmetic op l r => do arith op (← l.folded.number?) (← r.folded.number?)
    | _ => none

theorem mem_computed_iff {e : Node} {x : Float} : x ∈ e.computed ↔
    ∃ m ∈ e.walk, ∃ op l r a b, m.phrase = .arithmetic op l r ∧ l.folded.number? = some a ∧
      r.folded.number? = some b ∧ arith op a b = some x := by
  rw [computed, List.mem_filterMap]
  refine exists_congr fun m => and_congr_right fun _ => ?_
  split
  · next op l r phrase =>
    simp only [phrase, Option.bind_eq_bind, Option.bind_eq_some_iff, Phrase.arithmetic.injEq]
    refine ⟨fun h => ?_, fun h => ?_⟩
    · obtain ⟨a, left, b, right, result⟩ := h
      exact ⟨op, l, r, a, b, ⟨rfl, rfl, rfl⟩, left, right, result⟩
    · obtain ⟨_, _, _, a, b, ⟨rfl, rfl, rfl⟩, left, right, result⟩ := h
      exact ⟨a, left, b, right, result⟩
  · next other =>
    refine iff_of_false (fun none => by cases none) ?_
    rintro ⟨op, l, r, a, b, phrase, -⟩
    exact other op l r phrase

/-- Whether there is a power in an expression. -/
def usesPower (e : Node) : Bool :=
  e.walk.any fun m =>
    match m.phrase with
    | .arithmetic .power _ _ => true
    | _ => false

/-- A folded tree means what the tree did. -/
theorem eval_folded {valuation : Valuation} {e : Node}
    (readable : ∀ x ∈ e.computed, ReadsBack x) (power : e.usesPower = true → PowerSame) :
    Value.Agree (e.folded.eval valuation) (e.eval valuation) := by
  induction e using Node.induction with
  | step n ih =>
    have inside : ∀ c ∈ n.children, Value.Agree (c.folded.eval valuation) (c.eval valuation) := by
      intro c hc
      have below : c.walk ⊆ n.walk := by
        rw [walk_eq n]
        exact fun m hm => List.mem_cons_of_mem _ (List.mem_flatMap.2 ⟨c, hc, hm⟩)
      refine ih c hc (fun x made => readable x ?_) fun used => power ?_
      · obtain ⟨m, hm, made⟩ := mem_computed_iff.1 made
        exact mem_computed_iff.2 ⟨m, below hm, made⟩
      · obtain ⟨m, hm, used⟩ := List.any_eq_true.1 used
        exact List.any_eq_true.2 ⟨m, below hm, used⟩
    have operands : Value.Agree
        (((n.phrase.map folded).map (eval valuation)).eval valuation n.blockId?)
        ((n.phrase.map (eval valuation)).eval valuation n.blockId?) := by
      have agree : Value.Agree (Phrase.eval valuation n.blockId? _)
          (Phrase.eval valuation n.blockId? _) := Phrase.eval_agree
        (r := n.phrase.map fun c => (c.folded.eval valuation, c.eval valuation)) ?_ ?_
      · rw [Phrase.map_map, Phrase.map_map] at agree
        rwa [Phrase.map_map]
      · rintro ⟨l, m, same⟩
        cases phrase : n.phrase <;> rw [phrase] at same <;> cases same
        exact power (List.any_eq_true.2 ⟨n, n.mem_walk_self, by rw [phrase]⟩)
      · rw [Phrase.children_map, List.forall_mem_map]
        exact inside
    rw [eval_eq _ n]
    refine .trans ?_ operands
    have block : n.folded.blockId? = n.blockId? := congrArg Header.blockId (header_folded n)
    rw [eval_eq, block]
    rcases step : fold? (n.phrase.map folded) with _ | q
    · rw [folded_of_none step]
      exact .refl _
    · rw [folded_of_some step]
      refine (step_of_fold? step).eval_agree fun op l r a b x same left right result => ?_
      cases phrase : n.phrase <;> rw [phrase] at same <;> cases same
      exact readable x
        (mem_computed_iff.2 ⟨n, n.mem_walk_self, op, _, _, a, b, phrase, left, right, result⟩)

end Node

/-! ## Runs -/

/-- Folding an expression of a program that was read succeeds and keeps the meaning of the
expression, up to the sign of zero. The numbers that are spelled on the way have to be read back,
and powers must not depend on the sign of zero. -/
theorem Program.eval_foldConstants {registry : KindRegistry} {d : Document} {p : Program}
    {s s' : Supply} (read : (ofDocument registry d).run s = (.ok p, s')) {e : Node}
    (mem : e ∈ p.walk) (readable : ∀ x ∈ e.computed, Folding.ReadsBack x)
    (power : e.usesPower = true → Folding.PowerSame) {t : Supply} (later : s'.next ≤ t.next)
    (k : Nat) :
    ∃ e' k' t', (e.foldConstants.runFrom k).run t = (.ok (e', k'), t') ∧
      ∀ valuation, Value.Agree (e'.eval valuation) (e.eval valuation) := by
  obtain ⟨e', u, given, folds⟩ := exists_folds_of_mem read mem (t := (k, t)) later
  refine ⟨e', u.1, u.2, Rewriting.runFrom_eq_ok_iff.2 given, fun valuation => ?_⟩
  rw [← Node.eval_plain, folds.content, Node.eval_plain]
  exact Node.eval_folded readable power

theorem mem_walk_product : productNode ∈ productProgram.walk := .tail _ (.tail _ (.head _))

theorem computed_product : productNode.computed = [3] := by
  decide +kernel

theorem readsBack_three : Folding.ReadsBack 3 := ⟨3, by decide +kernel, .refl 3⟩

/-- The product means the same when its sum is folded. -/
theorem Program.eval_foldConstants_product :
    ∃ s, (ofDocument .core product).run {} = (.ok productProgram, s) ∧
      ∃ e' k' t', (productNode.foldConstants.runFrom 0).run s = (.ok (e', k'), t') ∧
        ∀ valuation, Value.Agree (e'.eval valuation) (productNode.eval valuation) := by
  obtain ⟨s, read⟩ := exists_ofDocument_product
  refine ⟨s, read, eval_foldConstants read mem_walk_product (fun x hx => ?_)
    (fun used => by cases used) (Nat.le_refl _) 0⟩
  rw [computed_product, List.mem_singleton] at hx
  rw [hx]
  exact readsBack_three

end BlockGraph

import BlockGraph.Proofs.Mapping.Identity
import BlockGraph.Proofs.Mapping.Regular
import BlockGraph.Proofs.Rewrite.Passes
import BlockGraph.Rewrite.Folding
import Mathlib

/-!
# Runs of constant folding

What folding makes of a tree does not depend on how it is run: it is the tree with the operators on
constants replaced from the bottom up (`Node.folded`). A run keeps the nodes below which nothing is
replaced and gives new ids to all others.

* `Node.operators`: how many operators there are to count.
* `Folding.Step`: the operators that are replaced, and by what.
* `Node.Folds`: what becomes of a node in a run.
* `Node.exists_folds`: a run on a tree that can be rebuilt succeeds.
* `Program.Folds`: what becomes of a program in a run.
* `Program.exists_folds`: a run on a program that was read succeeds.
-/

namespace BlockGraph

/-! ## Counting operators -/

/-- The kinds of nodes that folding may replace. -/
def Kind.isOperator : Kind → Bool
  | .arithmetic | .compare | .logic | .negate => true
  | _ => false

/-- The number of operators in a tree. -/
def Node.operators (n : Node) : Nat := n.walk.countP (·.kind.isOperator)

theorem Node.operators_eq (n : Node) : n.operators =
    (n.children.map operators).sum + if n.kind.isOperator then 1 else 0 := by
  rw [operators, walk_eq, List.countP_cons, List.countP_flatMap]
  rfl

@[simp] theorem Node.operators_plain (n : Node) : n.plain.operators = n.operators := by
  simp [operators, List.countP_map, Function.comp_def]

theorem Node.operators_of_isConstant {n : Node} (h : n.phrase.isConstant = true) :
    n.operators = 0 := by
  have kind : n.kind.isOperator = false := by
    unfold kind
    cases phrase : n.phrase <;> rw [phrase] at h <;> first | rfl | cases h
  rw [operators_eq, kind, children, Phrase.children_of_isConstant h]
  rfl

/-- The number of operators in a program. -/
def Program.operators (p : Program) : Nat := p.walk.countP (·.kind.isOperator)

theorem Program.operators_eq (p : Program) :
    p.operators = ((p.instances.map (·.body)).map Node.operators).sum := by
  rw [operators, walk, List.countP_flatMap, List.map_map]
  rfl

namespace Folding

/-! ## Operators on constants -/

/-- An operator on constants and the constant that it comes to. -/
inductive Step : Phrase Node → Phrase Node → Prop
  | arithmetic {op : ArithOp} {l r : Node} {a b x : Float} (left : l.number? = some a)
      (right : r.number? = some b) (result : arith op a b = some x) :
      Step (.arithmetic op l r) (.numConst (spellNumber x))
  | numbers {op : CompareOp} {l r : Node} {a b : Float} (left : l.number? = some a)
      (right : r.number? = some b) :
      Step (.compare op l r) (.boolConst (compareNumbers op a b))
  | booleans {op : CompareOp} {l r : Node} {a b v : Bool} (left : l.boolean? = some a)
      (right : r.boolean? = some b) (result : compareBooleans op a b = some v) :
      Step (.compare op l r) (.boolConst v)
  | logic {op : LogicOp} {l r : Node} {a b : Bool} (left : l.boolean? = some a)
      (right : r.boolean? = some b) : Step (.logic op l r) (.boolConst (logic op a b))
  | negate {operand : Node} {a : Bool} (inner : operand.boolean? = some a) :
      Step (.negate operand) (.boolConst !a)

theorem step_of_fold? {p q : Phrase Node} (h : fold? p = some q) : Step p q := by
  cases p <;> simp only [fold?, Option.bind_eq_bind, Option.bind_eq_some_iff, Option.pure_def,
    Option.some.injEq, reduceCtorEq] at h
  case arithmetic op l r =>
    obtain ⟨a, left, b, right, x, result, rfl⟩ := h
    exact .arithmetic left right result
  case compare op l r =>
    obtain ⟨v, result, rfl⟩ := h
    unfold compareConstants at result
    split at result
    · next left right =>
      cases result
      exact .numbers left right
    · split at result
      · next left right => exact .booleans left right result
      · cases result
  case logic op l r =>
    obtain ⟨a, left, b, right, rfl⟩ := h
    exact .logic left right
  case negate operand =>
    obtain ⟨a, inner, rfl⟩ := h
    exact .negate inner

/-- A constant is no operator. -/
theorem Step.kind_ne {p q : Phrase Node} (h : Step p q) : q.kind ≠ p.kind := by
  cases h <;> exact Kind.noConfusion

theorem Step.isConstant {p q : Phrase Node} (h : Step p q) : q.isConstant = true := by
  cases h <;> rfl

theorem Step.children {p q : Phrase Node} (h : Step p q) : q.children = [] :=
  Phrase.children_of_isConstant h.isConstant

theorem Step.operands {p q : Phrase Node} (h : Step p q) :
    ∀ c ∈ p.children, c.phrase.isConstant = true := by
  have number {l r : Node} {a b : Float} (left : l.number? = some a) (right : r.number? = some b) :
      ∀ c ∈ [l, r], c.phrase.isConstant = true := by
    simp [Node.isConstant_of_number? left, Node.isConstant_of_number? right]
  have boolean {l r : Node} {a b : Bool} (left : l.boolean? = some a)
      (right : r.boolean? = some b) : ∀ c ∈ [l, r], c.phrase.isConstant = true := by
    simp [Node.isConstant_of_boolean? left, Node.isConstant_of_boolean? right]
  cases h with
  | arithmetic left right => exact number left right
  | numbers left right => exact number left right
  | booleans left right => exact boolean left right
  | logic left right => exact boolean left right
  | negate inner => exact fun c hc => List.mem_singleton.1 hc ▸ Node.isConstant_of_boolean? inner

theorem Step.isOperator {p q : Phrase Node} (h : Step p q) : p.kind.isOperator = true := by
  cases h <;> rfl

/-- There are no operators below one that is replaced. -/
theorem Step.sum_operators {p q : Phrase Node} (h : Step p q) :
    (p.children.map Node.operators).sum = 0 := by
  rw [List.sum_eq_zero_iff, List.forall_mem_map]
  exact fun c hc => Node.operators_of_isConstant (h.operands c hc)

/-- The node with its operator replaced, if it is one on constants. -/
def foldTop (n : Node) : Node :=
  match fold? n.phrase with
  | none => n
  | some q => .mk n.header q

theorem header_foldTop (n : Node) : (foldTop n).header = n.header := by
  unfold foldTop
  split <;> rfl

/-- A node says what it did, or it was an operator on constants and is now a constant. -/
theorem phrase_foldTop (n : Node) :
    (foldTop n).phrase = n.phrase ∨ Step n.phrase (foldTop n).phrase := by
  unfold foldTop
  split
  · exact .inl rfl
  · next step => exact .inr (step_of_fold? step)

theorem children_foldTop (n : Node) : (foldTop n).children.Sublist n.children := by
  unfold Node.children
  rcases phrase_foldTop n with same | step
  · rw [same]
  · rw [step.children]
    exact List.nil_sublist _

/-- An empty expression is neither folded nor made by folding. -/
theorem isEmptyExpr_foldTop (n : Node) :
    (foldTop n).phrase.isEmptyExpr = n.phrase.isEmptyExpr := by
  rcases phrase_foldTop n with same | step
  · rw [same]
  · generalize n.phrase = p, (foldTop n).phrase = q at step
    cases step <;> rfl

/-- Chains are no operators. -/
theorem statements_foldTop (n : Node) : (foldTop n).statements = n.statements := by
  unfold Node.statements
  rcases phrase_foldTop n with same | step
  · rw [same]
  · generalize n.phrase = p, (foldTop n).phrase = q at step
    cases step <;> rfl

end Folding

theorem Folding.fold?_map_plain (p : Phrase Node) : fold? (p.map Node.plain) = fold? p := by
  cases p <;> simp [Phrase.map, fold?, compareConstants]

/-! ## Folded trees -/

/-- The tree with all operators on constants replaced from the bottom up, and every node as it is
otherwise. -/
def Node.folded : Node → Node := mapNodes Folding.foldTop

def Program.folded (p : Program) : Program := p.mapNodes Folding.foldTop

namespace Node

open Folding

theorem folded_eq (n : Node) : n.folded = foldTop (mk n.header (n.phrase.map folded)) :=
  mapNodes_eq _ n

/-- A node with the children folded, if it is no operator on constants. -/
theorem folded_of_none {n : Node} (h : fold? (n.phrase.map folded) = none) :
    n.folded = mk n.header (n.phrase.map folded) := by
  rw [folded_eq, foldTop, phrase_mk, h]

theorem folded_of_some {n : Node} {q : Phrase Node} (h : fold? (n.phrase.map folded) = some q) :
    n.folded = mk n.header q := by
  rw [folded_eq, foldTop, phrase_mk, h]
  rfl

theorem operators_of_none {n : Node} (h : fold? (n.phrase.map folded) = none) :
    n.folded.operators = (n.children.map fun c => c.folded.operators).sum +
      if n.kind.isOperator then 1 else 0 := by
  rw [folded_of_none h, operators_eq, children, kind, phrase_mk, Phrase.children_map,
    Phrase.kind_map, List.map_map]
  rfl

theorem operators_of_some {n : Node} {q : Phrase Node} (h : fold? (n.phrase.map folded) = some q) :
    n.kind.isOperator = true ∧ n.folded.operators = 0 := by
  have step := step_of_fold? h
  have operator := step.isOperator
  rw [Phrase.kind_map] at operator
  rw [folded_of_some h]
  exact ⟨operator, operators_of_isConstant step.isConstant⟩

@[simp] theorem header_folded (n : Node) : n.folded.header = n.header := by
  rw [folded_eq, header_foldTop, header_mk]

/-- A folded node says what it did, or it was an operator on constants and is now a constant. -/
theorem phrase_folded (n : Node) : n.folded.phrase = n.phrase.map folded ∨
    Step (n.phrase.map folded) n.folded.phrase := by
  rw [folded_eq]
  exact phrase_foldTop _

theorem isEmptyExpr_folded (n : Node) : n.folded.phrase.isEmptyExpr = n.phrase.isEmptyExpr := by
  rw [folded_eq, isEmptyExpr_foldTop, phrase_mk]
  cases n.phrase <;> rfl

/-- An operator that is replaced is no longer what it was. -/
theorem folded_ne_of_some {n : Node} {q : Phrase Node}
    (h : fold? (n.phrase.map folded) = some q) : n.folded ≠ n := by
  intro same
  refine (step_of_fold? h).kind_ne ?_
  rw [Phrase.kind_map]
  rw [folded_of_some h] at same
  exact congrArg kind same

/-- A tree is folded if its children are and it is no operator on constants. -/
theorem folded_eq_self_iff {n : Node} :
    n.folded = n ↔ fold? n.phrase = none ∧ ∀ c ∈ n.children, c.folded = c := by
  have inside : n.phrase.map folded = n.phrase ↔ ∀ c ∈ n.children, c.folded = c :=
    Phrase.map_eq_self_iff
  rw [← inside]
  rcases step : fold? (n.phrase.map folded) with _ | q
  · rw [folded_of_none step]
    refine ⟨fun same => ?_, fun same => ?_⟩
    · have phrase := congrArg phrase same
      rw [phrase_mk] at phrase
      exact ⟨phrase ▸ step, phrase⟩
    · rw [same.2, mk_header_phrase]
  · refine iff_of_false (folded_ne_of_some step) fun same => ?_
    rw [same.2, same.1] at step
    cases step

/-! ## Runs -/

/-- What becomes of a node when it is folded in the state `s`. -/
structure Folds (n : Node) (s : Nat × Supply) (n' : Node) (s' : Nat × Supply) : Prop where
  content : n'.plain = n.folded.plain
  /-- A tree in which nothing is replaced is kept and uses nothing up. -/
  kept : n.folded = n → n' = n ∧ s' = s
  /-- Every other tree gets a new node at the top. -/
  fresh : n.folded ≠ n → s.2.next ≤ n'.id.number
  /-- Every node is one that was there or a new one. -/
  origin : ∀ m ∈ n'.walk, m ∈ n.walk ∨ s.2.next ≤ m.id.number
  later : s.2.next ≤ s'.2.next
  /-- All ids stay different, also from those of other nodes. -/
  distinct : ∀ others, (others ++ n.ids).Nodup → s.2.Covers (others ++ n.ids) →
    (others ++ n'.ids).Nodup ∧ s'.2.Covers (others ++ n'.ids)
  /-- New nodes have no findings. -/
  silent : (∀ m ∈ n.walk, m.diagnostics = []) → ∀ m ∈ n'.walk, m.diagnostics = []
  /-- Every operator that is gone was counted. -/
  counted : s'.1 + n.folded.operators = s.1 + n.operators

/-- What becomes of nodes that are folded one after the other. -/
structure FoldsAll (l : List Node) (s : Nat × Supply) (l' : List Node) (s' : Nat × Supply) :
    Prop where
  content : l'.map plain = l.map fun n => n.folded.plain
  kept : (∀ n ∈ l, n.folded = n) → l' = l ∧ s' = s
  same : ((l'.zip l).all fun c => c.1.isSame c.2) = true ↔ ∀ n ∈ l, n.folded = n
  origin : ∀ m ∈ l'.flatMap walk, m ∈ l.flatMap walk ∨ s.2.next ≤ m.id.number
  later : s.2.next ≤ s'.2.next
  distinct : ∀ others, (others ++ l.flatMap ids).Nodup → s.2.Covers (others ++ l.flatMap ids) →
    (others ++ l'.flatMap ids).Nodup ∧ s'.2.Covers (others ++ l'.flatMap ids)
  silent : (∀ m ∈ l.flatMap walk, m.diagnostics = []) → ∀ m ∈ l'.flatMap walk, m.diagnostics = []
  counted : s'.1 + (l.map fun n => n.folded.operators).sum = s.1 + (l.map operators).sum

section Runs

variable {n n' : Node} {s s' : Nat × Supply}

/-- A new node is told apart from the old one by its id. -/
theorem Folds.isSame_iff (h : n.Folds s n' s') (covered : n.id.number < s.2.next) :
    n'.isSame n = true ↔ n.folded = n := by
  refine ⟨fun same => ?_, fun same => ?_⟩
  · by_contra changed
    have id : n'.id = n.id := by
      unfold isSame at same
      exact eq_of_beq (Bool.and_eq_true_iff.1 same).1
    have new := h.fresh changed
    rw [id] at new
    exact Nat.not_lt_of_le new covered
  · rw [(h.kept same).1]
    simp [isSame]

/-- One node after the other. -/
theorem exists_foldsAll {l : List Node}
    (each : ∀ n ∈ l, ∀ s : Nat × Supply, s.2.Covers n.ids →
      ∃ n' s', n.foldConstants.Gives s n' s' ∧ n.Folds s n' s')
    (covered : s.2.Covers (l.flatMap ids)) :
    ∃ l' s', (l.mapM foldConstants).Gives s l' s' ∧ FoldsAll l s l' s' := by
  induction l generalizing s with
  | nil =>
    refine ⟨[], s, Rewriting.gives_pure_iff.2 ⟨rfl, rfl⟩, rfl, fun _ => ⟨rfl, rfl⟩, ?_,
      fun _ => .inl, Nat.le_refl _, fun others distinct covered => ⟨distinct, covered⟩,
      fun silent => silent, rfl⟩
    simp
  | cons n l ih =>
    rw [List.forall_mem_cons] at each
    rw [List.flatMap_cons, Supply.covers_append_iff] at covered
    obtain ⟨n', t, first, folds⟩ := each.1 s covered.1
    obtain ⟨l', s', others, all⟩ := ih each.2 (covered.2.mono folds.later)
    refine ⟨n' :: l', s', Rewriting.gives_mapM_cons_iff.2 ⟨n', t, l', first, others, rfl⟩, ?_⟩
    constructor
    case content => rw [List.map_cons, List.map_cons, folds.content, all.content]
    case later => exact Nat.le_trans folds.later all.later
    case origin =>
      intro m hm
      rw [List.flatMap_cons, List.mem_append] at hm ⊢
      rcases hm with hm | hm
      · exact (folds.origin m hm).imp_left .inl
      · exact (all.origin m hm).imp .inr (Nat.le_trans folds.later)
    case silent =>
      simp only [List.flatMap_cons, List.forall_mem_append]
      exact fun silent => ⟨folds.silent silent.1, all.silent silent.2⟩
    case counted =>
      have first := folds.counted
      have rest := all.counted
      simp only [List.map_cons, List.sum_cons]
      omega
    case kept =>
      intro same
      rw [List.forall_mem_cons] at same
      obtain ⟨rfl, rfl⟩ := folds.kept same.1
      obtain ⟨rfl, rfl⟩ := all.kept same.2
      exact ⟨rfl, rfl⟩
    case same =>
      have head : n.id.number < s.2.next :=
        covered.1 _ (by rw [ids_eq]; exact List.mem_cons_self)
      rw [List.zip_cons_cons, List.all_cons, Bool.and_eq_true, folds.isSame_iff head, all.same,
        List.forall_mem_cons]
    case distinct =>
      -- while one node is folded, the nodes before and behind it are the others
      intro before distinct covered
      rw [List.flatMap_cons] at distinct covered ⊢
      have swap (a b : List NodeId) :
          (before ++ (a ++ b)).Perm ((before ++ b) ++ a) := by
        rw [List.append_assoc]
        exact List.perm_append_comm.append_left before
      obtain ⟨distinct', covered'⟩ := folds.distinct (before ++ l.flatMap ids)
        ((swap _ _).nodup_iff.1 distinct) fun i hi => covered i ((swap _ _).mem_iff.2 hi)
      rw [← List.append_assoc]
      exact all.distinct (before ++ n'.ids)
        (by rw [List.append_assoc]; exact (swap _ _).nodup_iff.2 distinct')
        fun i hi => covered' i ((swap _ _).mem_iff.1 (by rwa [List.append_assoc] at hi))

theorem foldConstants_eq (n : Node) : n.foldConstants = (do
    let rebuilt ← n.rebuildChildren (n.phrase.map fun c => ⟨c, c.foldConstants⟩)
    match fold? rebuilt.phrase with
    | none => return rebuilt
    | some phrase =>
      modifyThe Nat (· + 1)
      freshly (rebuilt.withPhrase phrase)) :=
  modify_eq_handler _ n

/-- The last step of folding a node, once its children are folded. -/
theorem fold_rebuilt_gives {x : Rewriting Nat Node} {m : Node}
    (rebuilt : x.Gives s m s') : (do
      let rebuilt ← x
      match fold? rebuilt.phrase with
      | none => return rebuilt
      | some phrase =>
        modifyThe Nat (· + 1)
        freshly (rebuilt.withPhrase phrase) : Rewriting Nat Node).Gives s
      (match fold? m.phrase with
        | none => m
        | some q => m.derived ⟨s'.2.next⟩ q)
      (match fold? m.phrase with
        | none => s'
        | some _ => (s'.1 + 1, s'.2.afterNumber)) := by
  refine Rewriting.gives_bind_iff.2 ⟨m, s', rebuilt, ?_⟩
  cases fold? m.phrase with
  | none => exact Rewriting.gives_pure_iff.2 ⟨rfl, rfl⟩
  | some q => rfl

theorem plain_derived (n : Node) (i : NodeId) (p : Phrase Node) :
    (n.derived i p).plain = (mk n.header p).plain := by
  rw [derived, plain_mk, plain_mk]
  rfl

theorem ids_derived {n : Node} {p : Phrase Node} {s : Supply} {others : List NodeId}
    (distinct : (others ++ p.children.flatMap ids).Nodup)
    (covered : s.Covers (others ++ p.children.flatMap ids)) :
    (others ++ (n.derived ⟨s.next⟩ p).ids).Nodup ∧
      s.afterNumber.Covers (others ++ (n.derived ⟨s.next⟩ p).ids) := by
  rw [ids_eq]
  exact Supply.Covers.fresh distinct covered

/-- A node that is replaced by a constant leaves nothing behind. -/
theorem folds_of_step {t : Nat × Supply} {m : Node} {q : Phrase Node}
    (step : fold? (n.phrase.map folded) = some q) (later : s.2.next ≤ t.2.next)
    (below : t.1 + (n.children.map fun c => c.folded.operators).sum =
      s.1 + (n.children.map operators).sum)
    (same : (m.derived ⟨t.2.next⟩ q).plain = (mk n.header q).plain) :
    n.Folds s (m.derived ⟨t.2.next⟩ q) (t.1 + 1, t.2.afterNumber) where
  content := by rw [same, folded_of_some step]
  kept unchanged := absurd unchanged (folded_ne_of_some step)
  fresh _ := later
  origin := by
    rw [walk_eq, List.forall_mem_cons]
    refine ⟨.inr later, ?_⟩
    rw [children, derived, phrase_mk, (step_of_fold? step).children]
    exact List.forall_mem_nil _
  later := Nat.le_succ_of_le later
  distinct others distinct covered := by
    have none : others ++ q.children.flatMap ids = others := by
      rw [(step_of_fold? step).children, List.flatMap_nil, List.append_nil]
    refine ids_derived ?_ ?_ <;> rw [none]
    · exact distinct.of_append_left
    · exact (Supply.covers_append_iff.1 covered).1.mono later
  silent _ := by
    rw [walk_eq, List.forall_mem_cons]
    refine ⟨rfl, fun k hk => ?_⟩
    rw [children, derived, phrase_mk, (step_of_fold? step).children] at hk
    cases hk
  counted := by
    obtain ⟨operator, after⟩ := operators_of_some step
    have none : (n.children.map fun c => c.folded.operators).sum = 0 := by
      have none := (step_of_fold? step).sum_operators
      rwa [Phrase.children_map, List.map_map] at none
    rw [after, operators_eq n, if_pos operator]
    change t.1 + 1 + 0 = _
    omega

/-- Nodes with the same content on top and below have the same content. -/
theorem plain_mk_congr {h : Header} {p q : Phrase Node} (same : p.map plain = q.map plain) :
    (mk h p).plain = (mk h q).plain := by
  rw [plain_mk, plain_mk, same]

/-- Folding a tree that can be rebuilt succeeds. -/
theorem exists_folds (whole : ∀ m ∈ n.walk, m.phrase.Rebuildable) (s : Nat × Supply)
    (covered : s.2.Covers n.ids) :
    ∃ n' s', n.foldConstants.Gives s n' s' ∧ n.Folds s n' s' := by
  induction n using Node.induction generalizing s with
  | step n ih =>
    rw [walk_eq, List.forall_mem_cons, List.forall_mem_flatMap] at whole
    have inside : s.2.Covers (n.children.flatMap ids) := by
      rw [ids_eq] at covered
      exact fun i hi => covered i (List.mem_cons_of_mem _ hi)
    obtain ⟨cs, t, given, all⟩ :=
      exists_foldsAll (fun c hc s => ih c hc (whole.2 c hc) s) inside
    obtain ⟨q, shape, children, rebuilt⟩ := rebuildChildren_gives whole.1 given
    have alike : q.map plain = (n.phrase.map folded).map plain := by
      refine Phrase.ext_children ?_ ?_
      · rw [Phrase.map_map, Phrase.map_map, Phrase.map_map]
        exact shape
      · rw [Phrase.children_map, children, all.content, Phrase.map_map, Phrase.children_map]
        rfl
    have step : fold? q = fold? (n.phrase.map folded) := by
      rw [← fold?_map_plain, alike, fold?_map_plain]
    have below (others : List NodeId) (distinct : (others ++ n.ids).Nodup)
        (covered : s.2.Covers (others ++ n.ids)) :
        (others ++ cs.flatMap ids).Nodup ∧ t.2.Covers (others ++ cs.flatMap ids) := by
      have part : (others ++ n.children.flatMap ids).Sublist (others ++ n.ids) := by
        rw [ids_eq]
        exact (List.sublist_cons_self _ _).append_left others
      exact all.distinct others (distinct.sublist part) fun i hi => covered i (part.subset hi)
    rw [foldConstants_eq]
    have result := fold_rebuilt_gives rebuilt
    by_cases same : ∀ c ∈ n.children, c.folded = c
    · -- all children are kept
      rw [if_pos (all.same.2 same), if_pos (all.same.2 same)] at result
      obtain ⟨rfl, rfl⟩ := all.kept same
      have unchanged : n.phrase.map folded = n.phrase := Phrase.map_eq_self_iff.2 same
      rcases fold : fold? n.phrase with _ | p <;> rw [fold] at result
      · have folded := folded_eq_self_iff.2 ⟨fold, same⟩
        refine ⟨n, t, result, ?_⟩
        exact ⟨by rw [folded], fun _ => ⟨rfl, rfl⟩, absurd folded, fun _ => .inl, Nat.le_refl _,
          fun _ distinct covered => ⟨distinct, covered⟩, fun silent => silent, by rw [folded]⟩
      · exact ⟨_, _, result, folds_of_step (by rwa [unchanged]) (Nat.le_refl _) all.counted
          (plain_derived n _ p)⟩
    · -- some child is new, so the node is made anew before it is folded
      rw [if_neg (mt all.same.1 same), if_neg (mt all.same.1 same)] at result
      have changed : n.folded ≠ n := fun unchanged => same (folded_eq_self_iff.1 unchanged).2
      change Rewriting.Gives _ s
        (match fold? q with | none => _ | some p => _)
        (match fold? q with | none => _ | some _ => _) at result
      rw [step] at result
      rcases fold : fold? (n.phrase.map folded) with _ | p <;> rw [fold] at result
      · refine ⟨_, _, result, ?_, (absurd · changed), fun _ => all.later, ?_,
          Nat.le_succ_of_le all.later, fun others distinct covered => ?_, fun silent => ?_, ?_⟩
        · rw [plain_derived, folded_of_none fold, plain_mk_congr alike]
        · rw [walk_eq, List.forall_mem_cons]
          refine ⟨.inr all.later, ?_⟩
          rw [Node.children, derived, phrase_mk, children, walk_eq n]
          exact fun m hm => (all.origin m hm).imp_left (List.mem_cons_of_mem n)
        · obtain ⟨distinct, covered⟩ := below others distinct covered
          exact ids_derived (children ▸ distinct) (children ▸ covered)
        · rw [walk_eq, List.forall_mem_cons] at silent ⊢
          refine ⟨rfl, ?_⟩
          rw [Node.children, derived, phrase_mk, children]
          exact all.silent silent.2
        · have counted := all.counted
          change t.1 + _ = s.1 + _
          rw [operators_of_none fold, operators_eq n]
          omega
      · refine ⟨_, _, result, folds_of_step fold (Nat.le_succ_of_le all.later) all.counted ?_⟩
        rw [plain_derived]
        rfl

end Runs

end Node

/-! ## Programs -/

namespace Program

/-- Folding keeps the ids of the nodes that remain. -/
theorem ids_folded_sublist (p : Program) : p.folded.ids.Sublist p.ids :=
  p.ids_mapNodes_sublist (fun n => congrArg Header.id (Folding.header_foldTop n))
    Folding.children_foldTop

/-- A node of a program with the content of the folded one comes from a node that was folded. -/
theorem exists_of_content {p q : Program} (content : q.plain = p.folded.plain) {m : Node}
    (mem : m ∈ q.walk) : ∃ n ∈ p.walk, m.plain = n.folded.plain := by
  have mem : m.plain ∈ q.plain.walk := by
    rw [plain_eq, walk_mapHeaders, Node.plain_eq]
    exact List.mem_map_of_mem mem
  rw [content, plain_eq, walk_mapHeaders, ← Node.plain_eq] at mem
  obtain ⟨k, hk, same⟩ := List.mem_map.1 mem
  obtain ⟨i, hi, hk⟩ := List.mem_flatMap.1 hk
  obtain ⟨j, hj, rfl⟩ := List.mem_map.1 hi
  obtain ⟨n, hn, rfl⟩ :=
    Node.exists_of_mem_walk_mapNodes (fun n => (Folding.children_foldTop n).subset) hk
  exact ⟨n, List.mem_flatMap.2 ⟨j, hj, hn⟩, same.symm⟩

/-- Folding a node of a program that was read succeeds. -/
theorem exists_folds_of_mem {registry : KindRegistry} {d : Document} {p : Program} {s s' : Supply}
    (read : (ofDocument registry d).run s = (.ok p, s')) {n : Node} (mem : n ∈ p.walk)
    {t : Nat × Supply} (later : s'.next ≤ t.2.next) :
    ∃ n' t', n.foldConstants.Gives t n' t' ∧ n.Folds t n' t' := by
  obtain ⟨-, -, covered⟩ := ids_of_ofDocument read
  refine Node.exists_folds (fun m hm => ?_) t fun i hi => ?_
  · exact (regular_of_ofDocument read m (walk_subset mem hm)).rebuildable
  · obtain ⟨m, hm, rfl⟩ := List.mem_map.1 hi
    exact covered.mono later _ (List.mem_map_of_mem (walk_subset mem hm))

/-- Folding a program that can be rebuilt succeeds, chain after chain. -/
theorem exists_bodies_folds_of_whole {p : Program} (whole : ∀ n ∈ p.walk, n.phrase.Rebuildable)
    {t : Nat × Supply} (covered : t.2.Covers p.ids) :
    ∃ bodies t', p.foldConstants.Gives t
        { p with instances := Instance.withBodies p.instances bodies } t' ∧
      bodies.length = p.instances.length ∧ Node.FoldsAll (p.instances.map (·.body)) t bodies t' := by
  obtain ⟨bodies, t', given, all⟩ := Node.exists_foldsAll (l := p.instances.map (·.body)) (s := t)
    (by
      rw [List.forall_mem_map]
      exact fun i hi => Node.exists_folds fun n hn => whole n (List.mem_flatMap.2 ⟨i, hi, hn⟩))
    (by rwa [List.flatMap_map, ← ids_eq])
  exact ⟨bodies, t', mapBodies_gives given,
    (Rewriting.length_of_gives_mapM given).trans (List.length_map _), all⟩

/-- Folding a program that was read succeeds, chain after chain. -/
theorem exists_bodies_folds {registry : KindRegistry} {d : Document} {p : Program} {s s' : Supply}
    (read : (ofDocument registry d).run s = (.ok p, s')) {t : Nat × Supply}
    (later : s'.next ≤ t.2.next) :
    ∃ bodies t', p.foldConstants.Gives t
        { p with instances := Instance.withBodies p.instances bodies } t' ∧
      bodies.length = p.instances.length ∧ Node.FoldsAll (p.instances.map (·.body)) t bodies t' :=
  exists_bodies_folds_of_whole (fun n hn => (regular_of_ofDocument read n hn).rebuildable)
    ((ids_of_ofDocument read).2.2.mono later)

/-- What becomes of a program when it is folded in the state `s`. -/
structure Folds (p : Program) (s : Nat × Supply) (q : Program) (s' : Nat × Supply) : Prop where
  content : q.plain = p.folded.plain
  /-- Every node is one that was there or a new one. -/
  origin : ∀ n ∈ q.walk, n ∈ p.walk ∨ s.2.next ≤ n.id.number
  later : s.2.next ≤ s'.2.next
  distinct : q.ids.Nodup
  covered : s'.2.Covers q.ids
  /-- Every operator that is gone was counted. -/
  counted : s'.1 + q.operators = s.1 + p.operators

/-- Folding a program that can be rebuilt succeeds. -/
theorem exists_folds_of_whole {p : Program} (whole : ∀ n ∈ p.walk, n.phrase.Rebuildable)
    {t : Nat × Supply} (distinct : p.ids.Nodup) (covered : t.2.Covers p.ids) :
    ∃ q t', p.foldConstants.Gives t q t' ∧ p.Folds t q t' := by
  have ids (p : Program) : (p.instances.map (·.body)).flatMap Node.ids = p.ids := by
    rw [ids_eq, List.flatMap_map]
  have walk (p : Program) : (p.instances.map (·.body)).flatMap Node.walk = p.walk := by
    rw [Program.walk, List.flatMap_map]
  obtain ⟨bodies, t', given, length, all⟩ := exists_bodies_folds_of_whole whole covered
  refine ⟨_, t', given, ?_⟩
  have apart := all.distinct [] (by rwa [List.nil_append, ids]) (by rwa [List.nil_append, ids])
  rw [List.nil_append] at apart
  constructor
  case content =>
    have bodies' : bodies.map Node.plain = p.instances.map fun i => i.body.folded.plain := by
      rw [all.content, List.map_map]
      rfl
    rw [plain, plain, Instance.map_withBodies, bodies', Instance.withBodies_map, folded, mapNodes,
      List.map_map]
    rfl
  case origin =>
    rw [← walk, Instance.bodies_withBodies length, ← walk p]
    exact all.origin
  case later => exact all.later
  case distinct =>
    rw [← ids, Instance.bodies_withBodies length]
    exact apart.1
  case covered =>
    rw [← ids, Instance.bodies_withBodies length]
    exact apart.2
  case counted =>
    have after : bodies.map Node.operators =
        (p.instances.map (·.body)).map fun n => n.folded.operators := by
      have after := congrArg (List.map Node.operators) all.content
      simpa only [List.map_map, Function.comp_def, Node.operators_plain] using after
    rw [operators_eq, operators_eq p, ← all.counted, Instance.bodies_withBodies length, after]

/-- Folding a program that was read succeeds, with the content of the folded program and with all
operators counted that are gone. -/
theorem exists_folds {registry : KindRegistry} {d : Document} {p : Program} {s s' : Supply}
    (read : (ofDocument registry d).run s = (.ok p, s')) {t : Nat × Supply}
    (later : s'.next ≤ t.2.next) :
    ∃ q t', p.foldConstants.Gives t q t' ∧ q.plain = p.folded.plain ∧ q.ids.Nodup ∧
      t'.1 + q.operators = t.1 + p.operators := by
  obtain ⟨-, distinct, covered⟩ := ids_of_ofDocument read
  obtain ⟨q, t', given, folds⟩ := exists_folds_of_whole
    (fun n hn => (regular_of_ofDocument read n hn).rebuildable) distinct (covered.mono later)
  exact ⟨q, t', given, folds.content, folds.distinct, folds.counted⟩

end Program

/-- A block with a number. -/
def numberBlock (id text : String) : Block :=
  .mk { id, type := "math_number", fields := [⟨"NUM", text⟩] }

/-- A pause of `(1 + 2) · x`. -/
def product : Document where
  formatVersion := "3.1"
  instances := [{ blocks := [.mk {
    id := "a", type := "robControls_wait_time"
    values := [⟨"WAIT", .mk {
      id := "b", type := "math_arithmetic", fields := [⟨"OP", "MULTIPLY"⟩]
      values := [
        ⟨"A", .mk {
          id := "c", type := "math_arithmetic", fields := [⟨"OP", "ADD"⟩]
          values := [⟨"A", numberBlock "d" "1"⟩, ⟨"B", numberBlock "e" "2"⟩] }⟩,
        ⟨"B", .mk { id := "f", type := "variables_get", fields := [⟨"VAR", "x"⟩] }⟩] }⟩] }] }]

/-- The sum in it. -/
def sumNode : Node :=
  let one : Node := .mk { id := ⟨1⟩, sealed := true, blockId := "d" } (.numConst "1")
  let two : Node := .mk { id := ⟨2⟩, sealed := true, blockId := "e" } (.numConst "2")
  .mk { id := ⟨3⟩, sealed := true, blockId := "c" } (.arithmetic .add one two)

/-- The product in it. -/
def productNode : Node :=
  let x : Node := .mk { id := ⟨4⟩, sealed := true, blockId := "f" } (.varRef "x")
  .mk { id := ⟨5⟩, sealed := true, blockId := "b" } (.arithmetic .multiply sumNode x)

/-- What is read from the document. -/
def productProgram : Program where
  formatVersion := "3.1"
  instances := [⟨0, 0, .mk { id := ⟨7⟩, sealed := true }
    (.stmtList [.mk { id := ⟨6⟩, sealed := true, blockId := "a" } (.waitTime productNode)])⟩]

theorem exists_ofDocument_product :
    ∃ s, (Program.ofDocument .core product).run {} = (.ok productProgram, s) := by
  refine ⟨{ next := 8 }, ?_⟩
  cbv

end BlockGraph

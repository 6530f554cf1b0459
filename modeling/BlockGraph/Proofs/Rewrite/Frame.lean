import BlockGraph.Proofs.Rewrite.NormalForm

/-!
# What folding leaves as it is

A run of constant folding touches operators and their operands only. Everything else stands where it
stood, under the same block and with the same attributes. This is said place by place, with a path
from the top of a chain to each node.

* `Program.at?`: the node in a place.
* `Node.Frames`, `Program.Frames`: what a folded program has in common with the original.
* `Node.operators_folded_eq_iff`: a tree without a fold keeps its operators, every other loses some.
* `Program.frames_foldConstants`: a run on a program that was read leaves such a program, and
  counts the operators that are gone.
-/

namespace BlockGraph

/-! ## Places -/

/-- The node in a place: the path tells which child to go to, step by step. -/
def Node.at? : List Nat → Node → Option Node
  | [], n => some n
  | i :: path, n => n.children[i]?.bind (at? path)

/-- The node in a place of the chain with the given number. -/
def Program.at? (p : Program) (i : Nat) (path : List Nat) : Option Node :=
  p.instances[i]?.bind fun j => j.body.at? path

theorem Node.at?_plain (n : Node) (path : List Nat) :
    n.plain.at? path = (n.at? path).map plain := by
  induction path generalizing n with
  | nil => rfl
  | cons i path ih =>
    rw [at?, at?, children_plain, List.getElem?_map]
    cases n.children[i]? with
    | none => rfl
    | some c => exact ih c

theorem Program.at?_plain (p : Program) (i : Nat) (path : List Nat) :
    p.plain.at? i path = (p.at? i path).map Node.plain := by
  unfold at? plain
  rw [List.getElem?_map]
  cases p.instances[i]? with
  | none => rfl
  | some j => exact j.body.at?_plain path

theorem Program.at?_folded (p : Program) (i : Nat) (path : List Nat) :
    p.folded.at? i path = p.instances[i]?.bind fun j => j.body.folded.at? path := by
  unfold at? folded mapNodes
  rw [List.getElem?_map]
  cases p.instances[i]? <;> rfl

/-! ## Frames -/

/-- What the kind of an operator turns into when the operator is replaced. -/
def Folding.Turns (before after : Kind) : Prop :=
  before = .arithmetic ∧ after = .numConst ∨
    (before = .compare ∨ before = .logic ∨ before = .negate) ∧ after = .boolConst

theorem Folding.Step.turns {p q : Phrase Node} (h : Step p q) : Turns p.kind q.kind := by
  cases h with
  | arithmetic => exact .inl ⟨rfl, rfl⟩
  | numbers | booleans => exact .inr ⟨.inl rfl, rfl⟩
  | logic => exact .inr ⟨.inr (.inl rfl), rfl⟩
  | negate => exact .inr ⟨.inr (.inr rfl), rfl⟩

/-- What a node has in common with the one that stood in its place before folding. -/
structure Node.Frames (n m : Node) : Prop where
  block : m.blockId? = n.blockId?
  attributes : m.attributes = n.attributes
  comment : m.comment? = n.comment?
  kind : m.kind = n.kind ∨ Folding.Turns n.kind m.kind
  /-- Unless it was replaced, only children of the node were. -/
  shape : m.kind = n.kind → m.phrase.map (fun _ => ()) = n.phrase.map fun _ => ()
  /-- A chain lists the same blocks in the same order. -/
  statements : m.statements.map Node.blockId? = n.statements.map Node.blockId?

/-- What a folded program has in common with the original. -/
structure Program.Frames (p q : Program) : Prop where
  /-- Every node stands in the place of a node that it has all this in common with. -/
  places : ∀ i path m, q.at? i path = some m → ∃ n, p.at? i path = some n ∧ n.Frames m
  /-- No chain is gone. -/
  chains : ∀ i path n, p.at? i path = some n → n.kind = .stmtList →
    ∃ m, q.at? i path = some m ∧ n.Frames m
  /-- A block tells which node this is. -/
  blocks : ∀ m ∈ q.walk, ∀ id, m.blockId? = some id →
    ∃ n ∈ p.walk, (∀ k ∈ p.walk, k.blockId? = some id ↔ k = n) ∧ n.Frames m

namespace Node

open Folding

variable {n m : Node}

theorem statements_folded (n : Node) : n.folded.statements = n.statements.map folded := by
  rw [folded_eq, statements_foldTop, statements_mk_map]

theorem frames_of_content (content : m.plain = n.folded.plain) : n.Frames m := by
  obtain ⟨block, attributes, comment, phrase⟩ := plain_eq_iff.1 content
  have header := n.header_folded
  have kind : m.kind = n.folded.kind := by rw [← kind_plain, content, kind_plain]
  have shape := congrArg (Phrase.map fun _ => ()) phrase
  rw [Phrase.map_map, Phrase.map_map] at shape
  have statements : m.statements.map plain = n.folded.statements.map plain := by
    rw [← statements_plain, content, statements_plain]
  refine ⟨block.trans (congrArg Header.blockId header),
    attributes.trans (congrArg Header.attributes header),
    comment.trans (congrArg Header.comment header), ?_, fun same => ?_, ?_⟩
  · rw [kind, Node.kind]
    rcases phrase_folded n with same | step
    · rw [same, Phrase.kind_map]
      exact .inl rfl
    · have turns := step.turns
      rw [Phrase.kind_map] at turns
      exact .inr turns
  · rcases phrase_folded n with kept | step
    · rw [kept, Phrase.map_map] at shape
      exact shape
    · refine absurd ?_ step.kind_ne
      rw [Phrase.kind_map]
      exact kind.symm.trans same
  · have plain : blockId? ∘ plain = blockId? := funext blockId?_plain
    have folded : blockId? ∘ folded = blockId? :=
      funext fun n => congrArg Header.blockId n.header_folded
    have ids := congrArg (List.map blockId?) statements
    rwa [statements_folded, List.map_map, List.map_map, plain, List.map_map, folded] at ids

theorem isConstant_folded_of_chain (chain : n.kind = .stmtList) :
    n.folded.phrase.isConstant = false := by
  obtain ⟨h, p⟩ := n
  cases p <;> cases chain
  rw [folded_of_none rfl]
  rfl

/-- Where a folded tree has a node, the original has the node that this one comes from. -/
theorem exists_at?_of_folded {path : List Nat} (h : n.folded.at? path = some m) :
    ∃ k, n.at? path = some k ∧ k.folded = m := by
  induction path generalizing n with
  | nil =>
    cases h
    exact ⟨n, rfl, rfl⟩
  | cons i path ih =>
    rw [at?, children] at h
    rw [at?]
    rcases phrase_folded n with same | step
    · rw [same, Phrase.children_map, List.getElem?_map] at h
      change (n.children[i]?.map folded).bind _ = _ at h
      cases child : n.children[i]? with
      | none =>
        rw [child] at h
        cases h
      | some c =>
        rw [child] at h
        exact ih h
    · rw [step.children] at h
      cases h

/-- Only constants vanish, together with the operators on them. -/
theorem at?_folded {path : List Nat} (h : n.at? path = some m)
    (other : m.folded.phrase.isConstant = false) : n.folded.at? path = some m.folded := by
  induction path generalizing n with
  | nil =>
    cases h
    rfl
  | cons i path ih =>
    rw [at?] at h ⊢
    cases child : n.children[i]? with
    | none =>
      rw [child] at h
      cases h
    | some c =>
      rw [child] at h
      have below := ih h
      rcases phrase_folded n with same | step
      · rw [children, same, Phrase.children_map, List.getElem?_map]
        change (n.children[i]?.map folded).bind _ = _
        rw [child]
        exact below
      · -- the operands are constants, so there is nothing below them
        have mem : c.folded ∈ (n.phrase.map folded).children := by
          rw [Phrase.children_map]
          exact List.mem_map_of_mem (List.mem_of_getElem? child)
        have constant := step.operands _ mem
        cases path with
        | nil =>
          rw [← Option.some.inj below, constant] at other
          cases other
        | cons j path =>
          rw [at?, children, Phrase.children_of_isConstant constant] at below
          cases below

/-! ## Counting -/

/-- A tree that is folded loses operators. -/
theorem operators_folded_lt (changed : n.folded ≠ n) : n.folded.operators < n.operators := by
  induction n using Node.induction with
  | step n ih =>
    have le (c : Node) (hc : c ∈ n.children) : c.folded.operators ≤ c.operators := by
      by_cases same : c.folded = c
      · rw [same]
      · exact Nat.le_of_lt (ih c hc same)
    rcases step : fold? (n.phrase.map folded) with _ | q
    · have some : ∃ c ∈ n.children, c.folded ≠ c := by
        by_contra all
        push Not at all
        refine changed (folded_eq_self_iff.2 ⟨?_, all⟩)
        rwa [Phrase.map_eq_self_iff.2 all] at step
      obtain ⟨c, hc, changed⟩ := some
      rw [operators_of_none step, operators_eq n]
      exact Nat.add_lt_add_right (List.sum_lt_sum _ _ le ⟨c, hc, ih c hc changed⟩) _
    · obtain ⟨operator, none⟩ := operators_of_some step
      rw [none, operators_eq, if_pos operator]
      exact Nat.succ_pos _

/-- Only a tree in which nothing is replaced has as many operators as before. -/
theorem operators_folded_eq_iff : n.folded.operators = n.operators ↔ n.folded = n := by
  refine ⟨fun same => ?_, fun same => by rw [same]⟩
  by_contra changed
  exact Nat.ne_of_lt (operators_folded_lt changed) same

end Node

/-! ## Runs -/

namespace Program

variable {registry : KindRegistry} {d : Document} {p q : Program} {s s' : Supply}

theorem frames_of_content (read : (ofDocument registry d).run s = (.ok p, s'))
    (content : q.plain = p.folded.plain) : p.Frames q := by
  have same (i : Nat) (path : List Nat) :
      (q.at? i path).map Node.plain = (p.folded.at? i path).map Node.plain := by
    rw [← at?_plain, content, at?_plain]
  constructor
  case places =>
    intro i path m place
    have same := same i path
    rw [place, at?_folded] at same
    cases chain : p.instances[i]? with
    | none =>
      rw [chain] at same
      cases same
    | some j =>
      rw [chain] at same
      obtain ⟨k, folded, same⟩ := Option.map_eq_some_iff.1 same.symm
      obtain ⟨n, place, rfl⟩ := Node.exists_at?_of_folded folded
      refine ⟨n, ?_, Node.frames_of_content same.symm⟩
      rw [at?, chain]
      exact place
  case chains =>
    intro i path n place kind
    obtain ⟨j, chain, place⟩ := Option.bind_eq_some_iff.1 place
    have folded := Node.at?_folded place (Node.isConstant_folded_of_chain kind)
    have same := same i path
    rw [at?_folded, chain] at same
    change _ = (j.body.folded.at? path).map Node.plain at same
    rw [folded] at same
    obtain ⟨m, place, content⟩ := Option.map_eq_some_iff.1 same
    exact ⟨m, place, Node.frames_of_content content⟩
  case blocks =>
    intro m mem id block
    obtain ⟨n, hn, same⟩ := exists_of_content content mem
    have frames := Node.frames_of_content same
    have blocks := (ofDocument_eq_ok_iff.1 ⟨p, s', read, rfl⟩).2
    rw [blockIds_bare] at blocks
    rw [frames.block] at block
    refine ⟨n, hn, fun k hk => ⟨fun block' => ?_, fun same => same ▸ block⟩, frames⟩
    exact eq_of_blockId? blocks hk hn block' block

/-- A run of folding on a program that was read changes nothing but operators on constants, and
counts how many operators are gone. A run on a single node gives back this very node if it counts
nothing, which is so if there are no operators on constants in the tree. -/
theorem frames_foldConstants (read : (ofDocument registry d).run s = (.ok p, s')) {t : Supply}
    (later : s'.next ≤ t.next) (k : Nat) :
    ∃ q k' t', (p.foldConstants.runFrom k).run t = (.ok (q, k'), t') ∧ p.Frames q ∧
      k' + q.operators = k + p.operators ∧
      ∀ n ∈ p.walk, ∀ (l : Nat) (u : Supply), s'.next ≤ u.next →
        ∃ n' l' u', (n.foldConstants.runFrom l).run u = (.ok (n', l'), u') ∧
          (n'.isSame n = true ↔ l' = l) ∧ (l' = l → n' = n) ∧
          (l' = l ↔ ∀ m ∈ n.walk, Folding.fold? m.phrase = none) := by
  obtain ⟨q, u, given, content, -, counted⟩ := exists_folds read (t := (k, t)) later
  refine ⟨q, u.1, u.2, Rewriting.runFrom_eq_ok_iff.2 given, frames_of_content read content, counted,
    fun n mem l u later => ?_⟩
  obtain ⟨n', v, given, folds⟩ := exists_folds_of_mem read mem (t := (l, u)) later
  have covered : n.id.number < u.next :=
    Nat.lt_of_lt_of_le ((ids_of_ofDocument read).2.2 _ (List.mem_map_of_mem mem)) later
  have uncounted : v.1 = l ↔ n.folded = n := by
    have counted : v.1 + n.folded.operators = l + n.operators := folds.counted
    rw [← Node.operators_folded_eq_iff]
    omega
  refine ⟨n', v.1, v.2, Rewriting.runFrom_eq_ok_iff.2 given, ?_, fun none => ?_, ?_⟩
  · rw [uncounted]
    exact folds.isSame_iff covered
  · exact (folds.kept (uncounted.1 none)).1
  · rw [uncounted, Node.folded_eq_self_iff_forall]

/-- The sum in the product is the one operator that is gone. -/
theorem frames_foldConstants_product :
    ∃ s, (ofDocument .core product).run {} = (.ok productProgram, s) ∧
      ∃ q k' t', (productProgram.foldConstants.runFrom 0).run s = (.ok (q, k'), t') ∧
        productProgram.Frames q ∧ k' + q.operators = 2 ∧
        ∀ n ∈ productProgram.walk, ∀ (l : Nat) (u : Supply), s.next ≤ u.next →
          ∃ n' l' u', (n.foldConstants.runFrom l).run u = (.ok (n', l'), u') ∧
            (n'.isSame n = true ↔ l' = l) ∧ (l' = l → n' = n) ∧
            (l' = l ↔ ∀ m ∈ n.walk, Folding.fold? m.phrase = none) := by
  obtain ⟨s, read⟩ := exists_ofDocument_product
  obtain ⟨q, k', t', given, frames, counted, single⟩ :=
    frames_foldConstants read (Nat.le_refl _) 0
  have two : productProgram.operators = 2 := by decide
  exact ⟨s, read, q, k', t', given, frames, by rw [counted, two], single⟩

end Program

end BlockGraph

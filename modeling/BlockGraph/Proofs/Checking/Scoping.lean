import BlockGraph.Proofs.Checking.Visits
import BlockGraph.Proofs.Node.Bodies
import Mathlib.Data.List.Flatten
import Mathlib.Data.List.Perm.Subperm

/-!
# Scopes

Which declaration or loop a name belongs to depends on two things only: the order in which a run
comes to the nodes, and the chains that methods and loops over variables keep to themselves.

* `Node.visits`: the nodes that deal with names, in the order in which a round comes to them, each
  with the chains it is in.
* `Visit.binder?`: what a name belongs to, given what was visited before.
* `Visit.gather`: what a run is to report, to list and to count as used, visit by visit.
* `Node.mem_inside_iff`: the chains a visited node is in are those of the tree.
-/

namespace BlockGraph

/-! ## Visits -/

namespace Phrase

variable {α β : Type}

/-- The children that a check comes to before it deals with the name of its node. -/
def before : Phrase α → List α
  | varDeclaration _ _ value => [value]
  | forLoop _ start stop step _ => [start, stop, step]
  | _ => []

/-- The children that a check comes to after that, but for the chain that the node keeps to
itself. -/
def after (board : Board) (round : Round) : Phrase α → List α
  | varDeclaration .. | forLoop .. | methodDef .. => []
  | mainTask _ declarations => if round = .declarations then [declarations] else []
  | ifElse conditions branches otherwise =>
    (conditions.zip branches).flatMap (fun c => [c.1, c.2]) ++ otherwise.toList
  | extension spec slots =>
    if board.extensionKinds.contains spec then (extension spec slots).children else []
  | p => p.children

/-- Whether a node declares, binds or uses a name, or has a chain that keeps names to itself. -/
def dealsWithNames : Phrase α → Bool
  | varDeclaration .. | forLoop .. | methodDef .. | assign .. | varRef .. => true
  | _ => false

theorem before_map (f : α → β) (p : Phrase α) : (p.map f).before = p.before.map f := by
  cases p <;> rfl

theorem after_map (board : Board) (round : Round) (f : α → β) (p : Phrase α) :
    (p.map f).after board round = (p.after board round).map f := by
  cases p with
  | mainTask debug declarations => simp only [map, after]; split <;> rfl
  | ifElse conditions branches otherwise =>
    simp [map, after, List.zip_map, List.flatMap_map, List.map_flatMap, Option.toList_map]
  | extension spec slots =>
    have same := children_map f (extension spec slots)
    simp only [map, after] at same ⊢
    split
    · exact same
    · rfl
  | _ => rfl

theorem dealsWithNames_map (f : α → β) (p : Phrase α) :
    (p.map f).dealsWithNames = p.dealsWithNames := by
  cases p <;> rfl

end Phrase

/-- A node that deals with names, and the nodes that keep a chain with it to themselves. -/
structure Visit where
  node : Node
  inside : List NodeId

/-- What a check visits below and including a node, given what is visited below its children. -/
def Phrase.route {α : Type} (board : Board) (round : Round) (n : Node) (inside : List NodeId)
    (visits : α → List NodeId → List Visit) (p : Phrase α) : List Visit :=
  p.before.flatMap (visits · inside) ++ (if p.dealsWithNames then [⟨n, inside⟩] else []) ++
    (p.after board round).flatMap (visits · inside) ++
    p.ownBody?.toList.flatMap (visits · (n.id :: inside))

theorem Phrase.route_map {α β : Type} {board : Board} {round : Round} {n : Node}
    {inside : List NodeId} {visits : β → List NodeId → List Visit} (f : α → β) (p : Phrase α) :
    (p.map f).route board round n inside visits =
      p.route board round n inside fun c => visits (f c) := by
  rw [route, before_map, after_map, dealsWithNames_map, ownBody?_map, Option.toList_map]
  simp only [List.flatMap_map]
  rfl

namespace Node

/-- What a round visits below and including a node that is inside the given chains. -/
def visits (board : Board) (round : Round) : Node → List NodeId → List Visit :=
  recurse fun n p inside => if n.isActive then p.route board round n inside (·.result) else []

theorem visits_eq (board : Board) (round : Round) (n : Node) (inside : List NodeId) :
    n.visits board round inside =
      if n.isActive then n.phrase.route board round n inside (visits board round) else [] := by
  rw [visits, recurse_eq, Phrase.route_map]

/-- The name of a declared variable. -/
def declared? (n : Node) : Option String :=
  match n.phrase with
  | .varDeclaration name .. => some name
  | _ => none

/-- The name of the variable of a loop. -/
def loopVar? (n : Node) : Option String :=
  match n.phrase with
  | .forLoop var .. => some var
  | _ => none

/-- The name of a variable that is read or set. -/
def used? (n : Node) : Option String :=
  match n.phrase with
  | .varRef name | .assign name _ => some name
  | _ => none

theorem loopVar?_of_declared? {n : Node} {x : String} (declared : n.declared? = some x) :
    n.loopVar? = none := by
  rw [declared?] at declared
  rw [loopVar?]
  cases phrase : n.phrase with
  | forLoop => rw [phrase] at declared; cases declared
  | _ => rfl

end Node

/-- What a run visits: the chains of start blocks on the canvas, and then all chains without
these. -/
def Program.visits (board : Board) (p : Program) : List Visit :=
  ((Checker.topLevel p).filter (·.kind = .mainTask)).flatMap (·.visits board .declarations []) ++
    p.instances.flatMap (·.body.visits board .chains [])

namespace Visit

/-! ## Binders -/

/-- What a name belongs to inside some chains, given what was visited before, latest first: the
latest declaration in these chains that repeats no name, or the latest loop with its chain among
them. -/
def binder? (x : String) : List Visit → List NodeId → Option Node
  | [], _ => none
  | v :: past, inside =>
    if v.node.declared? = some x ∧ (∀ i ∈ v.inside, i ∈ inside) ∧
          (binder? x past v.inside).isNone ∨
        v.node.loopVar? = some x ∧ v.node.id ∈ inside then some v.node
    else binder? x past inside

/-- Whether a visited node can be what a name belongs to, given what was visited before the node. -/
def Offers (x : String) (inside : List NodeId) (v : Visit) (past : List Visit) : Prop :=
  v.node.declared? = some x ∧ (∀ i ∈ v.inside, i ∈ inside) ∧ (binder? x past v.inside).isNone ∨
    v.node.loopVar? = some x ∧ v.node.id ∈ inside

/-- Every visit is inside chains of nodes that were visited before. -/
def Nested : List Visit → Prop
  | [] => True
  | v :: past => v.inside ⊆ past.map (·.node.id) ∧ Nested past

section Binders

variable {x : String} {v : Visit} {vs past : List Visit} {inside : List NodeId} {i : NodeId}

theorem binder?_cons (h : ¬ Offers x inside v past) :
    binder? x (v :: past) inside = binder? x past inside := by
  rw [binder?]
  exact if_neg h

theorem binder?_cons_self (h : Offers x inside v past) :
    binder? x (v :: past) inside = some v.node := by
  rw [binder?]
  exact if_pos h

theorem binder?_append {newer : List Visit}
    (none : ∀ w older, w :: older <:+ newer → ¬ Offers x inside w (older ++ past)) :
    binder? x (newer ++ past) inside = binder? x past inside := by
  induction newer with
  | nil => rfl
  | cons v newer ih =>
    rw [List.cons_append, binder?_cons (none v newer (List.suffix_refl _))]
    exact ih fun w older suffix => none w older (suffix.trans (List.suffix_cons _ _))

theorem binder?_eq_none_iff : binder? x past inside = none ↔
    ∀ v older, v :: older <:+ past → ¬ Offers x inside v older := by
  induction past with
  | nil => simp [binder?]
  | cons v past ih =>
    by_cases offers : Offers x inside v past
    · rw [binder?_cons_self offers]
      exact ⟨fun h => absurd h (Option.some_ne_none _),
        fun h => absurd offers (h v past (List.suffix_refl _))⟩
    · rw [binder?_cons offers, ih]
      refine forall₂_congr fun w older => ?_
      rw [List.suffix_cons_iff, List.cons.injEq]
      refine ⟨fun h => ?_, fun h suffix => h (.inr suffix)⟩
      rintro (⟨rfl, rfl⟩ | suffix)
      · exact offers
      · exact h suffix

/-- A name belongs to the latest node that it can belong to. -/
theorem binder?_eq_some_iff {b : Node} : binder? x past inside = some b ↔
    ∃ newer v older, past = newer ++ v :: older ∧ v.node = b ∧ Offers x inside v older ∧
      ∀ w mid, w :: mid <:+ newer → ¬ Offers x inside w (mid ++ v :: older) := by
  refine ⟨fun h => ?_, ?_⟩
  · induction past with
    | nil => cases h
    | cons v past ih =>
      by_cases offers : Offers x inside v past
      · rw [binder?_cons_self offers] at h
        exact ⟨[], v, past, rfl, Option.some.inj h, offers, by simp⟩
      · rw [binder?_cons offers] at h
        obtain ⟨newer, w, older, rfl, same, there, latest⟩ := ih h
        refine ⟨v :: newer, w, older, rfl, same, there, fun u mid suffix => ?_⟩
        rw [List.suffix_cons_iff, List.cons.injEq] at suffix
        rcases suffix with ⟨rfl, rfl⟩ | suffix
        · exact offers
        · exact latest u mid suffix
  · rintro ⟨newer, v, older, rfl, rfl, offers, latest⟩
    rw [binder?_append latest, binder?_cons_self offers]

theorem Nested.inside_subset (h : Nested past) (suffix : v :: vs <:+ past) :
    v.inside ⊆ vs.map (·.node.id) := by
  induction past with
  | nil => cases List.eq_nil_of_suffix_nil suffix
  | cons u past ih =>
    rcases List.suffix_cons_iff.1 suffix with same | suffix
    · obtain ⟨rfl, rfl⟩ := List.cons.inj same
      exact h.1
    · exact ih h.2 suffix

/-- In a new chain one sees what one saw before. -/
theorem binder?_enter (nested : Nested past) (fresh : i ∉ past.map (·.node.id)) :
    binder? x past (i :: inside) = binder? x past inside := by
  induction past with
  | nil => rfl
  | cons v past ih =>
    rw [List.map_cons, List.mem_cons, not_or] at fresh
    obtain ⟨other, fresh⟩ := fresh
    have apart : ∀ j ∈ v.inside, j ≠ i := fun j hj same => fresh (same ▸ nested.1 hj)
    have sub : (∀ j ∈ v.inside, j ∈ i :: inside) ↔ ∀ j ∈ v.inside, j ∈ inside :=
      forall₂_congr fun j hj => by rw [List.mem_cons, or_iff_right (apart j hj)]
    have loop : v.node.id ∈ i :: inside ↔ v.node.id ∈ inside := by
      rw [List.mem_cons, or_iff_right (Ne.symm other)]
    simp only [binder?, sub, loop, ih nested.2 fresh]

/-- Outside of a chain one sees nothing of it. -/
theorem binder?_leave (within : ∀ v ∈ vs, i ∈ v.inside) (outside : i ∉ inside)
    (later : ∀ v ∈ vs, v.node.id ∉ inside) :
    binder? x (vs ++ past) inside = binder? x past inside := by
  refine binder?_append fun v older suffix => ?_
  have mem : v ∈ vs := suffix.subset List.mem_cons_self
  rintro (⟨-, sub, -⟩ | ⟨-, loop⟩)
  · exact outside (sub i (within v mem))
  · exact later v mem loop

end Binders

/-! ## What is to be reported -/

/-- What is made of one visit after the other, each with what was visited before. -/
def gather {β : Type} (f : Visit → List Visit → List β) : List Visit → List β
  | [] => []
  | v :: past => gather f past ++ f v past

/-- What is wrong with the name of a visited node. -/
def faults (v : Visit) (past : List Visit) : List (DiagnosticCode × Option Location) :=
  (v.node.used?.toList.filter fun x => (binder? x past v.inside).isNone).map
      (fun _ => (.undeclaredVariable, some v.node.location)) ++
    (v.node.declared?.toList.filter fun x => (binder? x past v.inside).isSome).map
      fun _ => (.duplicateVariable, some v.node.location)

/-- The variable that a visited node brings into scope. -/
def declares (v : Visit) (past : List Visit) : List (Node × String) :=
  (v.node.declared?.toList.filter fun x => (binder? x past v.inside).isNone).map (v.node, ·)

/-- The node to which the name of a visited node belongs. -/
def uses (v : Visit) (past : List Visit) : List NodeId :=
  v.node.used?.toList.flatMap fun x => ((binder? x past v.inside).map Node.id).toList

section Gather

variable {β : Type} {f : Visit → List Visit → List β} {v : Visit} {past : List Visit}

theorem mem_gather_iff {b : β} :
    b ∈ gather f past ↔ ∃ v older, v :: older <:+ past ∧ b ∈ f v older := by
  induction past with
  | nil => simp [gather]
  | cons v past ih =>
    rw [gather, List.mem_append, ih]
    simp only [List.suffix_cons_iff, List.cons.injEq, or_and_right, exists_or, and_assoc,
      exists_and_left, exists_eq_left]
    exact or_comm

end Gather

/-- Variables come into scope in the order of the visits. -/
theorem sublist_declares (past : List Visit) :
    ((gather declares past).map Prod.fst).Sublist (past.reverse.map (·.node)) := by
  induction past with
  | nil => exact .slnil
  | cons v past ih =>
    rw [gather, List.map_append, List.reverse_cons, List.map_append]
    refine ih.append ?_
    rw [declares, List.map_map]
    cases v.node.declared? with
    | none => exact List.nil_sublist _
    | some x =>
      have one := (List.filter_sublist (p := fun x => (binder? x past v.inside).isNone)
        (l := [x])).map (Prod.fst ∘ (v.node, ·))
      exact one

end Visit

/-! ## Visits and the tree -/

namespace Phrase

variable {α β : Type}

/-- A check comes to the children that its round goes on to. -/
theorem mem_visited_iff {board : Board} {round : Round} {p : Phrase α} (paired : p.Paired) {c : α} :
    c ∈ p.before ++ p.after board round ++ p.ownBody?.toList ↔
      p.Opens board round ∧ c ∈ p.children := by
  cases p with
  | mainTask debug declarations =>
    cases round <;>
      simp [before, after, ownBody?, Opens, Listed, kind, children, slots, SlotValue.nodes]
  | ifElse conditions branches otherwise =>
    have both := Checker.exists_mem_zip_iff (P := (c = ·)) paired
    simp only [Prod.exists, List.mem_append, exists_eq_right'] at both
    simp [before, after, ownBody?, Opens, Listed, kind, children, slots, SlotValue.nodes, both,
      or_assoc]
  | extension spec slots =>
    simp only [before, after, ownBody?, Opens, Listed, kind, List.nil_append, Option.toList_none,
      List.append_nil, List.contains_iff_mem]
    split <;> simp [*]
  | _ => simp [before, after, ownBody?, Opens, Listed, kind, children, slots, SlotValue.nodes]

/-- What is made of some elements of a list, each of which yields no more than is allowed. -/
theorem subperm_flatMap {f g : α → List β} {l : List α} (each : ∀ a ∈ l, (f a).Subperm (g a)) :
    (l.flatMap f).Subperm (l.flatMap g) := by
  induction l with
  | nil => exact .refl _
  | cons a l ih =>
    rw [List.forall_mem_cons] at each
    exact each.1.append (ih each.2)

theorem subperm_zip (l m : List α) :
    ((l.zip m).flatMap fun c => [c.1, c.2]).Subperm (l ++ m) := by
  induction l generalizing m with
  | nil => exact List.nil_subperm
  | cons a l ih =>
    cases m with
    | nil => exact List.nil_subperm
    | cons b m =>
      have both : (a :: b :: (l.zip m).flatMap fun c => [c.1, c.2]).Subperm (a :: b :: (l ++ m)) :=
        (List.subperm_cons a).2 ((List.subperm_cons b).2 (ih m))
      exact both.trans (List.perm_middle.symm.cons a).subperm

/-- A check comes to every child once at most. -/
theorem subperm_children (board : Board) (round : Round) (p : Phrase α) :
    (p.before ++ p.after board round ++ p.ownBody?.toList).Subperm p.children := by
  cases p with
  | mainTask debug declarations =>
    simp only [before, after, ownBody?, List.nil_append, Option.toList_none, List.append_nil]
    split
    · exact .refl _
    · exact List.nil_subperm
  | ifElse conditions branches otherwise =>
    have both := (subperm_zip conditions branches).append (.refl otherwise.toList)
    simpa [before, after, ownBody?, children, slots, SlotValue.nodes] using both
  | extension spec slots =>
    simp only [before, after, ownBody?, List.nil_append, Option.toList_none, List.append_nil]
    split
    · exact .refl _
    · exact List.nil_subperm
  | _ => simp [before, after, ownBody?, children, slots, SlotValue.nodes, List.Subperm.refl]

/-- The operands of a method or a loop are all that is visited beside its own chain. -/
theorem operand_of_ownBody? {board : Board} {round : Round} {p : Phrase α} {body c : α}
    (own : p.ownBody? = some body) (mem : c ∈ p.before ++ p.after board round) :
    c ∈ p.operands := by
  cases p with
  | forLoop => exact mem
  | methodDef => cases mem
  | _ => cases own

end Phrase

namespace Node

variable {board : Board} {round : Round} {n : Node} {inside : List NodeId} {v : Visit}

theorem visits_of_isEmptyExpr (empty : n.phrase.isEmptyExpr = true) :
    n.visits board round inside = [] := by
  rw [visits_eq]
  cases phrase : n.phrase with
  | emptyExpr => exact ite_self _
  | _ => rw [phrase] at empty; cases empty

theorem mem_visits_iff : v ∈ n.visits board round inside ↔ n.isActive = true ∧
    (n.phrase.dealsWithNames = true ∧ v = ⟨n, inside⟩ ∨
    (∃ c ∈ n.phrase.before ++ n.phrase.after board round, v ∈ c.visits board round inside) ∨
    ∃ body, n.ownBody? = some body ∧ v ∈ body.visits board round (n.id :: inside)) := by
  rw [visits_eq]
  split
  swap
  · next inactive => simp [inactive]
  next active =>
  have self : v ∈ (if n.phrase.dealsWithNames then [⟨n, inside⟩] else [] : List Visit) ↔
      n.phrase.dealsWithNames = true ∧ v = ⟨n, inside⟩ := by
    split <;> simp [*]
  rw [and_iff_right active, Phrase.route, List.mem_append, List.mem_append, List.mem_append, self,
    List.mem_flatMap, List.mem_flatMap, List.mem_flatMap]
  simp only [List.mem_append, or_and_right, exists_or, Option.mem_toList, ownBody?, or_assoc]
  exact or_left_comm

theorem mem_children_of_before_after {c : Node}
    (mem : c ∈ n.phrase.before ++ n.phrase.after board round) : c ∈ n.children :=
  (n.phrase.subperm_children board round).subset (List.mem_append_left _ mem)

/-- A round comes to the nodes that deal with names among those that it visits. -/
theorem exists_visit_iff (paired : ∀ k ∈ n.walk, k.phrase.Paired) {m : Node} :
    (∃ v ∈ n.visits board round inside, v.node = m) ↔
      m.phrase.dealsWithNames = true ∧ n.Leads board round m := by
  induction n using Node.induction generalizing inside with
  | step n ih =>
    rw [walk_eq, List.forall_mem_cons, List.forall_mem_flatMap] at paired
    have visited {c : Node} : c ∈ n.phrase.before ++ n.phrase.after board round ++
        n.phrase.ownBody?.toList ↔ n.phrase.Opens board round ∧ c ∈ n.children :=
      Phrase.mem_visited_iff paired.1
    have inner {c : Node} (child : c ∈ n.children) (inside : List NodeId) :
        (∃ v ∈ c.visits board round inside, v.node = m) ↔
          m.phrase.dealsWithNames = true ∧ c.Leads board round m :=
      ih c child (paired.2 c child)
    refine ⟨?_, ?_⟩
    · rintro ⟨v, mem, rfl⟩
      obtain ⟨active, ⟨names, rfl⟩ | ⟨c, hc, below⟩ | ⟨body, own, below⟩⟩ := mem_visits_iff.1 mem
      · exact ⟨names, leads_iff.2 ⟨active, .inl rfl⟩⟩
      · obtain ⟨opens, child⟩ := visited.1 (List.mem_append_left _ hc)
        obtain ⟨names, leads⟩ := (inner child _).1 ⟨v, below, rfl⟩
        exact ⟨names, leads_iff.2 ⟨active, .inr ⟨opens, c, child, leads⟩⟩⟩
      · obtain ⟨opens, child⟩ := visited.1 (List.mem_append_right _ (Option.mem_toList.2 own))
        obtain ⟨names, leads⟩ := (inner child _).1 ⟨v, below, rfl⟩
        exact ⟨names, leads_iff.2 ⟨active, .inr ⟨opens, body, child, leads⟩⟩⟩
    · rintro ⟨names, leads⟩
      obtain ⟨active, rfl | ⟨opens, c, child, leads⟩⟩ := leads_iff.1 leads
      · exact ⟨⟨m, inside⟩, mem_visits_iff.2 ⟨active, .inl ⟨names, rfl⟩⟩, rfl⟩
      · rcases List.mem_append.1 (visited.2 ⟨opens, child⟩) with hc | own
        · obtain ⟨v, mem, same⟩ := (inner child inside).2 ⟨names, leads⟩
          exact ⟨v, mem_visits_iff.2 ⟨active, .inr (.inl ⟨c, hc, mem⟩)⟩, same⟩
        · obtain ⟨v, mem, same⟩ := (inner child (n.id :: inside)).2 ⟨names, leads⟩
          exact ⟨v, mem_visits_iff.2 ⟨active, .inr (.inr ⟨c, Option.mem_toList.1 own, mem⟩)⟩, same⟩

theorem mem_walk_of_visits (mem : v ∈ n.visits board round inside) : v.node ∈ n.walk := by
  induction n using Node.induction generalizing inside with
  | step n ih =>
    rcases (mem_visits_iff.1 mem).2 with ⟨-, rfl⟩ | ⟨c, hc, mem⟩ | ⟨body, own, mem⟩
    · exact mem_walk_self _
    · have child := mem_children_of_before_after hc
      exact mem_walk_iff.2 (.inr ⟨c, child, ih c child mem⟩)
    · have child := Phrase.mem_children_of_ownBody? own
      exact mem_walk_iff.2 (.inr ⟨body, child, ih body child mem⟩)

/-- One does not leave a chain on the way down. -/
theorem inside_subset_of_visits (mem : v ∈ n.visits board round inside) : inside ⊆ v.inside := by
  induction n using Node.induction generalizing inside with
  | step n ih =>
    rcases (mem_visits_iff.1 mem).2 with ⟨-, rfl⟩ | ⟨c, hc, mem⟩ | ⟨body, own, mem⟩
    · exact List.Subset.refl _
    · exact ih c (mem_children_of_before_after hc) mem
    · exact List.Subset.trans (List.subset_cons_self _ _)
        (ih body (Phrase.mem_children_of_ownBody? own) mem)

/-- No node is visited twice in a round. -/
theorem subperm_ids_visits (board : Board) (round : Round) (n : Node) (inside : List NodeId) :
    ((n.visits board round inside).map (·.node.id)).Subperm n.ids := by
  induction n using Node.induction generalizing inside with
  | step n ih =>
    rw [visits_eq]
    split
    swap
    · exact List.nil_subperm
    have children := (n.phrase.subperm_children board round).subset
    rw [List.append_subset, List.append_subset] at children
    obtain ⟨⟨early, late⟩, own⟩ := children
    have part {l : List Node} (sub : l ⊆ n.children) (inside : List NodeId) :
        ((l.flatMap (·.visits board round inside)).map (·.node.id)).Subperm (l.flatMap ids) := by
      rw [List.map_flatMap]
      exact Phrase.subperm_flatMap fun c hc => ih c (sub hc) inside
    have self : ((if n.phrase.dealsWithNames then [⟨n, inside⟩] else [] : List Visit).map
        (·.node.id)).Subperm [n.id] := by
      split
      · exact .refl _
      · exact List.nil_subperm
    have parts := (((part early inside).append self).append (part late inside)).append
      (part own (n.id :: inside))
    rw [Phrase.route, List.map_append, List.map_append, List.map_append, ids_eq]
    refine parts.trans ?_
    obtain ⟨l, perm, sub⟩ := n.phrase.subperm_children board round
    refine List.Subperm.trans (List.Perm.subperm ?_)
      ((List.subperm_cons n.id).2 (sub.flatMap ids).subperm)
    refine List.Perm.trans ?_ ((perm.symm.flatMap_right ids).cons n.id)
    rw [List.flatMap_append, List.flatMap_append, List.append_assoc, List.append_assoc,
      List.append_assoc]
    exact List.perm_middle

/-- The chains that a visited node is in are those around the root and those of the tree. -/
theorem mem_inside_iff (distinct : n.ids.Nodup) (mem : v ∈ n.visits board round inside)
    {i : NodeId} : i ∈ v.inside ↔ i ∈ inside ∨ ∃ m ∈ n.walk, m.id = i ∧ m.Encloses v.node := by
  induction n using Node.induction generalizing inside with
  | step n ih =>
    rcases (mem_visits_iff.1 mem).2 with ⟨-, rfl⟩ | ⟨c, hc, below⟩ | ⟨body, own, below⟩
    · refine ⟨.inl, fun h => h.resolve_right ?_⟩
      rintro ⟨m, hm, -, body, own, here⟩
      exact id_notMem_ids_ownBody distinct hm own (id_mem_ids here)
    · have child := mem_children_of_before_after hc
      rw [ih c child (nodup_ids_of_mem_children distinct child) below]
      have here := id_mem_ids (mem_walk_of_visits below)
      refine or_congr_right ⟨?_, ?_⟩
      · rintro ⟨m, hm, id, encloses⟩
        exact ⟨m, mem_walk_iff.2 (.inr ⟨c, child, hm⟩), id, encloses⟩
      · rintro ⟨m, hm, id, body, own, within⟩
        rcases mem_walk_iff.1 hm with rfl | ⟨d, hd, hm⟩
        · exact absurd (id_mem_ids within) (notMem_ids_ownBody_of_operand distinct own
            (Phrase.operand_of_ownBody? own hc) here)
        · have there := ids_subset hm (ids_subset (mem_walk_of_mem_children
            (Phrase.mem_children_of_ownBody? own)) (id_mem_ids within))
          obtain rfl := eq_of_mem_ids distinct child hd here there
          exact ⟨m, hm, id, body, own, within⟩
    · have child := Phrase.mem_children_of_ownBody? own
      rw [ih body child (nodup_ids_of_mem_children distinct child) below]
      have visited := mem_walk_of_visits below
      have here := id_mem_ids visited
      rw [List.mem_cons, or_comm (a := i = n.id), or_assoc]
      refine or_congr_right ⟨?_, ?_⟩
      · rintro (rfl | ⟨m, hm, id, encloses⟩)
        · exact ⟨n, n.mem_walk_self, rfl, body, own, visited⟩
        · exact ⟨m, mem_walk_iff.2 (.inr ⟨body, child, hm⟩), id, encloses⟩
      · rintro ⟨m, hm, rfl, other, own', within⟩
        rcases mem_walk_iff.1 hm with rfl | ⟨d, hd, hm⟩
        · exact .inl rfl
        · have there := ids_subset hm (ids_subset (mem_walk_of_mem_children
            (Phrase.mem_children_of_ownBody? own')) (id_mem_ids within))
          obtain rfl := eq_of_mem_ids distinct child hd here there
          exact .inr ⟨m, hm, rfl, other, own', within⟩

end Node

end BlockGraph

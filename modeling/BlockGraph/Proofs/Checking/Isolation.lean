import BlockGraph.Proofs.Checking.Parallel
import BlockGraph.Proofs.Checking.Setting
import BlockGraph.Proofs.Node.Bodies

/-!
# Bodies that others do not see

A method and a loop over a variable keep their chains to themselves. Another chain in the place of
one of them changes what is found inside, and which variables are used, and nothing else: the two
runs leave the chain in one setting.

* `Program.withBody`: a program with another chain in the place of one of these.
* `Node.Rebodied`: two trees that differ in one of these chains only.
* `Checker.logs_rebodied`: their checks write the same outside the chain.
* `Program.elsewhere_validate_withBody`: what is found elsewhere stays, in the same order.
-/

namespace BlockGraph

/-! ## Other bodies -/

/-- The method or the loop with another chain that it keeps to itself. -/
def Node.withBody (n body : Node) : Node := mk n.header (n.phrase.withBody body)

/-- The program with another chain in the method or the loop with the given id. -/
def Program.withBody (p : Program) (id : NodeId) (body : Node) : Program :=
  p.mapNodes fun n => if n.id = id then n.withBody body else n

/-- An id that is in neither of two trees. -/
def Node.Outside (old new : Node) (i : NodeId) : Prop := i ∉ old.ids ∧ i ∉ new.ids

/-- Two trees that are the same, but for one own body that is `old` in the first tree and `new` in
the second one. -/
inductive Node.Rebodied (old new : Node) : Node → Node → Prop
  | same {n : Node} (outside : ∀ i ∈ n.ids, Outside old new i) : Rebodied old new n n
  | body {n : Node} (own : n.ownBody? = some old) (outside : Outside old new n.id)
      (operands : ∀ c ∈ n.phrase.operands, ∀ i ∈ c.ids, Outside old new i) :
      Rebodied old new n (n.withBody new)
  | deeper {a b : Node} (header : a.header = b.header) (outside : Outside old new a.id)
      {r : Phrase (Node × Node)} (left : r.map Prod.fst = a.phrase)
      (right : r.map Prod.snd = b.phrase) (inside : ∀ c ∈ r.children, Rebodied old new c.1 c.2) :
      Rebodied old new a b

namespace Phrase

variable {α : Type} {body : α} {p : Phrase α}

@[simp] theorem kind_withBody : (p.withBody body).kind = p.kind := by cases p <;> rfl

end Phrase

namespace Node

variable {old new a b : Node}

namespace Rebodied

variable (h : Rebodied old new a b)

include h

theorem header : a.header = b.header := by
  cases h with
  | same => rfl
  | body => rfl
  | deeper header => exact header

theorem location : a.location = b.location := by
  rw [Node.location, Node.location, Node.id, Node.id, Node.blockId?, Node.blockId?, h.header]

theorem isActive : a.isActive = b.isActive := by
  rw [Node.isActive, Node.isActive, Node.attributes, Node.attributes, h.header]

theorem outside : Outside old new a.id := by
  cases h with
  | same outside => exact outside _ (id_mem_ids a.mem_walk_self)
  | body _ outside => exact outside
  | deeper _ outside => exact outside

theorem kind : a.kind = b.kind := by
  cases h with
  | same => rfl
  | body => exact Phrase.kind_withBody.symm
  | deeper _ _ left right => rw [Node.kind, Node.kind, ← left, ← right, Phrase.kind_map,
      Phrase.kind_map]

/-- A constant has no body. -/
theorem resembles : a.Resembles b := by
  refine ⟨h.location, ?_, ?_⟩
  all_goals
    cases h with
    | same => rfl
    | body own =>
      first | unfold Node.number? | unfold Node.text?
      rw [Node.withBody, phrase_mk]
      rw [Node.ownBody?] at own
      cases phrase : a.phrase <;> rw [phrase] at own <;> cases own <;> rfl
    | @deeper _ _ _ _ r left right =>
      first | unfold Node.number? | unfold Node.text?
      rw [← left, ← right]
      cases r <;> rfl

theorem missing : a.phrase.isEmptyExpr = b.phrase.isEmptyExpr := by
  cases h with
  | same => rfl
  | body =>
    rw [Node.withBody, phrase_mk]
    cases a.phrase <;> rfl
  | @deeper _ _ _ _ r left right =>
    rw [← left, ← right]
    cases r <;> rfl

/-- The statements of chains without own bodies. -/
theorem statements : List.Forall₂ (Rebodied old new) a.statements b.statements := by
  have each {l : List Node} (outside : ∀ c ∈ l, ∀ i ∈ c.ids, Outside old new i) :
      List.Forall₂ (Rebodied old new) l l :=
    List.forall₂_same.2 fun c hc => .same (outside c hc)
  have below (n : Node) : ∀ c ∈ n.statements, c.ids ⊆ n.ids := by
    intro c hc
    refine ids_subset (mem_walk_of_mem_children ?_)
    unfold Node.statements at hc
    split at hc
    · next chain => rw [Node.children, chain]; exact hc
    · cases hc
  cases h with
  | same outside => exact each fun c hc i hi => outside i (below a c hc hi)
  | body own =>
    rw [Node.ownBody?] at own
    unfold Node.statements
    rw [Node.withBody, phrase_mk]
    cases phrase : a.phrase <;> rw [phrase] at own <;> cases own <;> exact .nil
  | @deeper _ _ _ _ r left right inside =>
    unfold Node.statements
    rw [← left, ← right]
    cases r with
    | stmtList statements =>
      refine List.forall₂_map_left_iff.2 (List.forall₂_map_right_iff.2 (List.forall₂_same.2 ?_))
      exact inside
    | _ => exact .nil

end Rebodied

/-! ## Putting another body in its place -/

section Places

variable {id : NodeId}

/-- A tree without the method or the loop stays as it is. -/
theorem mapNodes_of_notMem {n : Node} (absent : id ∉ n.ids) (f : Node → Node) :
    n.mapNodes (fun m => if m.id = id then f m else m) = n := by
  induction n using Node.induction with
  | step n ih =>
    rw [ids_eq, List.mem_cons, List.mem_flatMap, not_or, not_exists] at absent
    obtain ⟨here, below⟩ := absent
    have children : n.phrase.map (mapNodes fun m => if m.id = id then f m else m) = n.phrase :=
      Phrase.map_eq_self_iff.2 fun c hc => ih c hc fun mem => below c ⟨hc, mem⟩
    rw [mapNodes_eq, children, mk_header_phrase, if_neg (Ne.symm here)]

/-- Putting another body in the place of one changes nothing outside. -/
theorem rebodied_mapNodes {m n : Node} (distinct : n.ids.Nodup) (mem : m ∈ n.walk)
    (own : m.ownBody? = some old) (apart : ∀ i ∈ n.ids, i ∈ new.ids → i ∈ old.ids) :
    Rebodied old new n (n.mapNodes fun k => if k.id = m.id then k.withBody new else k) := by
  induction n using Node.induction with
  | step n ih =>
    have away {i : NodeId} (here : i ∈ n.ids) (out : i ∉ old.ids) : Outside old new i :=
      ⟨out, fun inside => out (apart i here inside)⟩
    have outside : Outside old new n.id :=
      away (id_mem_ids n.mem_walk_self) (id_notMem_ids_ownBody distinct mem own)
    rw [mapNodes_eq]
    rcases mem_walk_iff.1 mem with rfl | ⟨c, hc, below⟩
    · have children : m.phrase.map (mapNodes fun k => if k.id = m.id then k.withBody new else k) =
          m.phrase := Phrase.map_eq_self_iff.2 fun c hc =>
        mapNodes_of_notMem (id_notMem_ids distinct hc) _
      rw [children, mk_header_phrase, if_pos rfl]
      refine .body own outside fun c operand i hi => away ?_ ?_
      · exact ids_subset (mem_walk_of_mem_children (m.phrase.operands_subset_children operand)) hi
      · exact notMem_ids_ownBody_of_operand distinct own operand hi
    · have other : n.id ≠ m.id := fun same =>
        id_notMem_ids distinct hc (same ▸ id_mem_ids below)
      rw [if_neg (show ¬(mk n.header _).id = m.id from other)]
      refine .deeper rfl outside (r := n.phrase.map fun k =>
        (k, k.mapNodes fun k => if k.id = m.id then k.withBody new else k))
        (n.phrase.map_map_cancel fun k => rfl) ?_ ?_
      · rw [Phrase.map_map]
        rfl
      · rw [Phrase.children_map, List.forall_mem_map]
        intro k hk
        have up : k.ids ⊆ n.ids := ids_subset (mem_walk_of_mem_children hk)
        by_cases inside : m ∈ k.walk
        · exact ih k hk (nodup_ids_of_mem_children distinct hk) inside
            fun i hi => apart i (up hi)
        · -- only one child has the method or the loop below it
          have apart (i : NodeId) (hi : i ∈ k.ids) : i ∉ m.ids := fun shared => inside <|
            eq_of_mem_ids distinct hk hc hi (ids_subset below shared) ▸ below
          dsimp only
          rw [mapNodes_of_notMem fun here => apart _ here (id_mem_ids m.mem_walk_self)]
          refine .same fun i hi => away (up hi) fun within => apart i hi ?_
          exact ids_subset (mem_walk_of_mem_children (Phrase.mem_children_of_ownBody? own)) within

end Places

end Node

/-! ## Checks -/

/-- A finding that is at none of the nodes with the given ids. -/
def Diagnostic.Elsewhere (ids : List NodeId) (d : Diagnostic) : Prop :=
  ∀ i ∈ ids, d.node? ≠ some i

instance (ids : List NodeId) : DecidablePred (Diagnostic.Elsewhere ids) :=
  fun d => inferInstanceAs (Decidable (∀ i ∈ ids, d.node? ≠ some i))

/-- Two logs that report the same outside two bodies. -/
def Log.Beside (old new : Node) (l m : Log) : Prop :=
  l.reports.filter (·.Elsewhere old.ids) = m.reports.filter (·.Elsewhere new.ids)

namespace Log

variable {old new : Node}

theorem elsewhere_iff {ids : List NodeId} {n : Node} {d : Diagnostic} :
    ({ d with location := some n.location } : Diagnostic).Elsewhere ids ↔ n.id ∉ ids := by
  refine ⟨fun h mem => h n.id mem rfl, fun h i hi same => h ?_⟩
  rwa [show n.id = i from Option.some.inj same]

/-- What is reported inside the bodies does not count. -/
theorem beside_of_inside {l m : Log} (left : ∀ e ∈ l.findings, e.1 ∈ old.walk)
    (right : ∀ e ∈ m.findings, e.1 ∈ new.walk) : l.Beside old new m := by
  have none {n : Node} {l : Log} (inside : ∀ e ∈ l.findings, e.1 ∈ n.walk) :
      l.reports.filter (·.Elsewhere n.ids) = [] := by
    rw [List.filter_eq_nil_iff, reports, List.forall_mem_map]
    intro e he
    rw [decide_eq_true_eq, elsewhere_iff, not_not]
    exact Node.id_mem_ids (inside e he)
  rw [Beside, none left, none right]

/-- What is reported outside the bodies stays. -/
theorem beside_self {l : Log} (outside : ∀ e ∈ l.findings, Node.Outside old new e.1.id) :
    l.Beside old new l := by
  refine List.filter_congr fun d hd => decide_eq_decide.2 ?_
  obtain ⟨e, he, rfl⟩ := List.mem_map.1 hd
  rw [elsewhere_iff, elsewhere_iff]
  exact iff_of_true (outside e he).1 (outside e he).2

theorem additive_beside (old new : Node) : Additive (Beside old new) where
  nil := rfl
  append first second := by
    rw [Beside, reports_append, reports_append, List.filter_append, List.filter_append, first,
      second]

end Log

namespace Checker

variable {old new a b : Node} {platform : Platform}

theorem nodes_beside (h : Node.Rebodied old new a b) :
    Congruence.Nodes (Logs (Log.Beside old new)) a b := by
  have outside := h.outside
  refine logs_nodes h.kind h.location (fun code message _ => ?_) (fun _ => rfl)
    (Log.additive_beside old new) fun _ _ _ => rfl
  let l : Log := { findings := [(a, { severity := .error, code, message })] }
  have same : l.Beside old new l := Log.beside_self (by simpa [l] using outside)
  rw [Log.Beside] at same ⊢
  rw [same, Log.reports, Log.reports, List.map_singleton, List.map_singleton, h.location]

/-- Whatever two bodies do, they leave the same scope behind. -/
theorem logs_withScope {x y : Check Unit}
    (left : Logs (Log.Same (Found (· ∈ old.walk))) Unit x x)
    (right : Logs (Log.Same (Found (· ∈ new.walk))) Unit y y) :
    Logs (Log.Beside old new) Unit (withScope x) (withScope y) := by
  intro σ
  obtain ⟨u, scope, l, _, ⟨-, fine⟩, runs⟩ := left σ
  obtain ⟨v, scope', m, _, ⟨-, fine'⟩, runs'⟩ := right σ
  refine ⟨(), σ.scope, l, m, Log.beside_of_inside (fun e he => (fine e he).1)
    (fun e he => (fine' e he).1), fun s here => ?_⟩
  subst here
  exact ⟨run_withScope (runs s rfl).1, run_withScope (runs' s rfl).1⟩

/-- Trees that differ in one own body only are checked in the same way outside of it. -/
theorem logs_rebodied (modest : platform.Modest) (h : Node.Rebodied old new a b) :
    Logs (Log.Beside old new) _ (check platform a) (check platform b) := by
  have congr := congruence_logs (Log.additive_beside old new)
  have outside {n : Node} (out : ∀ i ∈ n.ids, Node.Outside old new i) :
      Logs (Log.Beside old new) _ (check platform n) (check platform n) := by
    refine (logs_check modest fun m mem => mem).mono fun l m same => ?_
    obtain ⟨rfl, fine⟩ := same
    exact Log.beside_self fun e he => out _ (Node.id_mem_ids (fine e he).1)
  have child {a b : Node} (h : Node.Rebodied old new a b)
      (result : Logs (Log.Beside old new) _ (check platform a) (check platform b)) :
      Congruence.Children (Logs (Log.Beside old new)) (checked platform a) (checked platform b) :=
    ⟨h.missing, fun _ => (nodes_beside h).error _ _ (by decide), result⟩
  induction h with
  | same out => exact outside out
  | @body n own out operands =>
    have nodes := nodes_beside (.body own out operands)
    rw [check_eq, check_eq, show (n.withBody new).isActive = n.isActive from rfl]
    split
    · refine congr.map some (congr.handler_withBody nodes.toPlaces own new (fun c hc => ?_) ?_ ?_)
      · exact child (.same (operands c hc)) (outside (operands c hc))
      · exact logs_withScope (logs_body modest old) (logs_body modest new)
      · exact fun var => logs_withScope (logs_loop modest old _ var) (logs_loop modest new _ var)
    · exact congr.pure none
  | @deeper a b header out r left right inside ih =>
    have whole : Node.Rebodied old new a b := .deeper header out left right inside
    refine congr.check (nodes_beside whole) left right whole.isActive
      (fun c hc => child (inside c hc) (ih c hc)) ?_
    have operands : ∀ c ∈ r.operands, c ∈ r.children := fun c hc =>
      r.operands_subset_children hc
    have asked : platform.ask b b.phrase = platform.ask a a.phrase := by
      rw [← left, ← right]
      exact (modest.congr whole.location fun c hc => (inside c (operands c hc)).resembles).symm
    rw [asked]
    refine logs_collect (modest.writes a a.phrase) fun findings facts about => ?_
    refine Log.beside_self fun e he => ?_
    rcases List.mem_cons.1 (about e he).1 with same | operand
    · rw [same]
      exact out
    · rw [← left, Phrase.operands_map, List.mem_map] at operand
      obtain ⟨c, hc, same⟩ := operand
      rw [← same]
      exact (inside c (operands c hc)).outside

end Checker

/-! ## Runs -/

/-- Two states of one setting that have found the same outside two bodies. -/
structure CheckState.Beside (old new : Node) (s t : CheckState) : Prop where
  setting : s.setting = t.setting
  findings : s.collector.store.toList.filter (·.Elsewhere old.ids) =
    t.collector.store.toList.filter (·.Elsewhere new.ids)

namespace Parallel

open Checker

variable {old new a b : Node} {platform : Platform}

theorem of_logs {α : Type} {x y : Check α} (h : Logs (Log.Beside old new) α x y) :
    Parallel (CheckState.Beside old new) x y := by
  intro s t before
  obtain ⟨r, scope, l, m, related, runs⟩ := h s.setting
  rw [(runs s rfl).1, (runs t before.setting.symm).2]
  refine ⟨rfl, ?_, ?_⟩
  · rw [s.setting_after, t.setting_after, before.setting]
  · rw [s.toList_after, t.toList_after, List.filter_append, List.filter_append, before.findings,
      related]

/-- Both programs define the same methods on the canvas. -/
theorem define_beside (h : Node.Rebodied old new a b) (name : String) :
    Parallel (CheckState.Beside old new) (define a name) (define b name) := by
  have congr := congruence_logs (Log.additive_beside old new)
  have nodes := nodes_beside h
  refine .bind (.of_logs (congr.checkName nodes.toPlaces name _)) fun _ =>
    .get_bind fun s t before => ?_
  rw [show s.methods = t.methods from congrArg CheckState.Setting.methods before.setting]
  split
  · exact .of_logs (nodes.error _ _ (by decide))
  · refine .bind (.modify fun s t h => ⟨?_, h.findings⟩) fun _ s t h =>
      ⟨rfl, h.setting, h.findings⟩
    change { s.setting with methods := s.setting.methods.add name } =
      { t.setting with methods := t.setting.methods.add name }
    rw [h.setting]

theorem defineIfMethod_beside (h : Node.Rebodied old new a b) :
    Parallel (CheckState.Beside old new) (defineIfMethod a) (defineIfMethod b) := by
  unfold defineIfMethod
  cases h with
  | same outside =>
    split
    · exact define_beside (.same outside) _
    · exact .pure _
  | body own outside operands =>
    have define (name : String) := define_beside (.body own outside operands) name
    rw [Node.ownBody?] at own
    rw [Node.withBody, Node.phrase_mk]
    cases phrase : a.phrase with
    | methodDef name => exact define name
    | _ => exact .pure _
  | @deeper _ _ header outside r left right inside =>
    have define (name : String) := define_beside (.deeper header outside left right inside) name
    rw [← left, ← right]
    cases r with
    | methodDef name => exact define name
    | _ => exact .pure _

theorem checkIfStart_beside (modest : platform.Modest) (h : Node.Rebodied old new a b) :
    Parallel (CheckState.Beside old new) (checkIfStart platform a) (checkIfStart platform b) := by
  have congr := congruence_logs (Log.additive_beside old new)
  have checks := Parallel.of_logs (congr.discard (logs_rebodied modest h))
  have kind := h.kind
  rw [checkIfStart_eq, checkIfStart_eq, kind]
  split
  · exact checks
  · exact .pure _

/-- Two programs with the same chains but for one own body are gone over in the same way. -/
theorem explore_beside (modest : platform.Modest) {p q : Program}
    (chains : List.Forall₂ (fun i j : Instance => Node.Rebodied old new i.body j.body)
      p.instances q.instances) :
    Parallel (CheckState.Beside old new) (explore platform p) (explore platform q) := by
  have congr := congruence_logs (Log.additive_beside old new)
  have canvas : List.Forall₂ (Node.Rebodied old new) (topLevel p) (topLevel q) := by
    refine List.rel_filter (fun a b h => Bool.eq_iff_iff.1 h.isActive) ?_
    exact List.rel_flatMap chains fun i j h => h.statements
  refine .bind (.forM canvas fun a b h => defineIfMethod_beside h) fun _ =>
    .bind (.forM canvas fun a b h => checkIfStart_beside modest h) fun _ =>
    .bind (.modify fun s t h => ⟨?_, h.findings⟩) fun _ =>
    .forM chains fun i j h => .of_logs (congr.discard (logs_rebodied modest h))
  change { s.setting with round := .chains } = { t.setting with round := .chains }
  rw [h.setting]

end Parallel

/-- The chains of a program that was read, with another body in the place of one. -/
theorem Program.rebodied_withBody {registry : KindRegistry} {d : Document} {p : Program}
    {s s' : Supply} (read : (ofDocument registry d).run s = (.ok p, s')) {m old new : Node}
    (mem : m ∈ p.walk) (own : m.ownBody? = some old)
    (apart : ∀ i ∈ new.ids, i ∈ p.ids → i ∈ old.ids) :
    List.Forall₂ (fun i j : Instance => Node.Rebodied old new i.body j.body)
      p.instances (p.withBody m.id new).instances := by
  have distinct := (ids_of_ofDocument read).2.1
  rw [withBody, mapNodes, List.forall₂_map_right_iff, List.forall₂_same]
  intro i hi
  have up : i.body.walk ⊆ p.walk := fun n hn => List.mem_flatMap.2 ⟨i, hi, hn⟩
  have inside : i.body.ids ⊆ p.ids := List.map_subset _ up
  by_cases here : m ∈ i.body.walk
  · refine Node.rebodied_mapNodes ?_ here own fun k hk hn => apart k hn (inside hk)
    rw [ids_eq] at distinct
    exact (List.nodup_flatMap.1 distinct).1 i hi
  · have absent : ∀ k ∈ i.body.ids, k ∉ m.ids := by
      intro k hk shared
      obtain ⟨j, hj, there⟩ := List.mem_flatMap.1 mem
      rw [ids_eq] at distinct
      have same := eq_of_nodup_flatMap distinct hi hj hk (Node.ids_subset there shared)
      exact here (same ▸ there)
    dsimp only
    rw [Node.mapNodes_of_notMem fun k => absent _ k (Node.id_mem_ids m.mem_walk_self)]
    refine .same fun k hk => ?_
    have outside : k ∉ old.ids := fun within => absent k hk <| Node.ids_subset
      (Node.mem_walk_of_mem_children (Phrase.mem_children_of_ownBody? own)) within
    exact ⟨outside, fun within => outside (apart k within (inside hk))⟩

/-- Another chain in the place of the own body of a method or a loop over a variable: all that is
found elsewhere stays, in the same order, but for the warnings of variables that are never used. -/
theorem Program.elsewhere_validate_withBody {registry : KindRegistry} {d : Document} {p : Program}
    {s s' : Supply} (read : (ofDocument registry d).run s = (.ok p, s')) {platform : Platform}
    (known : platform.Known) (config : HardwareConfig) {m old new : Node} (mem : m ∈ p.walk)
    (own : m.ownBody? = some old) (apart : ∀ i ∈ new.ids, i ∈ p.ids → i ∈ old.ids) :
    (platform.validate (p.withBody m.id new) config).diagnostics.toList.filter
        (fun d => d.code ≠ .unusedVariable ∧ d.Elsewhere new.ids) =
      (platform.validate p config).diagnostics.toList.filter
        fun d => d.code ≠ .unusedVariable ∧ d.Elsewhere old.ids := by
  have start : CheckState.Beside old new { collector := { config } } { collector := { config } } :=
    ⟨rfl, rfl⟩
  have explored := (Parallel.explore_beside known.modest (rebodied_withBody read mem own apart)
    _ _ start).2.findings
  -- what a run finds beside the unused variables is what it finds on its way
  have reported (q : Program) (n : Node) :
      (platform.validate q config).diagnostics.toList.filter
          (fun d => d.code ≠ .unusedVariable ∧ d.Elsewhere n.ids) =
        ((Checker.explored platform q config).collector.store.toList.filter
          (·.Elsewhere n.ids)).filter (·.code ≠ .unusedVariable) := by
    have warnings (l : List (Node × String)) :
        (l.map fun d => { Checker.unusedWarning d.2 with location := some d.1.location }).filter
          (fun d => d.code ≠ .unusedVariable ∧ d.Elsewhere n.ids) = [] := by
      rw [List.filter_eq_nil_iff, List.forall_mem_map]
      intro d _
      simp [Checker.unusedWarning]
    rw [Platform.diagnostics_validate, List.filter_append, warnings, List.append_nil,
      List.filter_filter]
    exact List.filter_congr fun d _ => Bool.decide_and _ _
  rw [reported, reported]
  exact congrArg _ explored.symm

/-- A method whose name is none, with the given body. -/
def sheltered (body : List Block) : Document where
  formatVersion := "3.1"
  instances := [{ blocks := [.mk {
    id := "a", type := "robProcedures_defnoreturn", fields := [⟨"NAME", "1"⟩]
    statements := [⟨"STACK", body⟩] }] }]

def breakingBlock : Block := .mk {
  id := "b", type := "controls_flow_statements", fields := [⟨"FLOW", "BREAK"⟩] }

/-- What is read of a method that does nothing. -/
def idleBody : Node := .mk { id := ⟨1⟩, sealed := true } (.stmtList [])

/-- What is read of a method that leaves a loop. -/
def breakingBody : Node :=
  .mk { id := ⟨5⟩, sealed := true } (.stmtList
    [.mk { id := ⟨4⟩, sealed := true, blockId := "b" } (.flowControl .break)])

def shelteringMethod (body : Node) (next : Nat) : Node :=
  .mk { id := ⟨next⟩, sealed := true, blockId := "a" } (.methodDef "1" body)

/-- What is read around the body of the method. -/
def shelteredProgram (body : Node) (next : Nat) : Program where
  formatVersion := "3.1"
  instances := [⟨0, 0, .mk { id := ⟨next + 1⟩, sealed := true }
    (.stmtList [shelteringMethod body next])⟩]

theorem ofDocument_idle : (Program.ofDocument .core (sheltered [])).run {} =
    (.ok (shelteredProgram idleBody 2), { next := 4 }) := by
  cbv

/-- The other method is read when the numbers of the first program are handed out. -/
theorem ofDocument_breaking :
    (Program.ofDocument .core (sheltered [breakingBlock])).run { next := 4 } =
      (.ok (shelteredProgram breakingBody 6), { next := 8 }) := by
  cbv

/-- With the body of the other method in its place, the method that does nothing is found fault with
for its name as before. -/
theorem Program.elsewhere_validate_sheltered :
    (ofDocument .core (sheltered [])).run {} = (.ok (shelteredProgram idleBody 2), { next := 4 }) ∧
      (ofDocument .core (sheltered [breakingBlock])).run { next := 4 } =
        (.ok (shelteredProgram breakingBody 6), { next := 8 }) ∧
      (Boards.ev3.validate ((shelteredProgram idleBody 2).withBody
          (shelteringMethod idleBody 2).id breakingBody) { robot := "ev3" }).diagnostics.toList.filter
          (fun d => d.code ≠ .unusedVariable ∧ d.Elsewhere breakingBody.ids) =
        (Boards.ev3.validate (shelteredProgram idleBody 2)
          { robot := "ev3" }).diagnostics.toList.filter
          fun d => d.code ≠ .unusedVariable ∧ d.Elsewhere idleBody.ids := by
  have known : Boards.ev3.Known := .inl ⟨"ev3", rfl⟩
  have method : shelteringMethod idleBody 2 ∈ (shelteredProgram idleBody 2).walk :=
    List.mem_cons_of_mem _ List.mem_cons_self
  have own : (shelteringMethod idleBody 2).ownBody? = some idleBody := rfl
  have apart : ∀ i ∈ breakingBody.ids, i ∈ (shelteredProgram idleBody 2).ids →
      i ∈ idleBody.ids := by decide +kernel
  exact ⟨ofDocument_idle, ofDocument_breaking,
    elsewhere_validate_withBody ofDocument_idle known _ method own apart⟩

end BlockGraph

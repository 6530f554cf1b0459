import BlockGraph.Proofs.Checking.Congruence
import BlockGraph.Proofs.Checking.Modest
import BlockGraph.Proofs.Checking.Visits
import BlockGraph.Proofs.Mapping.Regular

/-!
# Values

Value slots take expressions and sensors. The checker knows that the core kinds among them have a
value, and that extensions have one that are expressions. For an extension that is a sensor it
finds no value, and reports a statement where one was read as a value.

* `Phrase.values`: what stands in the value slots of a phrase.
* `Node.Valueless`: the values for which the checker finds none.
* `Checker.Tells`, `Checker.tells_check`: what a step returns and reports, with one rule for each
  part of checks.
* `Program.void_values`: there are no other values for which the checker finds none.
-/

namespace BlockGraph

open Mapping

/-! ## Value slots -/

namespace SlotValue

variable {α β : Type}

/-- The children in a slot of the given mode, if it is for values. -/
def values : FieldMode → SlotValue α → List α
  | .value, v | .repeatedValue, v => v.nodes
  | _, _ => []

theorem values_map (f : α → β) (mode : FieldMode) (v : SlotValue α) :
    (v.map f).values mode = (v.values mode).map f := by
  cases mode with
  | value | repeatedValue => exact nodes_map f v
  | _ => rfl

theorem values_subset_nodes (mode : FieldMode) (v : SlotValue α) : v.values mode ⊆ v.nodes := by
  cases mode with
  | value | repeatedValue => exact List.Subset.refl _
  | _ => exact List.nil_subset _

end SlotValue

namespace Phrase

variable {α β : Type}

/-- What stands in the value slots of a phrase, by the table of its kind. -/
def values (p : Phrase α) : List α :=
  (p.kind.fields.zip p.slots).flatMap fun e => e.2.values e.1.mode

theorem values_map (f : α → β) (p : Phrase α) : (p.map f).values = p.values.map f := by
  rw [values, values, kind_map, slots_map, List.zip_map_right, List.flatMap_map, List.map_flatMap]
  exact List.flatMap_congr fun e _ => SlotValue.values_map f _ _

theorem values_subset_children (p : Phrase α) : p.values ⊆ p.children := by
  intro c hc
  obtain ⟨⟨spec, slot⟩, mem, inside⟩ := List.mem_flatMap.1 hc
  have among : c ∈ p.slots.flatMap SlotValue.nodes := List.mem_flatMap.2
    ⟨slot, (List.of_mem_zip mem).2, SlotValue.values_subset_nodes _ _ inside⟩
  cases p with
  | stmtList => cases among
  | _ => exact among

end Phrase

/-- An active extension that is a sensor: a value of which nothing is known. -/
def Node.Valueless (n : Node) : Prop :=
  n.isActive = true ∧ ∃ spec, n.kind = .extension spec ∧ spec.category = .sensor

/-- A program whose values are expressions and whose extensions are on the board. -/
structure Program.Fitted (board : Board) (p : Program) : Prop where
  values : ∀ n ∈ p.walk, ∀ o ∈ n.phrase.values, o.kind.isExpression = true
  listed : ∀ n ∈ p.walk, ∀ spec, n.kind = .extension spec → spec ∈ board.extensionKinds

namespace Mapping

variable {registry : KindRegistry}

/-- What is read into the value slots of a block is an expression. -/
theorem isExpression_of_rows {specs : List FieldSpec} {portions : List (Portion Block)}
    {slots : List (SlotValue Node)} (rows : List.Forall₂ (fun spec p => p.Of spec) specs portions)
    (filled : List.Forall₂ (fun portion v => portion.content registry = .ok v) portions slots) :
    ∀ o ∈ (specs.zip slots).flatMap fun e => e.2.values e.1.mode, o.kind.isExpression = true := by
  induction rows generalizing slots with
  | nil => simp
  | @cons spec portion specs portions of rows ih =>
    obtain ⟨slot, others, first, rest, rfl⟩ := List.forall₂_cons_left_iff.1 filled
    rw [List.zip_cons_cons, List.flatMap_cons, List.forall_mem_append]
    refine ⟨?_, ih rest⟩
    cases of with
    | value =>
      obtain ⟨n, read, same⟩ := Except.bind_eq_ok_iff.1 first
      cases same
      intro o mem
      obtain rfl := List.mem_singleton.1 mem
      exact isExpression_of_valueContent read
    | repeatedValue =>
      obtain ⟨ns, read, same⟩ := Except.bind_eq_ok_iff.1 first
      cases same
      exact isExpression_of_condition first
    | _ => simp [SlotValue.values]

theorem isExpression_of_mem_values {l : BlockLayer Block} {p : Phrase Node}
    (h : content registry (.mk l) = .ok (blockContent l p)) :
    ∀ o ∈ p.values, o.kind.isExpression = true := by
  obtain ⟨-, portions, divided, filled⟩ := filled_of_content h
  obtain ⟨_, _, -, -, -, taken⟩ := divide_eq_ok_iff.1 divided
  exact isExpression_of_rows (Slots.of_takeAll taken) filled

end Mapping

/-- A program that was read with the kinds of a board is fitted to it. -/
theorem Program.fitted_of_ofDocument {board : Board} {registry : KindRegistry}
    (kinds : board.kindRegistry = .ok registry) {d : Document} {p : Program} {s s' : Supply}
    (read : (ofDocument registry d).run s = (.ok p, s')) : p.Fitted board := by
  constructor
  · intro n hn
    have bare : ∀ o ∈ n.bare.phrase.values, o.kind.isExpression = true := by
      refine forall_walk_of_ofDocument (P := fun n => ∀ o ∈ n.phrase.values,
        o.kind.isExpression = true) (fun p none => ?_) ?_ read n hn
      · cases p with
        | stmtList | emptyExpr => exact fun o mem => by cases mem
        | _ => cases none
      · exact fun l p content => isExpression_of_mem_values content
    rw [Node.phrase_bare, Phrase.values_map, List.forall_mem_map] at bare
    simpa only [Node.kind_bare] using bare
  · intro n hn
    have bare : ∀ spec, n.bare.kind = .extension spec → spec ∈ board.extensionKinds := by
      refine forall_walk_of_ofDocument (P := fun n => ∀ spec, n.kind = .extension spec →
        spec ∈ board.extensionKinds) (fun p none spec kind => ?_) ?_ read n hn
      · rw [show p.kind = _ from kind] at none
        cases none
      · intro l p content spec kind
        obtain ⟨-, portions, divided, -⟩ := filled_of_content content
        obtain ⟨_, _, known, -⟩ := divide_eq_ok_iff.1 divided
        rw [show p.kind = _ from kind] at known
        exact KindRegistry.mem_of_registerAll kinds known
    simpa only [Node.kind_bare] using bare

/-! ## Messages -/

/-- Whether a finding says that a statement stands where a value should be. -/
def Diagnostic.MissesValue (d : Diagnostic) : Prop :=
  d.code = .typeMismatch ∧ ExprType.void.name.toList <:+: d.message.toList

/-- Whether a finding misses values only where there is no value for the checker, or is one that
the platform adds. -/
def Program.Excuses (p : Program) (Own : Diagnostic → Prop) (d : Diagnostic) : Prop :=
  d.MissesValue → Own d ∨ ∃ n ∈ p.walk, ∃ o ∈ n.phrase.values, o.Valueless ∧
    (d.location = some o.location ∨ n.kind = .compare ∧ d.location = some n.location)

namespace Checker

/-- What the checker calls the values that it asks for. -/
def wanted : List String :=
  ["initial value", "condition", "repeat count", "start value", "end value", "step",
    "assigned value", "duration", "left operand", "right operand", "operand", "power", "text",
    "frequency"]

/-- The names of the types that values have. -/
def valueNames : List String := ["Number", "Boolean", "String", "unknown"]

theorem name_mem_valueNames {type : ExprType} (value : type ≠ .void) :
    type.name ∈ valueNames := by
  cases type with
  | void => exact absurd rfl value
  | _ => decide

/-- A value of the wrong type is not called a statement. -/
theorem not_infix_expect : ∀ what ∈ wanted, ∀ want ∈ valueNames, ∀ got ∈ valueNames,
    ¬ ExprType.void.name.toList <:+: (what ++ " must be " ++ want ++ ", found " ++ got).toList := by
  simp only [String.toList_append]
  decide +kernel

theorem not_infix_compare : ∀ a ∈ valueNames, ∀ b ∈ valueNames,
    ¬ ExprType.void.name.toList <:+: ("cannot compare " ++ a ++ " with " ++ b).toList := by
  simp only [String.toList_append]
  decide +kernel

/-! ## Steps -/

/-- A state in which no variable is void. -/
def Valued (s : CheckState) : Prop := ∀ x v, s.scope.get? x = some v → v.type ≠ .void

/-- A step that makes no variable void, reports what is `Fine`, and returns what is `R`. -/
def Tells (Fine : Diagnostic → Prop) {α : Type} (x : Check α) (R : α → Prop) : Prop :=
  ∀ s, Valued s → R (x.run s).1 ∧ Valued (x.run s).2 ∧
    ∀ d ∈ (x.run s).2.collector.store.toList, d ∈ s.collector.store.toList ∨ Fine d

namespace Tells

variable {Fine : Diagnostic → Prop} {α β ι : Type} {x : Check α} {R : α → Prop} {S : β → Prop}

protected theorem mono (h : Tells Fine x R) {R' : α → Prop} (weaker : ∀ a, R a → R' a) :
    Tells Fine x R' := by
  intro s valued
  obtain ⟨result, rest⟩ := h s valued
  exact ⟨weaker _ result, rest⟩

protected theorem pure {a : α} (result : R a) : Tells Fine (pure a) R :=
  fun _ valued => ⟨result, valued, fun _ => .inl⟩

protected theorem modify {f : CheckState → CheckState}
    (same : ∀ s, Valued s → Valued (f s) ∧ (f s).collector = s.collector) :
    Tells Fine (modify f) fun _ => True := by
  intro s valued
  obtain ⟨valued', collector⟩ := same s valued
  refine ⟨trivial, valued', fun d hd => .inl ?_⟩
  rw [← collector]
  exact hd

protected theorem bind {f : α → Check β} (first : Tells Fine x R)
    (second : ∀ a, R a → Tells Fine (f a) S) : Tells Fine (x >>= f) S := by
  intro s valued
  obtain ⟨result, valued', told⟩ := first s valued
  obtain ⟨result', valued'', told'⟩ := second _ result _ valued'
  refine ⟨result', valued'', fun d hd => ?_⟩
  rcases told' d hd with before | fine
  · exact told d before
  · exact .inr fine

protected theorem get_bind {f : CheckState → Check α}
    (each : ∀ s, Valued s → Tells Fine (f s) R) : Tells Fine (get >>= f) R :=
  fun s valued => each s valued s valued

protected theorem map {f : α → β} (h : Tells Fine x fun a => S (f a)) : Tells Fine (f <$> x) S := h

protected theorem discard (h : Tells Fine x R) : Tells Fine (discard x) fun _ => True :=
  h.mono fun _ _ => trivial

protected theorem forM {l : List ι} {f : ι → Check PUnit}
    (h : ∀ i ∈ l, Tells Fine (f i) fun _ => True) : Tells Fine (l.forM f) fun _ => True := by
  induction l with
  | nil => exact .pure trivial
  | cons i l ih =>
    rw [List.forall_mem_cons] at h
    exact .bind h.1 fun _ _ => ih h.2

/-- A step of the collector that adds what is fine. -/
protected theorem collect {y : Collect α}
    (fine : ∀ c, ∀ d ∈ (y.run c).2.store.toList, d ∈ c.store.toList ∨ Fine d) :
    Tells Fine (collect y) fun _ => True :=
  fun s valued => ⟨trivial, valued, fine s.collector⟩

protected theorem error {n : Node} {code : DiagnosticCode} {message : String}
    (fine : Fine { severity := .error, code, message, location := some n.location }) :
    Tells Fine (error n code message) fun _ => True := by
  refine .collect fun c d hd => ?_
  change d ∈ (c.store.push n { severity := .error, code, message }).toList at hd
  rw [DiagnosticStore.toList_push] at hd
  rcases List.mem_append.1 hd with before | new
  · exact .inl before
  · obtain rfl := List.mem_singleton.1 new
    exact .inr fine

protected theorem record (feature fact : String) :
    Tells Fine (Checker.collect (Collector.record feature fact)) fun _ => True :=
  .collect fun _ _ hd => .inl hd

protected theorem bindName {n : Node} {name : String} {type : ExprType} (value : type ≠ .void) :
    Tells Fine (Checker.bind n name type) fun _ => True := by
  refine .modify fun s valued => ⟨fun x v found => ?_, rfl⟩
  rw [SortedMap.get?_insert] at found
  split at found
  · cases found
    exact value
  · exact valued x v found

protected theorem withScope {y : Check Unit} (h : Tells Fine y fun _ => True) :
    Tells Fine (withScope y) fun _ => True :=
  .get_bind fun _ valued => .bind h fun _ _ => .modify fun _ _ => ⟨valued, rfl⟩

protected theorem loopBody {c : Child} (h : Tells Fine (body c) fun _ => True) :
    Tells Fine (loopBody c) fun _ => True :=
  .bind (.modify fun _ valued => ⟨valued, rfl⟩) fun _ _ =>
    .bind h fun _ _ => .modify fun _ valued => ⟨valued, rfl⟩

protected theorem outsideLoops {y : Check Unit} (h : Tells Fine y fun _ => True) :
    Tells Fine (outsideLoops y) fun _ => True :=
  .get_bind fun _ _ => .bind (.modify fun _ valued => ⟨valued, rfl⟩) fun _ _ =>
    .bind h fun _ _ => .modify fun _ valued => ⟨valued, rfl⟩

end Tells

/-! ## Checks of nodes -/

section Nodes

variable {p : Program} {Own : Diagnostic → Prop} {n : Node}

/-- A finding of another kind needs no excuse. -/
theorem excuses_of_code {d : Diagnostic} (other : d.code ≠ .typeMismatch) : p.Excuses Own d :=
  fun misses => absurd misses.1 other

theorem excuses_of_message {d : Diagnostic}
    (other : ¬ ExprType.void.name.toList <:+: d.message.toList) : p.Excuses Own d :=
  fun misses => absurd misses.2 other

theorem tells_error {code : DiagnosticCode} (other : code ≠ .typeMismatch) (message : String) :
    Tells (p.Excuses Own) (error n code message) fun _ => True :=
  .error (excuses_of_code other)

theorem tells_checkName (name what : String) :
    Tells (p.Excuses Own) (checkName n name what) fun _ => True := by
  unfold checkName
  split
  · exact .pure trivial
  · exact tells_error (by decide) _

/-- What is looked up is no statement. -/
theorem tells_lookup (name : String) :
    Tells (p.Excuses Own) (lookup n name) fun type => type ≠ .void := by
  refine .get_bind fun s valued => ?_
  split
  · next v found =>
    exact .bind (.modify fun _ valued => ⟨valued, rfl⟩) fun _ _ => .pure (valued name v found)
  · exact .bind (tells_error (by decide) _) fun _ _ => .pure (by decide)

theorem tells_declare (name : String) {type : ExprType} (value : type ≠ .void) :
    Tells (p.Excuses Own) (declare n name type) fun _ => True := by
  refine .get_bind fun s _ => ?_
  split
  · exact tells_error (by decide) _
  · exact .bind (.bindName value) fun _ _ =>
      .bind (.modify fun _ valued => ⟨valued, rfl⟩) fun _ _ => .record _ _

/-- A value is called a statement if it is valueless, and so is what is made of it. -/
theorem tells_expect {c : Child}
    (child : Tells (p.Excuses Own) c.result fun r => r = some .void ↔ c.node.Valueless)
    (mem : n ∈ p.walk) (slot : c.node ∈ n.phrase.values) {want : ExprType} (value : want ≠ .void)
    {what : String} (called : what ∈ wanted) :
    Tells (p.Excuses Own) (expect n c want what) fun got => got = .void → c.node.Valueless := by
  unfold expect
  split
  · exact .bind (tells_error (by decide) _) fun _ _ => .pure fun void => by cases void
  refine .bind child fun r told => ?_
  dsimp only
  split
  · refine .pure fun void => told.1 ?_
    cases r with
    | none => cases void
    | some type => exact congrArg some void
  · refine .bind (.error ?_) fun _ _ => .pure fun void => by cases void
    by_cases valueless : c.node.Valueless
    · exact fun _ => .inr ⟨n, mem, c.node, slot, valueless, .inl rfl⟩
    · refine excuses_of_message ?_
      have other : r.getD .unknown ≠ .void := by
        intro void
        cases r with
        | none => cases void
        | some type => exact valueless (told.1 (congrArg some void))
      exact not_infix_expect what called _ (name_mem_valueNames value) _
        (name_mem_valueNames other)

/-- What a check returns for the node of a phrase: of values, only sensors that are extensions are
void. -/
def Voids (kind : Kind) (type : ExprType) : Prop :=
  kind.isExpression = true →
    (type = .void ↔ ∃ spec, kind = .extension spec ∧ spec.category = .sensor)

attribute [local simp] Phrase.values Phrase.kind Kind.fields Kind.binaryFields Phrase.slots
  SlotValue.values SlotValue.nodes FieldSpec.value FieldSpec.statement FieldSpec.literal

/-- The check of a node tells of values what the checks of its children tell. -/
theorem tells_handler {platform : Platform} (adds : platform.Adds Own)
    (fitted : p.Fitted platform.board) (mem : n ∈ p.walk) {q : Phrase Child}
    (shape : n.phrase = q.map (·.node))
    (each : ∀ c ∈ q.children, Tells (p.Excuses Own) c.result fun r =>
      c.node.kind.isExpression = true → (r = some .void ↔ c.node.Valueless)) :
    Tells (p.Excuses Own) (handler platform n q) (Voids q.kind) := by
  have asked : Tells (p.Excuses Own) (collect (platform.ask n (q.map (·.node)))) fun _ => True := by
    refine .collect fun c d hd => ?_
    obtain ⟨found, list, own⟩ := adds n (q.map (·.node)) c
    rw [list, List.mem_append] at hd
    exact hd.imp_right fun new _ => .inl (own d new)
  have slot {c : Child} (inside : c ∈ q.values) : c.node ∈ n.phrase.values := by
    rw [shape, Phrase.values_map]
    exact List.mem_map_of_mem inside
  have operand {c : Child} (inside : c ∈ q.values) {want : ExprType} (value : want ≠ .void)
      {what : String} (called : what ∈ wanted) : Tells (p.Excuses Own) (expect n c want what)
        fun got => got = .void → c.node.Valueless :=
    tells_expect ((each c (q.values_subset_children inside)).mono fun _ told =>
      told (fitted.values n mem _ (slot inside))) mem (slot inside) value called
  have chain {c : Child} (inside : c ∈ q.children) :
      Tells (p.Excuses Own) (body c) fun _ => True := .discard (each c inside)
  -- A statement returns void, and a core expression something else.
  have statement (other : q.kind.isExpression = false) :
      Tells (p.Excuses Own) (pure .void) (Voids q.kind) :=
    .pure fun expression => absurd (other.symm.trans expression) Bool.false_ne_true
  have expression {type : ExprType} (value : type ≠ .void)
      (core : ∀ spec, q.kind ≠ .extension spec) : Voids q.kind type := by
    intro _
    refine iff_of_false value ?_
    rintro ⟨spec, kind, -⟩
    exact core spec kind
  cases q with
  | stmtList statements =>
    exact .bind (.forM fun c hc => chain hc) fun _ _ => statement rfl
  | mainTask debug declarations =>
    refine .get_bind fun s _ => ?_
    split
    · exact .bind (chain (by simp [Phrase.children])) fun _ _ => statement rfl
    · exact statement rfl
  | varDeclaration var type value =>
    have valued : ExprType.ofDataType type ≠ .void := by cases type <;> decide
    exact .bind (tells_checkName _ _) fun _ _ =>
      .bind (.discard (operand (by simp) valued (by decide))) fun _ _ =>
      .bind (tells_declare _ valued) fun _ _ => statement rfl
  | ifElse conditions branches otherwise =>
    have last : Tells (p.Excuses Own) (otherwise.forM body) fun _ => True := by
      cases otherwise with
      | none => exact .pure trivial
      | some last => exact chain (by simp [Phrase.children])
    refine .bind (.forM fun e he => ?_) fun _ _ => .bind last fun _ _ => statement rfl
    obtain ⟨condition, branch⟩ := List.of_mem_zip he
    exact .bind (.discard (operand (by simp [condition]) (by decide) (by decide))) fun _ _ =>
      chain (by simp [Phrase.children, branch])
  | repeatTimes times last | whileUntil _ times last =>
    exact .bind (.discard (operand (by simp) (by decide) (by decide))) fun _ _ =>
      .bind (.loopBody (chain (by simp [Phrase.children]))) fun _ _ => statement rfl
  | forLoop var start stop step last =>
    exact .bind (tells_checkName _ _) fun _ _ =>
      .bind (.discard (operand (by simp) (by decide) (by decide))) fun _ _ =>
      .bind (.discard (operand (by simp) (by decide) (by decide))) fun _ _ =>
      .bind (.discard (operand (by simp) (by decide) (by decide))) fun _ _ =>
      .bind (.withScope (.bind (.bindName (by decide)) fun _ _ =>
        .loopBody (chain (by simp [Phrase.children])))) fun _ _ => statement rfl
  | flowControl flow =>
    refine .get_bind fun s _ => ?_
    split
    · exact .bind (tells_error (by decide) _) fun _ _ => statement rfl
    · exact statement rfl
  | assign var value =>
    exact .bind (tells_lookup _) fun target valued =>
      .bind (.discard (operand (by simp) valued (by decide))) fun _ _ => statement rfl
  | waitTime value =>
    exact .bind (.discard (operand (by simp) (by decide) (by decide))) fun _ _ => statement rfl
  | methodDef var last =>
    exact .bind (.outsideLoops (.withScope (chain (by simp [Phrase.children])))) fun _ _ =>
      statement rfl
  | methodCall var =>
    refine .get_bind fun s _ => ?_
    split
    · exact .bind (tells_error (by decide) _) fun _ _ => statement rfl
    · exact statement rfl
  | numConst text =>
    rw [handler]
    split
    · exact .pure (expression (by decide) (by simp))
    · exact .bind (tells_error (by decide) _) fun _ _ => .pure (expression (by decide) (by simp))
  | boolConst | stringConst | emptyExpr => exact .pure (expression (by decide) (by simp))
  | varRef var => exact (tells_lookup _).mono fun type valued => expression valued (by simp)
  | arithmetic op left right | logic op left right =>
    exact .bind (.discard (operand (by simp) (by decide) (by decide))) fun _ _ =>
      .bind (.discard (operand (by simp) (by decide) (by decide))) fun _ _ =>
      .pure (expression (by decide) (by simp))
  | compare op left right =>
    have wants : (if op.isOrdering then ExprType.number else .unknown) ≠ .void := by
      split <;> decide
    refine .bind (operand (by simp) wants (by decide)) fun a first =>
      .bind (operand (by simp) wants (by decide)) fun b second => ?_
    have done : Tells (p.Excuses Own) (pure .boolean) (Voids (Phrase.compare op left right).kind) :=
      .pure (expression (by decide) (by simp))
    dsimp only
    split
    · refine .bind (.error ?_) fun _ _ => done
      have kind : n.kind = .compare := by
        rw [Node.kind, shape]
        rfl
      by_cases void : a = .void
      · exact fun _ => .inr ⟨n, mem, left.node, slot (by simp), first void, .inr ⟨kind, rfl⟩⟩
      by_cases void' : b = .void
      · exact fun _ => .inr ⟨n, mem, right.node, slot (by simp), second void', .inr ⟨kind, rfl⟩⟩
      exact excuses_of_message (not_infix_compare _ (name_mem_valueNames void) _
        (name_mem_valueNames void'))
    · exact done
  | negate value =>
    exact .bind (.discard (operand (by simp) (by decide) (by decide))) fun _ _ =>
      .pure (expression (by decide) (by simp))
  | motorSetPower port power =>
    exact .bind (.discard (operand (by simp) (by decide) (by decide))) fun _ _ =>
      .bind asked fun _ _ => statement rfl
  | motorStop port => exact .bind asked fun _ _ => statement rfl
  | sensorSample sensor port =>
    refine .bind asked fun _ _ => .pure (expression ?_ (by simp))
    split <;> decide
  | showText text =>
    exact .bind (.discard (operand (by simp) (by decide) (by decide))) fun _ _ =>
      .bind asked fun _ _ => statement rfl
  | playTone frequency duration =>
    exact .bind (.discard (operand (by simp) (by decide) (by decide))) fun _ _ =>
      .bind (.discard (operand (by simp) (by decide) (by decide))) fun _ _ =>
      .bind asked fun _ _ => statement rfl
  | extension spec slots =>
    have kind : n.kind = .extension spec := by
      rw [Node.kind, shape]
      rfl
    have listed : platform.board.extensionKinds.contains spec = true :=
      List.contains_iff_mem.2 (fitted.listed n mem spec kind)
    have children : Tells (p.Excuses Own)
        (discard (Node.acceptChildren (.extension spec slots))) fun _ => True := by
      rw [discard_acceptChildren]
      exact .forM fun c hc => chain hc
    have told : Tells (p.Excuses Own)
        (collect (platform.checkExtension n spec (slots.map (SlotValue.map (·.node)))))
          fun _ => True := by
      simpa only [Phrase.map, Platform.ask] using asked
    rw [handler, if_pos listed]
    refine .bind children fun _ _ => .bind told fun _ _ => .pure fun expression => ?_
    change Kind.isExpression (.extension spec) = true at expression
    have category : spec.category = .expression ∨ spec.category = .sensor := by
      rw [Kind.isExpression, Kind.category] at expression
      split at expression
      · next same => exact .inl same
      · next same => exact .inr same
      · cases expression
    rcases category with same | same <;> simp [same]

/-- Among values, the check of a node returns void for the valueless ones. -/
theorem tells_check {platform : Platform} (adds : platform.Adds Own)
    (fitted : p.Fitted platform.board) (n : Node) (below : n.walk ⊆ p.walk) :
    Tells (p.Excuses Own) (check platform n) fun r =>
      n.kind.isExpression = true → (r = some .void ↔ n.Valueless) := by
  induction n using Node.induction with
  | step n ih =>
    rw [check_eq]
    split
    swap
    · next inactive =>
      exact .pure fun _ => iff_of_false (Option.some_ne_none _).symm fun void => inactive void.1
    next active =>
    have shape : n.phrase = (n.phrase.map (checked platform)).map (·.node) :=
      (n.phrase.map_map_cancel fun c => rfl).symm
    have handled := tells_handler adds fitted (below n.mem_walk_self) shape (by
      rw [Phrase.children_map, List.forall_mem_map]
      intro c hc
      exact ih c hc (List.Subset.trans (Node.walk_subset (Node.mem_walk_of_mem_children hc)) below))
    rw [Phrase.kind_map] at handled
    refine .map (handled.mono fun type voids expression => ?_)
    rw [Option.some.injEq, voids expression]
    exact (and_iff_right active).symm

end Nodes

/-! ## Runs -/

section Runs

variable {p : Program} {Own : Diagnostic → Prop}

theorem tells_defineIfMethod (n : Node) :
    Tells (p.Excuses Own) (defineIfMethod n) fun _ => True := by
  unfold defineIfMethod
  split
  swap
  · exact .pure trivial
  refine .bind (tells_checkName _ _) fun _ _ => .get_bind fun s _ => ?_
  split
  · exact tells_error (by decide) _
  · exact .bind (.modify fun _ valued => ⟨valued, rfl⟩) fun _ _ => .record _ _

theorem tells_explore {platform : Platform} (adds : platform.Adds Own)
    (fitted : p.Fitted platform.board) :
    Tells (p.Excuses Own) (explore platform p) fun _ => True := by
  have declarations : Tells (p.Excuses Own) ((topLevel p).forM (checkIfStart platform))
      fun _ => True := by
    rw [forM_checkIfStart]
    exact .forM fun n hn => .discard (tells_check adds fitted n
      (walk_subset_of_mem_topLevel (List.mem_of_mem_filter hn)))
  have chains : Tells (p.Excuses Own) (p.instances.forM fun i => discard (check platform i.body))
      fun _ => True :=
    .forM fun i hi => .discard (tells_check adds fitted i.body (Program.body_walk_subset hi))
  exact .bind (.forM fun n _ => tells_defineIfMethod n) fun _ _ => .bind declarations fun _ _ =>
    .bind (.modify fun _ valued => ⟨valued, rfl⟩) fun _ _ => chains

end Runs

end Checker

/-- What the checks of a platform make of the values of a program. -/
structure Platform.FindsValues (platform : Platform) (p : Program) (Own : Diagnostic → Prop) :
    Prop where
  /-- In a value slot there is no value exactly for an active sensor that is an extension. -/
  void : ∀ n ∈ p.walk, ∀ o ∈ n.phrase.values, ∀ t, Checker.Valued t →
    (((Checker.check platform o).run t).1 = some .void ↔ o.Valueless)
  start : ∀ config, Checker.Valued { collector := { config } }
  kept : ∀ n ∈ p.walk, ∀ t, Checker.Valued t →
    Checker.Valued ((Checker.check platform n).run t).2
  /-- No statement is reported elsewhere. -/
  findings : ∀ config, ∀ d ∈ (platform.validate p config).diagnostics.toList, p.Excuses Own d
  silent : (∀ spec ∈ platform.board.extensionKinds, spec.category ≠ .sensor) →
    ∀ n ∈ p.walk, ¬ n.Valueless

/-- The checker finds no value in a value slot exactly if there is an active sensor that is an
extension, and only then it reports a statement there. -/
theorem Program.void_values {platform : Platform} {registry : KindRegistry}
    (kinds : platform.board.kindRegistry = .ok registry) {d : Document} {p : Program}
    {s s' : Supply} (read : (ofDocument registry d).run s = (.ok p, s'))
    {Own : Diagnostic → Prop} (adds : platform.Adds Own) : platform.FindsValues p Own := by
  have fitted := fitted_of_ofDocument kinds read
  have start (config : HardwareConfig) : Checker.Valued { collector := { config } } := by
    intro x v found
    cases found
  refine ⟨?_, start, ?_, ?_, ?_⟩
  · intro n hn o ho t valued
    have inside : o ∈ p.walk := walk_subset hn
      (Node.mem_walk_of_mem_children (n.phrase.values_subset_children ho))
    exact (Checker.tells_check adds fitted o (walk_subset inside) t valued).1
      (fitted.values n hn o ho)
  · intro n hn t valued
    exact (Checker.tells_check adds fitted n (walk_subset hn) t valued).2.1
  · intro config d hd
    rw [Platform.diagnostics_validate, List.mem_append] at hd
    rcases hd with hd | hd
    · obtain ⟨-, -, told⟩ := Checker.tells_explore adds fitted _ (start config)
      rcases told d hd with before | excused
      · cases before
      · exact excused
    · obtain ⟨declaration, -, rfl⟩ := List.mem_map.1 hd
      have differ : DiagnosticCode.unusedVariable ≠ .typeMismatch := by decide
      exact Checker.excuses_of_code differ
  · rintro silent n hn ⟨-, spec, kind, sensor⟩
    exact silent spec (fitted.listed n hn spec kind) sensor

/-- A board whose one block type is a sensor. -/
def lab : Board where
  name := "lab"
  description := "lab"
  extensionKinds := [⟨"probe", .sensor, []⟩]

def labRegistry : KindRegistry := KindRegistry.core.registerNew lab.extensionKinds

theorem kindRegistry_lab : lab.kindRegistry = .ok labRegistry := rfl

/-- A pause for as long as the sensor says. -/
def probing : Document where
  formatVersion := "3.1"
  instances := [{ blocks := [.mk {
    id := "a", type := "robControls_wait_time"
    values := [⟨"WAIT", .mk { id := "b", type := "probe" }⟩] }] }]

/-- The state in which a run begins. -/
def atLab : CheckState := { collector := { config := { robot := "lab" } } }

/-- The sensor was read as a value, and the checker reports a statement. -/
theorem exists_valueless_probing :
    ∃ p s', (Program.ofDocument labRegistry probing).run {} = (.ok p, s') ∧
      lab.kindRegistry = .ok labRegistry ∧
      (∃ n ∈ p.walk, ∃ o ∈ n.phrase.values,
        ((Checker.check { board := lab } o).run atLab).1 = some .void) ∧
      ∃ d ∈ (Platform.validate { board := lab } p { robot := "lab" }).diagnostics.toList,
        d.code = .typeMismatch ∧ d.message = "duration must be Number, found a statement" := by
  have computed : ((Program.ofDocument labRegistry probing).run {}).1.toOption.any (fun p =>
      (p.walk.any fun n => n.phrase.values.any fun o =>
        ((Checker.check { board := lab } o).run atLab).1 == some .void) &&
      (Platform.validate { board := lab } p { robot := "lab" }).diagnostics.toList.any fun d =>
        d.code == .typeMismatch && d.message == "duration must be Number, found a statement") =
      true := by decide +kernel
  obtain ⟨p, s', read, computed⟩ := Except.exists_eq_ok_of_any_fst computed
  simp only [Bool.and_eq_true, List.any_eq_true, beq_iff_eq] at computed
  exact ⟨p, s', read, kindRegistry_lab, computed.1, computed.2⟩

theorem Program.void_values_probing :
    ∃ p s', lab.kindRegistry = .ok labRegistry ∧
      (ofDocument labRegistry probing).run {} = (.ok p, s') ∧
      Platform.FindsValues { board := lab } p (·.code ∈ DiagnosticCode.hardware) := by
  obtain ⟨p, s', read⟩ : ∃ p s', (ofDocument labRegistry probing).run {} = (.ok p, s') := by
    have computed : ((ofDocument labRegistry probing).run {}).1.toOption.any (fun _ => true) =
        true := by decide +kernel
    obtain ⟨p, s', read, -⟩ := Except.exists_eq_ok_of_any_fst computed
    exact ⟨p, s', read⟩
  have known : Platform.Known { board := lab } := .inr ⟨lab, rfl⟩
  exact ⟨p, s', kindRegistry_lab, read, void_values kindRegistry_lab read known.modest.adds⟩

end BlockGraph

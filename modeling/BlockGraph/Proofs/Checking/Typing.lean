import BlockGraph.Proofs.Checking.Congruence
import BlockGraph.Proofs.Checking.Modest
import BlockGraph.Proofs.Mapping.Regular

/-!
# Types of expressions

The checker finds nothing wrong with the types in an expression exactly if the expression has a type
by the typing rules, and then this type is what the checker returns. A wrong operand is never
concealed: what stands in for its type fits everywhere, but the finding stays.

* `Node.HasType`: the typing rules.
* `Checker.Yields`: what a step returns if it finds nothing wrong, with one rule for each part of
  checks.
* `Program.types_expect`: an expression in a slot is accepted exactly if it has the wanted type.
-/

namespace BlockGraph

/-! ## The rules -/

/-- The codes of findings about types. -/
def DiagnosticCode.ofTypes : List DiagnosticCode :=
  [typeMismatch, missingExpression, invalidNumber, undeclaredVariable]

/-- Whether findings leave no doubt about types. -/
def Diagnostic.TypesFine (found : List Diagnostic) : Prop :=
  ∀ d ∈ found, d.code ∉ DiagnosticCode.ofTypes

/-- Whether an expression of a type may stand where `want` is asked for. -/
def ExprType.Asks (want : ExprType) (type : DataType) : Prop :=
  want = .unknown ∨ want = .ofDataType type

/-- An expression has a type where the variables have the types `G`. -/
inductive Node.HasType (G : String → Option DataType) : Node → DataType → Prop
  | number {n : Node} {text : String} (phrase : n.phrase = .numConst text)
      (readable : (readNumber? text).isSome = true) : HasType G n .number
  | boolean {n : Node} {value : Bool} (phrase : n.phrase = .boolConst value) : HasType G n .boolean
  | string {n : Node} {text : String} (phrase : n.phrase = .stringConst text) : HasType G n .string
  | reference {n : Node} {name : String} {type : DataType} (phrase : n.phrase = .varRef name)
      (known : G name = some type) : HasType G n type
  | arithmetic {n left right : Node} {op : ArithOp} (phrase : n.phrase = .arithmetic op left right)
      (first : HasType G left .number) (second : HasType G right .number) : HasType G n .number
  | ordering {n left right : Node} {op : CompareOp} (phrase : n.phrase = .compare op left right)
      (ordering : op.isOrdering = true) (first : HasType G left .number)
      (second : HasType G right .number) : HasType G n .boolean
  /-- Values are compared for equality if they are of one type. -/
  | equality {n left right : Node} {op : CompareOp} {type : DataType}
      (phrase : n.phrase = .compare op left right) (equality : op.isOrdering = false)
      (first : HasType G left type) (second : HasType G right type) : HasType G n .boolean
  | logic {n left right : Node} {op : LogicOp} (phrase : n.phrase = .logic op left right)
      (first : HasType G left .boolean) (second : HasType G right .boolean) : HasType G n .boolean
  | negate {n operand : Node} (phrase : n.phrase = .negate operand)
      (inner : HasType G operand .boolean) : HasType G n .boolean
  | booleanSensor {n : Node} {sensor port : String} (phrase : n.phrase = .sensorSample sensor port)
      (boolean : isBooleanSensor sensor = true) : HasType G n .boolean
  | numberSensor {n : Node} {sensor port : String} (phrase : n.phrase = .sensorSample sensor port)
      (number : isBooleanSensor sensor = false) : HasType G n .number

variable {G : String → Option DataType} {n : Node} {type : DataType}

/-- The rules, read from below. -/
theorem Node.hasType_iff : n.HasType G type ↔ match n.phrase with
    | .numConst text => (readNumber? text).isSome = true ∧ type = .number
    | .boolConst _ => type = .boolean
    | .stringConst _ => type = .string
    | .varRef name => G name = some type
    | .arithmetic _ left right =>
      left.HasType G .number ∧ right.HasType G .number ∧ type = .number
    | .compare op left right => (∃ operand, (op.isOrdering = true → operand = .number) ∧
        left.HasType G operand ∧ right.HasType G operand) ∧ type = .boolean
    | .logic _ left right =>
      left.HasType G .boolean ∧ right.HasType G .boolean ∧ type = .boolean
    | .negate operand => operand.HasType G .boolean ∧ type = .boolean
    | .sensorSample sensor _ => type = if isBooleanSensor sensor then .boolean else .number
    | _ => False := by
  refine ⟨fun h => ?_, fun h => ?_⟩
  · cases h with
    | number phrase readable => rw [phrase]; exact ⟨readable, rfl⟩
    | boolean phrase | string phrase => rw [phrase]
    | reference phrase known => rw [phrase]; exact known
    | arithmetic phrase first second | logic phrase first second =>
      rw [phrase]
      exact ⟨first, second, rfl⟩
    | ordering phrase ordering first second =>
      rw [phrase]
      exact ⟨⟨_, fun _ => rfl, first, second⟩, rfl⟩
    | equality phrase equality first second =>
      rw [phrase]
      exact ⟨⟨_, fun ordering => absurd ordering (by simp [equality]), first, second⟩, rfl⟩
    | negate phrase inner => rw [phrase]; exact ⟨inner, rfl⟩
    | booleanSensor phrase boolean => rw [phrase]; simp [boolean]
    | numberSensor phrase number => rw [phrase]; simp [number]
  · cases phrase : n.phrase <;> rw [phrase] at h
    case numConst text => obtain ⟨readable, rfl⟩ := h; exact .number phrase readable
    case boolConst => obtain rfl := h; exact .boolean phrase
    case stringConst => obtain rfl := h; exact .string phrase
    case varRef => exact .reference phrase h
    case arithmetic => obtain ⟨first, second, rfl⟩ := h; exact .arithmetic phrase first second
    case compare op left right =>
      obtain ⟨⟨operand, ordering, first, second⟩, rfl⟩ := h
      cases order : op.isOrdering with
      | true =>
        obtain rfl := ordering order
        exact .ordering phrase order first second
      | false => exact .equality phrase order first second
    case logic => obtain ⟨first, second, rfl⟩ := h; exact .logic phrase first second
    case negate => obtain ⟨inner, rfl⟩ := h; exact .negate phrase inner
    case sensorSample sensor port =>
      obtain rfl := h
      cases boolean : isBooleanSensor sensor with
      | true => exact .booleanSensor phrase boolean
      | false => exact .numberSensor phrase boolean
    all_goals exact h.elim

theorem Node.HasType.unique {type' : DataType} (h : n.HasType G type) (h' : n.HasType G type') :
    type = type' := by
  rw [hasType_iff] at h h'
  cases phrase : n.phrase <;> rw [phrase] at h h'
  case varRef => exact Option.some.inj (h.symm.trans h')
  case numConst | compare | negate => exact h.2.trans h'.2.symm
  case boolConst | stringConst | sensorSample => exact h.trans h'.symm
  case arithmetic | logic => exact h.2.2.trans h'.2.2.symm
  all_goals exact h.elim

/-- An empty slot has no type. -/
theorem Node.HasType.isEmptyExpr_eq_false (h : n.HasType G type) :
    n.phrase.isEmptyExpr = false := by
  rw [hasType_iff] at h
  cases phrase : n.phrase with
  | emptyExpr => rw [phrase] at h; exact h.elim
  | _ => rfl

@[simp] theorem ExprType.asks_unknown : ExprType.unknown.Asks type := .inl rfl

@[simp] theorem ExprType.asks_ofDataType {want : DataType} :
    (ExprType.ofDataType want).Asks type ↔ type = want := by
  cases want <;> cases type <;> simp [Asks, ofDataType]

/-- A value of a known type fits where this type is asked for, or none in particular. -/
theorem ExprType.fits_iff_asks {want : ExprType} :
    (ExprType.ofDataType type).fits want = true ↔ want.Asks type := by
  cases type <;> cases want <;> simp [Asks, ofDataType, fits]

/-! ## Steps -/

namespace Checker

/-- A state in which the variables in scope have the types `G`. -/
def Types (G : String → Option DataType) (s : CheckState) : Prop :=
  ∀ x, (s.scope.get? x).map (·.type) = (G x).map .ofDataType

/-- A step that keeps the scope, and returns `a` without a finding about types exactly if `R a`. -/
def Yields (G : String → Option DataType) {α : Type} (x : Check α) (R : α → Prop) : Prop :=
  ∀ s, Types G s → ∃ found, (x.run s).2.scope = s.scope ∧
    (x.run s).2.collector.store.toList = s.collector.store.toList ++ found ∧
    ∀ a, R a ↔ Diagnostic.TypesFine found ∧ (x.run s).1 = a

namespace Yields

variable {α β : Type} {x : Check α} {R S : α → Prop}

protected theorem congr (h : Yields G x R) (same : ∀ a, R a ↔ S a) : Yields G x S := by
  rwa [← show R = S from funext fun a => propext (same a)]

protected theorem pure (a : α) : Yields G (pure a) (a = ·) := fun s _ =>
  ⟨[], rfl, (List.append_nil _).symm,
    fun _ => (and_iff_right (by simp [Diagnostic.TypesFine])).symm⟩

protected theorem bind {f : α → Check β} {S : α → β → Prop} (hx : Yields G x R)
    (hf : ∀ a, Yields G (f a) (S a)) : Yields G (x >>= f) fun b => ∃ a, R a ∧ S a b := by
  intro s types
  obtain ⟨found, scope, list, result⟩ := hx s types
  have between : Types G (x.run s).2 := by rwa [Types, scope]
  obtain ⟨more, scope', list', result'⟩ := hf (x.run s).1 (x.run s).2 between
  refine ⟨found ++ more, scope'.trans scope, ?_, fun b => ?_⟩
  · rw [← List.append_assoc, ← list]
    exact list'
  · simp only [result, Diagnostic.TypesFine, List.forall_mem_append, and_assoc, exists_and_left,
      exists_eq_left']
    exact and_congr_right fun _ => result' b

/-- Steps that depend on the state. -/
protected theorem get_bind {f : CheckState → Check α} (each : ∀ s, Types G s → Yields G (f s) R) :
    Yields G (get >>= f) R := fun s types => each s types s types

protected theorem map (f : α → β) (h : Yields G x R) :
    Yields G (f <$> x) fun b => ∃ a, R a ∧ f a = b := by
  rw [map_eq_pure_bind]
  exact .bind h fun a => .pure (f a)

protected theorem discard (h : Yields G x R) : Yields G (discard x) fun _ => ∃ a, R a :=
  (h.map fun _ => PUnit.unit).congr fun _ => by simp

/-- A finding about types. -/
protected theorem error {place : Node} {code : DiagnosticCode}
    (about : code ∈ DiagnosticCode.ofTypes) (message : String) :
    Yields G (error place code message) fun _ => False := by
  intro s _
  refine ⟨[{ severity := .error, code, message, location := some place.location }], rfl,
    DiagnosticStore.toList_push _ _ _, fun _ => ?_⟩
  simp [Diagnostic.TypesFine, about]

protected theorem fault {place : Node} {code : DiagnosticCode}
    (about : code ∈ DiagnosticCode.ofTypes) (message : String) (a : α) :
    Yields G (do error place code message; return a) fun _ => False :=
  (Yields.bind (.error about message) fun _ => .pure a).congr fun _ => by simp

/-- What a platform finds is not about types. -/
protected theorem collect {Fine : Node × Diagnostic → Prop} {z : Collect Unit}
    (writes : Collector.Writes Fine z) (other : ∀ e, Fine e → e.2.code ∉ DiagnosticCode.ofTypes) :
    Yields G (collect z) fun _ => True := by
  intro s _
  obtain ⟨a, findings, facts, fine, run⟩ := writes s.collector.config
  refine ⟨Log.reports { findings }, rfl, ?_, fun _ => (iff_of_true trivial ⟨?_, rfl⟩)⟩
  · change (z.run s.collector).2.store.toList = _
    rw [run s.collector rfl]
    exact DiagnosticStore.toList_pushAll _ _
  · rw [Diagnostic.TypesFine, Log.reports, List.forall_mem_map]
    exact fun e he => other e (fine e he)

/-- A variable has its type if it is in scope. -/
protected theorem lookup {place : Node} (name : String) : Yields G (lookup place name) fun result =>
    ∃ type, G name = some type ∧ result = .ofDataType type := by
  refine .get_bind fun s types => ?_
  have here := types name
  split
  · next v found =>
    rw [found] at here
    obtain ⟨type, known, same⟩ := Option.map_eq_some_iff.1 here.symm
    have use : Yields G (modify fun s => { s with used := s.used.add v.binder }) fun _ => True :=
      fun s _ => ⟨[], rfl, (List.append_nil _).symm, by simp [Diagnostic.TypesFine]⟩
    refine (Yields.bind use fun _ => .pure v.type).congr fun result => ?_
    simp [known, ← same, eq_comm]
  · next absent =>
    rw [absent] at here
    have unknown := Option.map_eq_none_iff.1 here.symm
    refine .congr (.fault (by decide) _ _) fun result => ?_
    simp [unknown]

/-- What is in a slot is accepted if it has a type that is asked for. -/
protected theorem expect {parent : Node} {platform : Platform}
    (check : n.phrase.isEmptyExpr = false → Yields G (check platform n) fun result =>
      ∃ type, n.HasType G type ∧ result = some (.ofDataType type))
    (want : ExprType) (what : String) : Yields G (expect parent (checked platform n) want what)
      fun result => ∃ type, n.HasType G type ∧ want.Asks type ∧ result = .ofDataType type := by
  unfold Checker.expect
  split
  · next empty =>
    refine .congr (.fault (by decide) _ _) fun result => iff_of_false id ?_
    rintro ⟨type, typed, -⟩
    change n.phrase.isEmptyExpr = true at empty
    rw [typed.isEmptyExpr_eq_false] at empty
    cases empty
  · next full =>
    change ¬ n.phrase.isEmptyExpr = true at full
    have fits (got : ExprType) : Yields G
        (if got.fits want then return got else do
          error n .typeMismatch (what ++ " must be " ++ want.name ++ ", found " ++ got.name)
          return .unknown) fun result => got.fits want = true ∧ got = result := by
      split
      · next suits => exact (Yields.pure got).congr fun result => (and_iff_right suits).symm
      · next other =>
        refine .congr (.fault (by decide) _ _) fun result => ?_
        simp [other]
    refine (Yields.bind (check (by simpa using full)) fun got => fits (got.getD .unknown)).congr
      fun result => ?_
    refine ⟨?_, ?_⟩
    · rintro ⟨_, ⟨type, typed, rfl⟩, suits, rfl⟩
      exact ⟨type, typed, ExprType.fits_iff_asks.1 suits, rfl⟩
    · rintro ⟨type, typed, asks, rfl⟩
      exact ⟨_, ⟨type, typed, rfl⟩, ExprType.fits_iff_asks.2 asks, rfl⟩

end Yields

/-! ## Checks of expressions -/

variable {platform : Platform}

/-- What the check of a slot with `n` in it returns, by the typing rules. -/
def Slots (G : String → Option DataType) (platform : Platform) (n : Node) : Prop :=
  ∀ parent want what, Yields G (expect parent (checked platform n) want what)
    fun result => ∃ type, n.HasType G type ∧ want.Asks type ∧ result = .ofDataType type

/-- An operand for which a type is asked. -/
theorem Slots.operand (h : Slots G platform n) (parent : Node) (want : DataType) (what : String) :
    Yields G (Functor.discard (expect parent (checked platform n) (.ofDataType want) what))
      fun _ => n.HasType G want :=
  (h parent (.ofDataType want) what).discard.congr fun _ => by simp

/-- The check of an expression follows the typing rules if those of its operands do. -/
theorem yields_handler (modest : platform.Modest) (expression : n.kind.isExpression = true)
    (core : ∀ spec, n.kind ≠ .extension spec) (full : n.phrase.isEmptyExpr = false)
    (each : ∀ c ∈ n.phrase.operands, Slots G platform c) :
    Yields G (handler platform n (n.phrase.map (checked platform))) fun result =>
      ∃ type, n.HasType G type ∧ result = .ofDataType type := by
  have typed (type : DataType) : n.HasType G type ↔ _ := Node.hasType_iff
  rw [Node.kind] at expression core
  cases phrase : n.phrase <;> rw [phrase] at expression core full each <;>
    simp only [phrase] at typed <;> simp only [typed]
  case numConst text =>
    rw [Phrase.map, handler]
    cases readable : (readNumber? text).isSome with
    | true => exact .congr (.pure _) fun result => by simp [ExprType.ofDataType, eq_comm]
    | false => exact .congr (.fault (by decide) _ _) fun result => by simp
  case boolConst => exact .congr (.pure _) fun result => by simp [ExprType.ofDataType, eq_comm]
  case stringConst => exact .congr (.pure _) fun result => by simp [ExprType.ofDataType, eq_comm]
  case varRef name => exact .lookup name
  case arithmetic op left right =>
    have first := (each left List.mem_cons_self).operand n .number "left operand"
    have second := (each right (List.mem_cons_of_mem _ List.mem_cons_self)).operand n .number
      "right operand"
    exact .congr (.bind first fun _ => .bind second fun _ => .pure _) fun result => by
      simp [ExprType.ofDataType, eq_comm, and_assoc]
  case compare op left right =>
    have asks (type : DataType) : (if op.isOrdering then ExprType.number else .unknown).Asks type ↔
        (op.isOrdering = true → type = .number) := by
      cases op.isOrdering with
      | true =>
        rw [if_pos rfl, forall_prop_of_true rfl]
        exact (ExprType.asks_ofDataType : (ExprType.ofDataType .number).Asks type ↔ _)
      | false => simp
    have same (a b : ExprType) : Yields G (do
        if !a.fits b then
          error n .typeMismatch ("cannot compare " ++ a.name ++ " with " ++ b.name)
        return ExprType.boolean) fun result => a.fits b = true ∧ result = .boolean := by
      cases fits : a.fits b with
      | true => exact .congr (.pure _) fun result => by simp [eq_comm]
      | false => exact .congr (.fault (by decide) _ _) fun result => by simp
    have first := each left List.mem_cons_self n
    have second := each right (List.mem_cons_of_mem _ List.mem_cons_self) n
    refine .congr (.bind (first _ _) fun a => .bind (second _ _) fun b => same a b) fun result => ?_
    simp only [asks]
    refine ⟨?_, ?_⟩
    · rintro ⟨_, ⟨type, typed, ordering, rfl⟩, _, ⟨type', typed', -, rfl⟩, fits, rfl⟩
      obtain rfl := ExprType.asks_ofDataType.1 (ExprType.fits_iff_asks.1 fits)
      exact ⟨.boolean, ⟨⟨type, ordering, typed, typed'⟩, rfl⟩, rfl⟩
    · rintro ⟨_, ⟨⟨type, ordering, typed, typed'⟩, rfl⟩, rfl⟩
      exact ⟨_, ⟨type, typed, ordering, rfl⟩, _, ⟨type, typed', ordering, rfl⟩,
        ExprType.fits_self _, rfl⟩
  case logic op left right =>
    have first := (each left List.mem_cons_self).operand n .boolean "left operand"
    have second := (each right (List.mem_cons_of_mem _ List.mem_cons_self)).operand n .boolean
      "right operand"
    exact .congr (.bind first fun _ => .bind second fun _ => .pure _) fun result => by
      simp [ExprType.ofDataType, eq_comm, and_assoc]
  case negate operand =>
    have inner := (each operand List.mem_cons_self).operand n .boolean "operand"
    exact .congr (.bind inner fun _ => .pure _) fun result => by
      simp [ExprType.ofDataType, eq_comm]
  case sensorSample sensor port =>
    have other : ∀ code ∈ DiagnosticCode.hardware, code ∉ DiagnosticCode.ofTypes := by decide
    have asked : Yields G (collect (platform.checkSensor n sensor port)) fun _ => True :=
      .collect (modest.writes n (.sensorSample sensor port)) fun e about => other _ about.2
    refine .congr (.bind asked fun _ => .pure _) fun result => ?_
    cases isBooleanSensor sensor <;> simp [ExprType.ofDataType, eq_comm]
  case emptyExpr => cases full
  case extension spec slots => exact absurd rfl (core spec)
  all_goals cases expression

/-- An expression without extensions in a slot is checked by the typing rules. -/
theorem slots_of_plain (modest : platform.Modest) (expression : n.kind.isExpression = true)
    (plain : ∀ m ∈ n.walk, m.isActive = true ∧ ∀ spec, m.kind ≠ .extension spec)
    (operands : ∀ m ∈ n.walk, ∀ o ∈ m.phrase.operands, o.kind.isExpression = true) :
    Slots G platform n := by
  induction n using Node.induction with
  | step n ih =>
    rw [Node.walk_eq, List.forall_mem_cons, List.forall_mem_flatMap] at plain operands
    obtain ⟨⟨active, core⟩, plain⟩ := plain
    obtain ⟨here, operands⟩ := operands
    intro parent want what
    refine .expect (fun full => ?_) want what
    have handled := yields_handler modest expression core full fun c hc =>
      ih c (n.phrase.operands_subset_children hc) (here c hc)
        (plain c (n.phrase.operands_subset_children hc))
        (operands c (n.phrase.operands_subset_children hc))
    rw [check_eq, if_pos active]
    refine (handled.map some).congr fun result => ⟨?_, ?_⟩
    · rintro ⟨_, ⟨type, typed, rfl⟩, rfl⟩
      exact ⟨type, typed, rfl⟩
    · rintro ⟨type, typed, rfl⟩
      exact ⟨_, ⟨type, typed, rfl⟩, rfl⟩

end Checker

/-- An expression in a slot is found fault with exactly if it is missing or does not have the type
that is asked for; and if it has it, then that is its type for the checker. -/
theorem Program.types_expect {registry : KindRegistry} {d : Document} {p : Program} {s s' : Supply}
    (read : (ofDocument registry d).run s = (.ok p, s')) {platform : Platform}
    (known : platform.Known) {e : Node} (mem : e ∈ p.walk)
    (expression : e.kind.isExpression = true)
    (plain : ∀ n ∈ e.walk, n.isActive = true ∧ ∀ spec, n.kind ≠ .extension spec)
    {t : CheckState} (types : Checker.Types G t) (parent : Node) (want : ExprType)
    (what : String) :
    let after := (Checker.expect parent (Checker.checked platform e) want what).run t
    ∃ found, after.2.collector.store.toList = t.collector.store.toList ++ found ∧
      (Diagnostic.TypesFine found ↔
        e.phrase.isEmptyExpr = false ∧ ∃ type, e.HasType G type ∧ want.Asks type) ∧
      (Diagnostic.TypesFine found → ∀ type, e.HasType G type → after.1 = .ofDataType type) := by
  obtain ⟨i, hi, there⟩ := List.mem_flatMap.1 mem
  have operands : ∀ n ∈ e.walk, ∀ o ∈ n.phrase.operands, o.kind.isExpression = true := fun n hn =>
    isExpression_of_ofDocument read n (List.mem_flatMap.2 ⟨i, hi, Node.walk_subset there hn⟩)
  have slots : Checker.Slots G platform e :=
    Checker.slots_of_plain known.modest expression plain operands
  obtain ⟨found, -, list, result⟩ := slots parent want what t types
  refine ⟨found, list, ⟨fun fine => ?_, ?_⟩, fun fine type typed => ?_⟩
  · obtain ⟨type, typed, asks, -⟩ := (result _).2 ⟨fine, rfl⟩
    exact ⟨typed.isEmptyExpr_eq_false, type, typed, asks⟩
  · rintro ⟨-, type, typed, asks⟩
    exact ((result _).1 ⟨type, typed, asks, rfl⟩).1
  · obtain ⟨type', typed', -, same⟩ := (result _).2 ⟨fine, rfl⟩
    rw [same, typed'.unique typed]

/-- A wait for one more than a variable. -/
def waiting : Document where
  formatVersion := "3.1"
  instances := [{ blocks := [.mk {
    id := "a", type := "robControls_wait_time"
    values := [⟨"WAIT", .mk {
      id := "b", type := "math_arithmetic", fields := [⟨"OP", "ADD"⟩]
      values := [
        ⟨"A", .mk { id := "c", type := "variables_get", fields := [⟨"VAR", "x"⟩] }⟩,
        ⟨"B", .mk { id := "d", type := "math_number", fields := [⟨"NUM", "1"⟩] }⟩] }⟩] }] }]

/-- What is read of the duration. -/
def waitingDuration : Node := .mk { id := ⟨3⟩, sealed := true, blockId := "b" } (.arithmetic .add
  (.mk { id := ⟨1⟩, sealed := true, blockId := "c" } (.varRef "x"))
  (.mk { id := ⟨2⟩, sealed := true, blockId := "d" } (.numConst "1")))

/-- What is read from the document. -/
def waitingProgram : Program where
  formatVersion := "3.1"
  instances := [⟨0, 0, .mk { id := ⟨5⟩, sealed := true } (.stmtList [
    .mk { id := ⟨4⟩, sealed := true, blockId := "a" } (.waitTime waitingDuration)])⟩]

theorem ofDocument_waiting :
    (Program.ofDocument .core waiting).run {} = (.ok waitingProgram, { next := 6 }) := by
  cbv

/-- The only variable is a number. -/
def waitingTypes (name : String) : Option DataType := if name = "x" then some .number else none

/-- A state with this variable in scope. -/
def waitingState : CheckState where
  collector := { config := { robot := "ev3" } }
  scope := SortedMap.empty.insert "x" ⟨.number, ⟨0⟩⟩

theorem types_waiting : Checker.Types waitingTypes waitingState := by
  intro name
  rw [waitingState, SortedMap.get?_insert, waitingTypes]
  split <;> rfl

theorem Program.types_expect_waiting :
    (ofDocument .core waiting).run {} = (.ok waitingProgram, { next := 6 }) ∧
      let after := (Checker.expect waitingDuration (Checker.checked Boards.ev3 waitingDuration)
        .number "duration").run waitingState
      ∃ found, after.2.collector.store.toList = waitingState.collector.store.toList ++ found ∧
        (Diagnostic.TypesFine found ↔ waitingDuration.phrase.isEmptyExpr = false ∧
          ∃ type, waitingDuration.HasType waitingTypes type ∧ ExprType.number.Asks type) ∧
        (Diagnostic.TypesFine found → ∀ type, waitingDuration.HasType waitingTypes type →
          after.1 = .ofDataType type) := by
  have mem : waitingDuration ∈ waitingProgram.walk :=
    List.mem_cons_of_mem _ (List.mem_cons_of_mem _ List.mem_cons_self)
  have plain : ∀ n ∈ waitingDuration.walk,
      n.isActive = true ∧ ∀ spec, n.kind ≠ .extension spec := by
    intro n hn
    rcases hn with _ | ⟨_, _ | ⟨_, _ | ⟨_, ⟨⟩⟩⟩⟩ <;> exact ⟨rfl, fun spec h => by cases h⟩
  exact ⟨ofDocument_waiting, types_expect ofDocument_waiting (.inl ⟨"ev3", rfl⟩) mem rfl plain
    types_waiting waitingDuration .number "duration"⟩

end BlockGraph

import BlockGraph.Checking.Checker
import BlockGraph.Proofs.Node.Bodies
import BlockGraph.Proofs.Phrase

/-!
# Comparing checks

There are several ways to compare the steps of two runs, or those of a run with themselves. For each
of them the checks of two nodes compare if the checks of their children do, and the argument does
not depend on what is compared.

* `Checker.Congruence`: a comparison that goes along with how checks are put together.
* `Checker.Congruence.handler`: the checks of two nodes compare if those of their children do.
* `Checker.Congruence.check`: the same with inactive nodes left out.
-/

namespace BlockGraph

/-- The check of the hardware that a phrase uses. -/
def Platform.ask (p : Platform) (n : Node) : Phrase Node → Collect Unit
  | .motorSetPower port power => p.checkMotor n port power
  | .motorStop port => p.checkMotorStop n port
  | .sensorSample sensor port => p.checkSensor n sensor port
  | .showText text => p.checkShowText n text
  | .playTone frequency duration => p.checkTone n frequency duration
  | .extension spec slots => p.checkExtension n spec slots
  | _ => pure ()

namespace Checker

/-- A child with its check. -/
def checked (platform : Platform) (n : Node) : Child := ⟨n, check platform n⟩

theorem check_eq (platform : Platform) (n : Node) :
    check platform n =
      if n.isActive then some <$> handler platform n (n.phrase.map (checked platform))
      else pure none := Node.accept_eq _ n

/-- Only the checks of the children count, not what they return. -/
theorem discard_acceptChildren (p : Phrase Child) :
    discard (Node.acceptChildren p) = p.children.forM body := by
  have each (l : List Child) :
      (l.mapM (·.result) >>= fun _ => pure PUnit.unit : Check PUnit) = l.forM body := by
    induction l with
    | nil => rfl
    | cons c l ih =>
      rw [List.mapM_cons]
      simp only [bind_assoc, pure_bind]
      rw [ih]
      rfl
  exact each p.children

theorem checkIfStart_eq (platform : Platform) (n : Node) : checkIfStart platform n =
    if n.kind = .mainTask then discard (check platform n) else return := by
  unfold checkIfStart Node.kind
  cases n.phrase <;> rfl

theorem forM_checkIfStart (platform : Platform) (l : List Node) :
    l.forM (checkIfStart platform) =
      (l.filter (·.kind = .mainTask)).forM fun n => discard (check platform n) := by
  induction l with
  | nil => rfl
  | cons n l ih =>
    change (checkIfStart platform n >>= fun _ => l.forM (checkIfStart platform)) = _
    rw [ih, checkIfStart_eq]
    by_cases start : n.kind = .mainTask
    · rw [if_pos start, List.filter_cons_of_pos (by simpa using start)]
      rfl
    · rw [if_neg start, List.filter_cons_of_neg (by simpa using start)]
      rfl

/-- A comparison of steps that goes along with how checks are put together. -/
structure Congruence (J : (α : Type) → Check α → Check α → Prop) : Prop where
  protected pure : ∀ {α : Type} (a : α), J α (pure a) (pure a)
  protected bind : ∀ {α β : Type} {x y : Check α} {f g : α → Check β},
    J α x y → (∀ a, J β (f a) (g a)) → J β (x >>= f) (y >>= g)
  /-- Steps that look at the state, but not at the scope or at what was found. -/
  protected get : ∀ {α : Type} {f g : CheckState → Check α},
    (∀ s t, s.methods = t.methods → s.loopDepth = t.loopDepth → s.round = t.round →
      f s = f t ∧ g s = g t) → (∀ s, J α (f s) (g s)) → J α (get >>= f) (get >>= g)
  protected loopBody : ∀ {c d : Child}, J Unit (body c) (body d) → J Unit (loopBody c) (loopBody d)
  protected outsideLoops : ∀ {x y : Check Unit}, J Unit x y →
    J Unit (outsideLoops x) (outsideLoops y)
  protected withScope : ∀ {x y : Check Unit}, J Unit x y → J Unit (withScope x) (withScope y)

namespace Congruence

variable {J : (α : Type) → Check α → Check α → Prop} {a b : Node} {c d : Child}

/-- Two nodes of one kind at which findings compare. -/
structure Places (J : (α : Type) → Check α → Check α → Prop) (a b : Node) : Prop where
  kind : a.kind = b.kind
  error : ∀ (code : DiagnosticCode) (message : String), code ≠ .unusedVariable →
    J Unit (error a code message) (error b code message)

/-- Two nodes of one kind for which the steps of their checks compare. -/
structure Nodes (J : (α : Type) → Check α → Check α → Prop) (a b : Node) : Prop
    extends Places J a b where
  protected lookup : ∀ name, J ExprType (lookup a name) (lookup b name)
  bindName : a.kind = .forLoop → ∀ name type,
    J Unit (Checker.bind a name type) (Checker.bind b name type)
  protected declare : a.kind = .varDeclaration → ∀ name type,
    J Unit (declare a name type) (declare b name type)

/-- Two children that the check of their parents cannot tell apart. -/
structure Children (J : (α : Type) → Check α → Check α → Prop) (c d : Child) : Prop where
  missing : c.node.phrase.isEmptyExpr = d.node.phrase.isEmptyExpr
  mismatch : ∀ message, J Unit (error c.node .typeMismatch message)
    (error d.node .typeMismatch message)
  result : J (Option ExprType) c.result d.result

/-! ## Parts of checks -/

section Parts

variable (congr : Congruence J)

include congr

protected theorem map {α β : Type} {x y : Check α} (f : α → β) (h : J α x y) :
    J β (f <$> x) (f <$> y) := by
  rw [map_eq_pure_bind, map_eq_pure_bind]
  exact congr.bind h fun a => congr.pure (f a)

protected theorem discard {α : Type} {x y : Check α} (h : J α x y) :
    J PUnit (discard x) (discard y) := congr.map (fun _ => PUnit.unit) h

protected theorem body (chain : Children J c d) : J Unit (body c) (body d) :=
  congr.discard chain.result

protected theorem forM {ι : Type} {l : List ι} {f g : ι → Check PUnit}
    (each : ∀ i ∈ l, J PUnit (f i) (g i)) : J PUnit (l.forM f) (l.forM g) := by
  induction l with
  | nil => exact congr.pure _
  | cons i l ih =>
    exact congr.bind (each i List.mem_cons_self) fun _ =>
      ih fun j hj => each j (List.mem_cons_of_mem _ hj)

protected theorem mapM {ι α : Type} {l : List ι} {f g : ι → Check α}
    (each : ∀ i ∈ l, J α (f i) (g i)) : J (List α) (l.mapM f) (l.mapM g) := by
  induction l with
  | nil => exact congr.pure _
  | cons i l ih =>
    rw [List.mapM_cons, List.mapM_cons]
    exact congr.bind (each i List.mem_cons_self) fun _ =>
      congr.bind (ih fun j hj => each j (List.mem_cons_of_mem _ hj)) fun _ => congr.pure _

/-- The results of all children, one after the other. -/
protected theorem acceptChildren {r : Phrase (Child × Child)}
    (inside : ∀ e ∈ r.children, Children J e.1 e.2) :
    J (List ExprType) (Node.acceptChildren (r.map Prod.fst))
      (Node.acceptChildren (r.map Prod.snd)) := by
  unfold Node.acceptChildren
  rw [Phrase.children_map, Phrase.children_map, List.mapM_map, List.mapM_map]
  exact congr.bind (congr.mapM fun e he => (inside e he).result) fun _ => congr.pure _

variable (places : Places J a b)

include places

protected theorem expect (child : Children J c d) (want : ExprType) (what : String) :
    J ExprType (expect a c want what) (expect b d want what) := by
  unfold Checker.expect
  rw [child.missing, places.kind]
  split
  · exact congr.bind (places.error _ _ (by decide)) fun _ => congr.pure _
  · refine congr.bind child.result fun got => ?_
    dsimp only
    split
    · exact congr.pure _
    · exact congr.bind (child.mismatch _) fun _ => congr.pure _

/-- The value of a child is checked for its type and then forgotten. -/
protected theorem operand (child : Children J c d) (want : ExprType) (what : String) :
    J PUnit (Functor.discard (Checker.expect a c want what))
      (Functor.discard (Checker.expect b d want what)) :=
  congr.discard (congr.expect places child want what)

protected theorem checkName (name what : String) :
    J Unit (checkName a name what) (checkName b name what) := by
  unfold Checker.checkName
  split
  · exact congr.pure _
  · exact places.error _ _ (by decide)

end Parts

/-! ## Checks of nodes -/

section Handler

attribute [local simp] Phrase.children Phrase.slots SlotValue.nodes

/-- The checks of two nodes compare if those of their children and of their hardware do. -/
protected theorem handler (congr : Congruence J) (nodes : Nodes J a b) {platform : Platform}
    {r : Phrase (Child × Child)} (kind : a.kind = r.kind)
    (inside : ∀ e ∈ r.children, Children J e.1 e.2)
    (asked : J Unit (collect (platform.ask a (r.map (·.1.node))))
      (collect (platform.ask b (r.map (·.2.node))))) :
    J ExprType (handler platform a (r.map Prod.fst)) (handler platform b (r.map Prod.snd)) := by
  have places := nodes.toPlaces
  have andThen {x y : Check Unit} (type : ExprType) (h : J Unit x y) :
      J ExprType (do x; return type) (do y; return type) := congr.bind h fun _ => congr.pure _
  cases r with
  | stmtList statements =>
    refine andThen _ ?_
    rw [List.forM_eq_forM, List.forM_map, List.forM_map]
    exact congr.forM fun e he => congr.body (inside e he)
  | mainTask debug declarations =>
    simp at inside
    refine congr.get (fun s t _ _ round => by simp only [round, and_self]) fun s => ?_
    split
    · exact andThen _ (congr.body inside)
    · exact congr.pure _
  | varDeclaration name type value =>
    simp at inside
    exact congr.bind (congr.checkName places name _) fun _ =>
      congr.bind (congr.operand places inside _ _) fun _ =>
      andThen _ (nodes.declare kind name _)
  | ifElse conditions branches otherwise =>
    simp at inside
    refine congr.bind ?_ fun _ => andThen _ ?_
    · change J PUnit (List.forM ((conditions.map Prod.fst).zip (branches.map Prod.fst)) _)
        (List.forM ((conditions.map Prod.snd).zip (branches.map Prod.snd)) _)
      rw [List.zip_map, List.zip_map, List.forM_eq_forM, List.forM_map, List.forM_map]
      refine congr.forM fun e he => ?_
      obtain ⟨condition, branch⟩ := List.of_mem_zip he
      exact congr.bind (congr.operand places (inside _ _ (.inl condition)) _ _) fun _ =>
        congr.body (inside _ _ (.inr (.inl branch)))
    · cases otherwise with
      | none => exact congr.pure _
      | some chain => exact congr.body (inside _ _ (.inr (.inr rfl)))
  | repeatTimes times chain | whileUntil _ times chain =>
    simp at inside
    exact congr.bind (congr.operand places inside.1 _ _) fun _ =>
      andThen _ (congr.loopBody (congr.body inside.2))
  | forLoop var start stop step chain =>
    simp at inside
    exact congr.bind (congr.checkName places var _) fun _ =>
      congr.bind (congr.operand places inside.1 _ _) fun _ =>
      congr.bind (congr.operand places inside.2.1 _ _) fun _ =>
      congr.bind (congr.operand places inside.2.2.1 _ _) fun _ =>
      andThen _ (congr.withScope (congr.bind (nodes.bindName kind var _) fun _ =>
        congr.loopBody (congr.body inside.2.2.2)))
  | flowControl flow =>
    refine congr.get (fun s t _ loopDepth _ => by simp only [loopDepth, and_self]) fun s => ?_
    split
    · exact andThen _ (nodes.error _ _ (by decide))
    · exact congr.pure _
  | assign name value =>
    simp at inside
    exact congr.bind (nodes.lookup name) fun _ => andThen _ (congr.operand places inside _ _)
  | waitTime value | negate value =>
    simp at inside
    exact andThen _ (congr.operand places inside _ _)
  | methodDef name chain =>
    simp at inside
    exact andThen _ (congr.outsideLoops (congr.withScope (congr.body inside)))
  | methodCall name =>
    refine congr.get (fun s t methods _ _ => by simp only [methods, and_self]) fun s => ?_
    split
    · exact andThen _ (nodes.error _ _ (by decide))
    · exact congr.pure _
  | numConst text =>
    rw [Phrase.map, Phrase.map, Checker.handler, Checker.handler]
    split
    · exact congr.pure _
    · exact andThen _ (nodes.error _ _ (by decide))
  | boolConst | stringConst | emptyExpr => exact congr.pure _
  | varRef name => exact nodes.lookup name
  | arithmetic op left right | logic op left right =>
    simp at inside
    exact congr.bind (congr.operand places inside.1 _ _) fun _ =>
      andThen _ (congr.operand places inside.2 _ _)
  | compare op left right =>
    simp at inside
    refine congr.bind (congr.expect places inside.1 _ _) fun x =>
      congr.bind (congr.expect places inside.2 _ _) fun y => ?_
    dsimp only
    split
    · exact andThen _ (nodes.error _ _ (by decide))
    · exact congr.pure _
  | motorSetPower port power =>
    simp at inside
    exact congr.bind (congr.operand places inside _ _) fun _ => andThen _ asked
  | motorStop port => exact andThen _ asked
  | sensorSample type port => exact andThen _ asked
  | showText text =>
    simp at inside
    exact congr.bind (congr.operand places inside _ _) fun _ => andThen _ asked
  | playTone frequency duration =>
    simp at inside
    exact congr.bind (congr.operand places inside.1 _ _) fun _ =>
      congr.bind (congr.operand places inside.2 _ _) fun _ => andThen _ asked
  | extension spec slots =>
    rw [Phrase.map, Phrase.map, Checker.handler, Checker.handler]
    split
    · refine congr.bind (congr.discard (congr.acceptChildren inside)) fun _ => andThen _ ?_
      rw [List.map_map, List.map_map]
      simpa only [Phrase.map, Platform.ask, Function.comp_def, SlotValue.map_map] using asked
    · exact andThen _ (nodes.error _ _ (by decide))

/-- The checks of two methods or loops over a variable that differ in their own chains compare if
what is done with these chains does. -/
protected theorem handler_withBody (congr : Congruence J) (places : Places J a b)
    {platform : Platform} {p : Phrase Node} {old : Node} (own : p.ownBody? = some old) (new : Node)
    (operands : ∀ c ∈ p.operands, Children J (checked platform c) (checked platform c))
    (method : J Unit (withScope (body (checked platform old)))
      (withScope (body (checked platform new))))
    (loop : ∀ var, J Unit (withScope do bind a var .number; loopBody (checked platform old))
      (withScope do bind b var .number; loopBody (checked platform new))) :
    J ExprType (handler platform a (p.map (checked platform)))
      (handler platform b ((p.withBody new).map (checked platform))) := by
  cases p with
  | methodDef name chain =>
    obtain rfl := Option.some.inj own
    exact congr.bind (congr.outsideLoops method) fun _ => congr.pure _
  | forLoop var start stop step chain =>
    obtain rfl := Option.some.inj own
    have operand {c : Node} (mem : c ∈ [start, stop, step]) (what : String) :=
      congr.operand places (operands c mem) .number what
    exact congr.bind (congr.checkName places var _) fun _ =>
      congr.bind (operand (by simp) _) fun _ => congr.bind (operand (by simp) _) fun _ =>
      congr.bind (operand (by simp) _) fun _ => congr.bind (loop var) fun _ => congr.pure _
  | _ => cases own

end Handler

/-- The checks of two nodes of one shape compare if those of their children and of their hardware
do. -/
protected theorem check (congr : Congruence J) (nodes : Nodes J a b) {platform : Platform}
    {r : Phrase (Node × Node)} (left : r.map Prod.fst = a.phrase)
    (right : r.map Prod.snd = b.phrase) (active : a.isActive = b.isActive)
    (inside : ∀ e ∈ r.children, Children J (checked platform e.1) (checked platform e.2))
    (asked : J Unit (collect (platform.ask a a.phrase)) (collect (platform.ask b b.phrase))) :
    J (Option ExprType) (check platform a) (check platform b) := by
  have kind : a.kind = r.kind := by rw [Node.kind, ← left, Phrase.kind_map]
  have handled := congr.handler (r := r.map (Prod.map (checked platform) (checked platform)))
    nodes (by rwa [Phrase.kind_map])
    (by rwa [Phrase.children_map, List.forall_mem_map])
    (by rw [← left, ← right] at asked; rwa [Phrase.map_map, Phrase.map_map])
  rw [Phrase.map_map, Phrase.map_map] at handled
  rw [check_eq, check_eq, active, ← left, ← right, Phrase.map_map, Phrase.map_map]
  split
  · exact congr.map some handled
  · exact congr.pure none

end Congruence

end Checker

end BlockGraph

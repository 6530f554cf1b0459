import BlockGraph.Proofs.Checking.Requirement
import BlockGraph.Proofs.Node.Content
import BlockGraph.Proofs.Phrase

/-!
# What a run writes down

Every step of a run stands for what it does with nodes: it defines methods and checks nodes. The
hardware that a checked node uses has an answer: it is noted as a fact or there is an error at the
node or an operand of it. A step never takes back a finding or a fact, and of the facts that are
accounted for it records no others.

* `Deed.Grants`: the facts that a deed calls for.
* `Collector.Gains`: what happens to a collector in a step that stands for certain deeds.
* `Platform.Orderly`: the checks of a platform answer for the nodes that they are about.
* `Boards.orderly_of_builtin`: the built-in platforms are orderly.
-/

namespace BlockGraph

/-! ## Deeds -/

/-- The features whose facts are accounted for one by one. -/
def Feature.counted : List String := [motors, sensors, methodNames]

theorem Requirement.feature_mem_counted (r : Requirement) : r.feature ∈ Feature.counted := by
  cases r with
  | motor => exact List.mem_cons_self
  | sensor => exact List.mem_cons_of_mem _ List.mem_cons_self

theorem Requirement.feature_ne_methodNames (r : Requirement) :
    r.feature ≠ Feature.methodNames := by
  intro h
  cases r with
  | motor =>
    have : Feature.motors = Feature.methodNames := h
    exact absurd this (by decide)
  | sensor =>
    have : Feature.sensors = Feature.methodNames := h
    exact absurd this (by decide)

namespace Phrase

variable {α β : Type}

/-- What a phrase uses of the hardware: a feature and the fact that is noted for it. Boards differ
in the fact that stands for their display. -/
def use? (display : String) : Phrase α → Option (String × String)
  | showText _ => some (Feature.display, display)
  | playTone _ _ => some (Feature.sound, "tone")
  | p => p.requirement?.map fun r => (r.feature, r.fact)

@[simp] theorem use?_map (f : α → β) (display : String) (p : Phrase α) :
    (p.map f).use? display = p.use? display := by
  cases p <;> rfl

/-- Whether a board has the block type of an extension. -/
def Listed (board : Board) : Phrase α → Prop
  | extension spec _ => spec ∈ board.extensionKinds
  | _ => True

theorem listed_map_iff (f : α → β) (board : Board) (p : Phrase α) :
    (p.map f).Listed board ↔ p.Listed board := by
  cases p <;> exact Iff.rfl

/-- The name of the method that a phrase calls. -/
def called? : Phrase α → Option String
  | methodCall name => some name
  | _ => none

@[simp] theorem called?_map (f : α → β) (p : Phrase α) : (p.map f).called? = p.called? := by
  cases p <;> rfl

theorem requirement?_of_use? {display : String} {p : Phrase α} (none : p.use? display = none) :
    p.requirement? = .none := by
  cases p <;> first | rfl | cases none

/-- What requires a motor or a sensor is noted as such. -/
theorem use?_of_requirement? (display : String) {p : Phrase α} {r : Requirement}
    (required : p.requirement? = some r) : p.use? display = some (r.feature, r.fact) := by
  cases p <;> cases required <;> rfl

/-- What uses the display or the speaker is not accounted for. -/
theorem not_counted_of_use? {display feature fact : String} {p : Phrase α}
    (used : p.use? display = some (feature, fact)) (none : p.requirement? = none) :
    feature ∉ Feature.counted := by
  cases p with
  | showText | playTone =>
    cases used
    decide
  | _ => cases none <;> cases used

/-- A call uses no hardware. -/
theorem called?_of_use? {display : String} {use : String × String} {p : Phrase α}
    (used : p.use? display = some use) : p.called? = none := by
  cases p with
  | methodCall => cases used
  | _ => rfl

theorem listed_of_use? {board : Board} {display : String} {use : String × String} {p : Phrase α}
    (used : p.use? display = some use) : p.Listed board := by
  cases p with
  | extension => cases used
  | _ => trivial

end Phrase

/-- What a run does with a node. -/
inductive Deed where
  /-- The node defines a method. -/
  | define (n : Node)
  | check (n : Node)

namespace Deed

/-- The facts that a deed calls for: the name of the method, and the requirement of the node if
the robot has what is required. -/
def Grants (board : Board) (config : HardwareConfig) (feature fact : String) : Deed → Prop
  | define n => feature = Feature.methodNames ∧ ∃ body, n.phrase = .methodDef fact body
  | check n => ∃ r, n.requirement? = some r ∧ r.Offered board config ∧
      r.feature = feature ∧ r.fact = fact

/-- Whether nothing follows from a deed. -/
def Idle (board : Board) (display : String) : Deed → Prop
  | define n => n.kind ≠ .methodDef
  | check n => n.phrase.use? display = none ∧ n.phrase.Listed board ∧ n.phrase.called? = none

theorem not_grants_of_idle {board : Board} {display feature fact : String}
    {config : HardwareConfig} {deed : Deed} (idle : deed.Idle board display) :
    ¬ deed.Grants board config feature fact := by
  cases deed with
  | define n =>
    intro h
    obtain ⟨-, body, h⟩ := h
    refine idle ?_
    rw [Node.kind, h]
    rfl
  | check n =>
    intro h
    obtain ⟨r, required, -⟩ := h
    rw [Node.requirement?, Phrase.requirement?_of_use? idle.1] at required
    cases required

end Deed

/-! ## Findings -/

namespace DiagnosticStore

/-- There is an error at a node or at one of its operands. -/
def Blames (s : DiagnosticStore) (n : Node) : Prop :=
  ∃ d ∈ s.toList, d.severity = .error ∧ ∃ m ∈ n :: n.phrase.operands, d.location = some m.location

theorem Blames.mono {s t : DiagnosticStore} {n : Node} (h : s.Blames n)
    (more : s.toList ⊆ t.toList) : t.Blames n := by
  obtain ⟨d, hd, rest⟩ := h
  exact ⟨d, more hd, rest⟩

/-- An error that was reported at a node or an operand of it. -/
theorem blames_push {s : DiagnosticStore} {n m : Node} (near : m ∈ n :: n.phrase.operands)
    {d : Diagnostic} (error : d.severity = .error) : (s.push m d).Blames n := by
  refine ⟨{ d with location := some m.location }, ?_, error, m, near, rfl⟩
  rw [toList_push]
  exact List.mem_append_right _ List.mem_cons_self

end DiagnosticStore

/-! ## Collectors -/

/-- By what the steps of a run are measured. -/
structure Frame where
  board : Board
  /-- The fact that stands for the display of the board. -/
  display : String
  /-- Where findings may be. -/
  Place : Node → Prop

/-- Whether a node and its operands may be reported on, as far as they are blocks. -/
structure Frame.Admits (f : Frame) (n : Node) : Prop where
  paired : n.phrase.Paired
  node : n.kind.blockType.isSome → f.Place n
  operand : ∀ o ∈ n.phrase.operands, o.phrase.isEmptyExpr = false → f.Place o

namespace Collector

/-- What a collector says about a node that was checked. -/
structure Answers (f : Frame) (c : Collector) (n : Node) : Prop where
  offered : ∀ r, n.requirement? = some r → r.Offered f.board c.config ∨ c.store.Blames n
  noted : ∀ use, n.phrase.use? f.display = some use →
    use.2 ∈ c.facts.facts use.1 ∨ c.store.Blames n
  listed : n.phrase.Listed f.board ∨ c.store.Blames n
  called : ∀ name, n.phrase.called? = some name →
    name ∈ c.facts.facts Feature.methodNames ∨ c.store.Blames n

/-- What happens to a collector in a step that stands for certain deeds. -/
structure Gains (f : Frame) (deeds : Deed → Prop) (c c' : Collector) : Prop where
  config : c'.config = c.config
  findings : ∃ found, c'.store = c.store.pushAll found ∧ ∀ e ∈ found, f.Place e.1
  facts : ∀ feature, ∀ fact ∈ c.facts.facts feature, fact ∈ c'.facts.facts feature
  granted : ∀ deed, deeds deed → ∀ feature fact, deed.Grants f.board c.config feature fact →
    fact ∈ c'.facts.facts feature
  answered : ∀ n, deeds (.check n) → c'.Answers f n
  only : ∀ feature ∈ Feature.counted, ∀ fact ∈ c'.facts.facts feature,
    fact ∈ c.facts.facts feature ∨ ∃ deed, deeds deed ∧ deed.Grants f.board c.config feature fact

variable {f : Frame} {deeds deeds' : Deed → Prop} {c c' c'' : Collector} {n : Node}

/-- Nothing happens, and nothing has to. -/
theorem Gains.idle (idle : ∀ deed, deeds deed → deed.Idle f.board f.display) :
    c.Gains f deeds c where
  config := rfl
  findings := ⟨[], rfl, by simp⟩
  facts _ _ h := h
  granted deed h _ _ grants := absurd grants (Deed.not_grants_of_idle (idle deed h))
  answered n h := by
    obtain ⟨unused, listed, quiet⟩ := idle _ h
    refine ⟨fun r required => ?_, fun use used => ?_, .inl listed, fun name called => ?_⟩
    · rw [Node.requirement?, Phrase.requirement?_of_use? unused] at required
      cases required
    · rw [unused] at used
      cases used
    · rw [quiet] at called
      cases called
  only _ _ _ h := .inl h

theorem Gains.refl : c.Gains f (fun _ => False) c := .idle fun _ => False.elim

theorem Gains.findings_subset (h : c.Gains f deeds c') : c.store.toList ⊆ c'.store.toList := by
  obtain ⟨found, store, -⟩ := h.findings
  rw [store]
  exact DiagnosticStore.subset_pushAll _ _

/-- Answers are not taken back. -/
theorem Gains.answers (h : c.Gains f deeds c') (answered : c.Answers f n) : c'.Answers f n where
  offered r required := by
    rw [h.config]
    exact (answered.offered r required).imp_right fun blames => blames.mono h.findings_subset
  noted use used := (answered.noted use used).imp (h.facts _ _) fun blames =>
    blames.mono h.findings_subset
  listed := answered.listed.imp_right fun blames => blames.mono h.findings_subset
  called name call := (answered.called name call).imp (h.facts _ _) fun blames =>
    blames.mono h.findings_subset

theorem Gains.trans (h : c.Gains f deeds c') (h' : c'.Gains f deeds' c'') :
    c.Gains f (fun deed => deeds deed ∨ deeds' deed) c'' where
  config := h'.config.trans h.config
  findings := by
    obtain ⟨found, store, places⟩ := h.findings
    obtain ⟨found', store', places'⟩ := h'.findings
    refine ⟨found ++ found', ?_, List.forall_mem_append.2 ⟨places, places'⟩⟩
    rw [store', store, DiagnosticStore.pushAll_append]
  facts feature fact mem := h'.facts feature fact (h.facts feature fact mem)
  granted deed := by
    rintro (made | made) feature fact grants
    · exact h'.facts feature fact (h.granted deed made feature fact grants)
    · rw [← h.config] at grants
      exact h'.granted deed made feature fact grants
  answered n := by
    rintro (made | made)
    · exact h'.answers (h.answered n made)
    · exact h'.answered n made
  only feature counted fact mem := by
    rcases h'.only feature counted fact mem with mem | ⟨deed, made, grants⟩
    · rcases h.only feature counted fact mem with mem | ⟨deed, made, grants⟩
      · exact .inl mem
      · exact .inr ⟨deed, .inl made, grants⟩
    · rw [h.config] at grants
      exact .inr ⟨deed, .inr made, grants⟩

theorem Gains.congr (h : c.Gains f deeds c') (same : ∀ deed, deeds deed ↔ deeds' deed) :
    c.Gains f deeds' c' := by
  rwa [← funext fun deed => propext (same deed)]

/-- A finding changes nothing but the list of findings. -/
theorem Gains.push (place : f.Place n) (d : Diagnostic) :
    c.Gains f (fun _ => False) { c with store := c.store.push n d } where
  config := rfl
  findings := ⟨[(n, d)], rfl, by simpa using place⟩
  facts _ _ h := h
  granted _ := False.elim
  answered _ := False.elim
  only _ _ _ h := .inl h

/-- An error answers for a node that does not get what it requires. -/
theorem Gains.blame {m : Node} (near : m ∈ n :: n.phrase.operands) (place : f.Place m)
    (refused : ∀ r, n.requirement? = some r → ¬ r.Offered f.board c.config)
    {d : Diagnostic} (error : d.severity = .error) :
    c.Gains f (· = .check n) { c with store := c.store.push m d } where
  config := rfl
  findings := ⟨[(m, d)], rfl, by simpa using place⟩
  facts _ _ h := h
  granted deed h _ _ grants := by
    subst h
    obtain ⟨r, required, offered, -⟩ := grants
    exact absurd offered (refused r required)
  answered m h := by
    cases h
    have blames := DiagnosticStore.blames_push (s := c.store) near error
    exact ⟨fun _ _ => .inr blames, fun _ _ => .inr blames, .inr blames, fun _ _ => .inr blames⟩
  only _ _ _ h := .inl h

/-- A fact that is not accounted for. -/
theorem Gains.record {feature fact : String} (other : feature ∉ Feature.counted) :
    c.Gains f (fun _ => False) { c with facts := c.facts.record feature fact } where
  config := rfl
  findings := ⟨[], rfl, by simp⟩
  facts _ _ h := Facts.mem_facts_record.2 (.inl h)
  granted _ := False.elim
  answered _ := False.elim
  only feature' counted fact' h := by
    rcases Facts.mem_facts_record.1 h with h | ⟨rfl, -⟩
    · exact .inl h
    · exact absurd counted other

/-- The fact for a node that gets what it uses. -/
theorem Gains.grant {feature fact : String}
    (used : n.phrase.use? f.display = some (feature, fact))
    (offered : ∀ r, n.requirement? = some r → r.Offered f.board c.config) :
    c.Gains f (· = .check n) { c with facts := c.facts.record feature fact } where
  config := rfl
  findings := ⟨[], rfl, by simp⟩
  facts _ _ h := Facts.mem_facts_record.2 (.inl h)
  granted deed h feature' fact' grants := by
    subst h
    obtain ⟨r, required, -, rfl, rfl⟩ := grants
    rw [Phrase.use?_of_requirement? _ required] at used
    cases used
    exact Facts.mem_facts_record.2 (.inr ⟨rfl, rfl⟩)
  answered m h := by
    cases h
    refine ⟨fun r required => .inl (offered r required), fun use used' => ?_,
      .inl (Phrase.listed_of_use? used), fun name called => ?_⟩
    · cases used.symm.trans used'
      exact .inl (Facts.mem_facts_record.2 (.inr ⟨rfl, rfl⟩))
    · rw [Phrase.called?_of_use? used] at called
      cases called
  only feature' counted fact' h := by
    rcases Facts.mem_facts_record.1 h with h | ⟨rfl, rfl⟩
    · exact .inl h
    · cases required : n.requirement? with
      | none => exact absurd counted (Phrase.not_counted_of_use? used required)
      | some r =>
        rw [Phrase.use?_of_requirement? _ required] at used
        cases used
        exact .inr ⟨_, rfl, r, required, offered r required, rfl, rfl⟩

/-- A call of a method that is noted already. -/
theorem Gains.call {name : String} (call : n.phrase = .methodCall name)
    (known : name ∈ c.facts.facts Feature.methodNames) : c.Gains f (· = .check n) c where
  config := rfl
  findings := ⟨[], rfl, by simp⟩
  facts _ _ h := h
  granted deed h _ _ grants := by
    subst h
    obtain ⟨r, required, -⟩ := grants
    rw [Node.requirement?, call] at required
    cases required
  answered m h := by
    cases h
    refine ⟨fun r required => ?_, fun use used => ?_, .inl ?_, fun name' called => .inl ?_⟩
    · rw [Node.requirement?, call] at required
      cases required
    · rw [call] at used
      cases used
    · rw [call]
      trivial
    · rw [call] at called
      cases called
      exact known
  only _ _ _ h := .inl h

/-- A method under a name that is noted already. -/
theorem Gains.defined {name : String} {body : Node} (h : c.Gains f (fun _ => False) c')
    (method : n.phrase = .methodDef name body)
    (known : name ∈ c.facts.facts Feature.methodNames) : c.Gains f (· = .define n) c' :=
  { h with
    granted := fun deed made feature fact grants => by
      subst made
      obtain ⟨rfl, body', same⟩ := grants
      cases method.symm.trans same
      exact h.facts _ _ known
    answered := fun _ made => by cases made
    only := fun feature counted fact mem =>
      .inl ((h.only feature counted fact mem).resolve_right fun made => made.choose_spec.1) }

/-- A method under a new name. -/
theorem Gains.define {name : String} {body : Node} (method : n.phrase = .methodDef name body) :
    c.Gains f (· = .define n) { c with facts := c.facts.record Feature.methodNames name } where
  config := rfl
  findings := ⟨[], rfl, by simp⟩
  facts _ _ h := Facts.mem_facts_record.2 (.inl h)
  granted deed made feature fact grants := by
    subst made
    obtain ⟨rfl, body', same⟩ := grants
    cases method.symm.trans same
    exact Facts.mem_facts_record.2 (.inr ⟨rfl, rfl⟩)
  answered _ made := by cases made
  only feature counted fact mem := by
    rcases Facts.mem_facts_record.1 mem with mem | ⟨rfl, rfl⟩
    · exact .inl mem
    · exact .inr ⟨_, rfl, rfl, body, method⟩

/-! ## Steps of collectors -/

/-- The step `x` stands for certain deeds. -/
def Gathers {α : Type} (f : Frame) (x : Collect α) (deeds : Deed → Prop) : Prop :=
  ∀ c : Collector, c.Gains f deeds (x.run c).2

namespace Gathers

variable {α β : Type} {x : Collect α} {g : α → Collect β}

protected theorem pure (a : α) : Gathers f (pure a) fun _ => False := fun _ => .refl

/-- A step after one that stands for nothing. -/
protected theorem after (hx : Gathers f x fun _ => False) (hg : ∀ a, Gathers f (g a) deeds) :
    Gathers f (x >>= g) deeds :=
  fun c => ((hx c).trans (hg (x.run c).1 (x.run c).2)).congr fun _ => or_iff_right not_false

/-- A step that depends on the collector. -/
protected theorem get_bind {g : Collector → Collect β}
    (h : ∀ c : Collector, c.Gains f deeds ((g c).run c).2) : Gathers f (get >>= g) deeds := h

protected theorem report (place : f.Place n) (d : Diagnostic) :
    Gathers f (report n d) fun _ => False := fun _ => .push place d

protected theorem error (place : f.Place n) (code : DiagnosticCode) (message : String) :
    Gathers f (error n code message) fun _ => False := .report place _

protected theorem record {feature fact : String} (other : feature ∉ Feature.counted) :
    Gathers f (record feature fact) fun _ => False := fun _ => .record other

/-- A check of a node that uses nothing. -/
protected theorem check (hx : Gathers f x fun _ => False) (unused : n.phrase.use? f.display = none)
    (listed : n.phrase.Listed f.board) (quiet : n.phrase.called? = none) :
    Gathers f x (· = .check n) := by
  have idle (c : Collector) : c.Gains f (· = .check n) c :=
    .idle fun deed h => h ▸ ⟨unused, listed, quiet⟩
  exact fun c => ((idle c).trans (hx c)).congr fun _ => or_iff_left not_false

end Gathers

/-- A motor at a port of the board. -/
theorem gathers_requireMotor {port : String} (known : port ∈ f.board.motorPorts)
    (required : n.requirement? = some (.motor port)) (place : f.Place n) :
    Gathers f (requireMotor n port) (· = .check n) := by
  have refused {c : Collector} (no : ∀ k, c.config.component? port = some k → k.category ≠ .motor)
      (r : Requirement) (h : n.requirement? = some r) : ¬ r.Offered f.board c.config := by
    cases required.symm.trans h
    rintro ⟨-, -, k, found, motor⟩
    exact no k found motor
  refine .get_bind fun c => ?_
  split
  · next none =>
    refine .blame List.mem_cons_self place (refused ?_) rfl
    simp [none]
  · next kind found =>
    refine .grant (Phrase.use?_of_requirement? _ required) fun r h => ?_
    cases required.symm.trans h
    exact ⟨known, trivial, _, found, rfl⟩
  · next kind found =>
    refine .blame List.mem_cons_self place (refused ?_) rfl
    simp [found]

/-- A sensor at a port of the board, which can read it. -/
theorem gathers_requireSensor {type port : String} (known : port ∈ f.board.sensorPorts)
    (readable : type ∈ f.board.sensorKinds) (required : n.requirement? = some (.sensor type port))
    (place : f.Place n) : Gathers f (requireSensor n type port) (· = .check n) := by
  have refused {c : Collector} (no : c.config.component? port ≠ some ⟨.sensor, type⟩)
      (r : Requirement) (h : n.requirement? = some r) : ¬ r.Offered f.board c.config := by
    cases required.symm.trans h
    rintro ⟨-, -, k, found, rfl⟩
    exact no found
  refine .get_bind fun c => ?_
  split
  · next none =>
    refine .blame List.mem_cons_self place (refused ?_) rfl
    simp [none]
  · next kind found =>
    refine .blame List.mem_cons_self place (refused ?_) rfl
    simp [found]
  · next kind found =>
    split
    · next same =>
      subst same
      refine .grant (Phrase.use?_of_requirement? _ required) fun r h => ?_
      cases required.symm.trans h
      exact ⟨known, readable, _, found, rfl⟩
    · next other =>
      refine .blame List.mem_cons_self place (refused ?_) rfl
      simpa [found] using other

/-- A capability of the board that stands for what a node uses. -/
theorem gathers_requireCapability {capability fact : String}
    (used : n.phrase.use? f.display = some (capability, fact)) (free : n.requirement? = none)
    (place : f.Place n) : Gathers f (requireCapability n capability fact) (· = .check n) := by
  refine .get_bind fun c => ?_
  dsimp only
  split
  · refine .grant used fun r h => ?_
    rw [free] at h
    cases h
  · refine .blame List.mem_cons_self place (fun r h => ?_) rfl
    rw [free] at h
    cases h

/-- A capability of the board that is not accounted for. -/
theorem gathers_requireCapability_other {capability fact : String}
    (other : capability ∉ Feature.counted) (place : f.Place n) :
    Gathers f (requireCapability n capability fact) fun _ => False := by
  refine .get_bind fun c => ?_
  dsimp only
  split
  · exact .record other
  · exact .push place _

end Collector

/-! ## Platforms -/

open Collector

variable {f : Frame} {n : Node}

theorem Board.gathers_checkMotor {port : String} (required : n.requirement? = some (.motor port))
    (place : f.Place n) : Gathers f (f.board.checkMotor n port) (· = .check n) := by
  intro c
  unfold checkMotor checkMotorPort
  split
  · next known =>
    exact gathers_requireMotor (List.contains_iff_mem.1 known) required place c
  · next unknown =>
    refine .blame List.mem_cons_self place (fun r h offered => ?_) rfl
    cases required.symm.trans h
    exact unknown (List.contains_iff_mem.2 offered.port)

theorem Board.gathers_checkSensor {type port : String}
    (required : n.requirement? = some (.sensor type port)) (place : f.Place n) :
    Gathers f (f.board.checkSensor n type port) (· = .check n) := by
  intro c
  unfold checkSensor
  split
  · next unknown =>
    refine .blame List.mem_cons_self place (fun r h offered => ?_) rfl
    cases required.symm.trans h
    simp [show port ∈ f.board.sensorPorts from offered.port] at unknown
  · next known =>
    split
    · next unreadable =>
      refine .blame List.mem_cons_self place (fun r h offered => ?_) rfl
      cases required.symm.trans h
      simp [show type ∈ f.board.sensorKinds from offered.readable] at unreadable
    · next readable =>
      exact gathers_requireSensor (by simpa using known) (by simpa using readable) required place c

/-- The checks of a platform answer for the nodes that they are about. -/
structure Platform.Orderly (p : Platform) (f : Frame) : Prop where
  board : f.board = p.board
  motor : ∀ n port power, n.phrase = .motorSetPower port power → f.Admits n →
    Gathers f (p.checkMotor n port power) (· = .check n)
  motorStop : ∀ n port, n.phrase = .motorStop port → f.Admits n →
    Gathers f (p.checkMotorStop n port) (· = .check n)
  sensor : ∀ n type port, n.phrase = .sensorSample type port → f.Admits n →
    Gathers f (p.checkSensor n type port) (· = .check n)
  showText : ∀ n text, n.phrase = .showText text → f.Admits n →
    Gathers f (p.checkShowText n text) (· = .check n)
  tone : ∀ n frequency duration, n.phrase = .playTone frequency duration → f.Admits n →
    Gathers f (p.checkTone n frequency duration) (· = .check n)
  extension : ∀ n spec slots, n.phrase = .extension spec slots → n.phrase.Listed p.board →
    f.Admits n → Gathers f (p.checkExtension n spec slots) (· = .check n)

namespace Frame.Admits

variable {p : Phrase Node}

/-- A node of a block type may be reported on. -/
theorem place (h : f.Admits n) (phrase : n.phrase = p) (block : p.kind.blockType.isSome) :
    f.Place n := by
  refine h.node ?_
  rw [Node.kind, phrase]
  exact block

end Frame.Admits

theorem Node.requirement?_of_phrase {p : Phrase Node} (phrase : n.phrase = p) :
    n.requirement? = p.requirement? := congrArg Phrase.requirement? phrase

/-- A platform without checks of its own is orderly. -/
theorem Platform.orderly_default (board : Board) (Place : Node → Prop) :
    ({ board } : Platform).Orderly ⟨board, "text", Place⟩ where
  board := rfl
  motor n _ _ phrase admits :=
    Board.gathers_checkMotor (n.requirement?_of_phrase phrase) (admits.place phrase rfl)
  motorStop n _ phrase admits :=
    Board.gathers_checkMotor (n.requirement?_of_phrase phrase) (admits.place phrase rfl)
  sensor n _ _ phrase admits :=
    Board.gathers_checkSensor (n.requirement?_of_phrase phrase) (admits.place phrase rfl)
  showText n _ phrase admits := gathers_requireCapability (congrArg _ phrase)
    (n.requirement?_of_phrase phrase) (admits.place phrase rfl)
  tone n _ _ phrase admits := gathers_requireCapability (congrArg _ phrase)
    (n.requirement?_of_phrase phrase) (admits.place phrase rfl)
  extension _ _ _ phrase listed admits :=
    (Gathers.report (admits.place phrase rfl) _).check (congrArg _ phrase) listed
      (congrArg _ phrase)

namespace Boards

/-- The power of a motor is reported at the power, and the motor is checked all the same. -/
theorem gathers_checkPower {power : Node}
    (place : power.phrase.isEmptyExpr = false → f.Place power) :
    Gathers f (checkPower power) fun _ => False := by
  unfold checkPower
  split
  · next x number =>
    split
    · exact .pure _
    · exact .error (place (Node.isEmptyExpr_of_number? number)) _ _
  · exact .pure _

theorem gathers_checkMatrixText {text : Node} (place : f.Place n) :
    Gathers f (checkMatrixText n text) fun _ => False := by
  unfold checkMatrixText
  split
  · split
    · exact .report place _
    · exact .pure _
  · exact .pure _

theorem gathers_checkLight {spec : ExtensionSpec} {slots : List (SlotValue Node)}
    (place : f.Place n) : Gathers f (checkLight n spec slots) fun _ => False := by
  unfold checkLight
  split
  · dsimp only
    split
    · exact gathers_requireCapability_other (by decide) place
    · exact .error place _ _
  · exact .pure _

theorem orderly_calliope (Place : Node → Prop) :
    calliope.Orderly ⟨calliopeBoard, "matrix", Place⟩ where
  board := rfl
  motor n port power phrase admits := by
    refine .after (gathers_checkPower (admits.operand power ?_)) fun _ =>
      Board.gathers_checkMotor (f := ⟨calliopeBoard, "matrix", Place⟩)
        (n.requirement?_of_phrase phrase) (admits.place phrase rfl)
    rw [phrase]
    exact List.mem_singleton_self _
  motorStop n _ phrase admits :=
    Board.gathers_checkMotor (n.requirement?_of_phrase phrase) (admits.place phrase rfl)
  sensor n _ _ phrase admits :=
    Board.gathers_checkSensor (n.requirement?_of_phrase phrase) (admits.place phrase rfl)
  showText n _ phrase admits := .after (gathers_checkMatrixText (admits.place phrase rfl))
    fun _ => gathers_requireCapability (congrArg _ phrase) (n.requirement?_of_phrase phrase)
      (admits.place phrase rfl)
  tone n _ _ phrase admits := gathers_requireCapability (congrArg _ phrase)
    (n.requirement?_of_phrase phrase) (admits.place phrase rfl)
  extension _ _ _ phrase listed admits :=
    (gathers_checkLight (admits.place phrase rfl)).check (congrArg _ phrase) listed
      (congrArg _ phrase)

/-- A frequency that the speaker cannot play is reported at the frequency. -/
theorem gathers_checkFrequency {frequency duration : Node}
    (phrase : n.phrase = .playTone frequency duration) (admits : f.Admits n) :
    Gathers f (checkFrequency n frequency) (· = .check n) := by
  have play : Gathers f (discard (requireCapability n Feature.sound "tone")) (· = .check n) :=
    gathers_requireCapability (congrArg _ phrase) (n.requirement?_of_phrase phrase)
      (admits.place phrase rfl)
  have operand : frequency ∈ n.phrase.operands := by
    rw [phrase]
    exact List.mem_cons_self
  unfold checkFrequency
  dsimp only
  split
  · next x number =>
    split
    · exact play
    · intro c
      refine .blame (List.mem_cons_of_mem _ operand)
        (admits.operand _ operand (Node.isEmptyExpr_of_number? number)) (fun r required => ?_) rfl
      rw [n.requirement?_of_phrase phrase] at required
      cases required
  · exact play

theorem orderly_nxt (Place : Node → Prop) : nxt.Orderly ⟨nxt.board, "text", Place⟩ :=
  { Platform.orderly_default nxt.board Place with
    tone := fun _ _ _ phrase admits => gathers_checkFrequency phrase admits }

/-- What a built-in platform records for its display. -/
def displayFact (p : Platform) : String := if p.name = calliope.name then "matrix" else "text"

/-- The built-in platforms are orderly. -/
theorem orderly_of_builtin {name : String} {p : Platform}
    (known : PlatformRegistry.builtin.get name = .ok p) (Place : Node → Prop) :
    p.Orderly ⟨p.board, displayFact p, Place⟩ := by
  obtain ⟨-, rfl | rfl | rfl⟩ := PlatformRegistry.get_builtin_cases known
  · exact Platform.orderly_default ev3.board Place
  · exact orderly_calliope Place
  · exact orderly_nxt Place

end Boards

end BlockGraph

import BlockGraph.Phrase
import BlockGraph.Proofs.Except

/-!
# Phrases and their slots

What a slot reader accepts is described by the contents that it takes and what it makes of them
(`SlotReader.Accepts`). From this follows that building a phrase inverts taking it apart:

* `Phrase.build_eq_ok_iff`: which contents make which phrase.
* `Phrase.mapChildren_eq_ok`: the children of a phrase that can be built are exchanged.
* `Phrase.operands`: the expressions that a phrase works on.
-/

namespace BlockGraph

variable {α β γ : Type}

namespace SlotReader

/-! ## What a reader accepts -/

/-- Between `r` and `r'` exactly the contents `vs` were taken. -/
structure Took (r : SlotReader α) (vs : List (SlotValue α)) (r' : SlotReader α) : Prop where
  blockId : r'.blockId = r.blockId
  fields : r'.fields = r.fields
  values : r.values = vs ++ r'.values
  cursor : r'.cursor = r.cursor + vs.length
  inTable : r'.cursor ≤ r'.fields.length

/-- `x` succeeds exactly on contents `vs` and with results `b` that are related by `R`. -/
def Accepts (x : SlotRead α β) (R : List (SlotValue α) → β → Prop) : Prop :=
  ∀ r : SlotReader α, r.cursor ≤ r.fields.length → ∀ b r',
    x.run r = (.ok b, r') ↔ ∃ vs, R vs b ∧ r.Took vs r'

theorem Took.nil_iff {r r' : SlotReader α} (inTable : r.cursor ≤ r.fields.length) :
    r.Took [] r' ↔ r' = r := by
  refine ⟨fun h => ?_, fun h => ?_⟩
  · obtain ⟨blockId, fields, values, cursor, -⟩ := h
    cases r
    cases r'
    simp_all
  · obtain rfl := h
    exact ⟨rfl, rfl, rfl, rfl, inTable⟩

theorem Took.trans {r r' r'' : SlotReader α} {vs ws : List (SlotValue α)} (h : r.Took vs r')
    (h' : r'.Took ws r'') : r.Took (vs ++ ws) r'' where
  blockId := h'.blockId.trans h.blockId
  fields := h'.fields.trans h.fields
  values := by rw [h.values, h'.values, List.append_assoc]
  cursor := by rw [h'.cursor, h.cursor, List.length_append, Nat.add_assoc]
  inTable := h'.inTable

/-- Contents are taken one part after the other. -/
theorem Took.append_iff {r r'' : SlotReader α} {vs ws : List (SlotValue α)} :
    r.Took (vs ++ ws) r'' ↔ ∃ r', r.Took vs r' ∧ r'.Took ws r'' := by
  refine ⟨fun h => ?_, fun h => ?_⟩
  · obtain ⟨blockId, fields, values, cursor, inTable⟩ := h
    rw [List.length_append] at cursor
    refine ⟨{ r with values := ws ++ r''.values, cursor := r.cursor + vs.length },
      ⟨rfl, rfl, by rw [values, List.append_assoc], rfl, ?_⟩,
      ⟨blockId, fields, rfl, by rw [cursor, Nat.add_assoc], inTable⟩⟩
    change r.cursor + vs.length ≤ r.fields.length
    rw [← fields]
    omega
  · obtain ⟨r', h, h'⟩ := h
    exact h.trans h'

namespace Accepts

variable {x : SlotRead α β} {f : β → SlotRead α γ} {R : List (SlotValue α) → β → Prop}

theorem congr {S : List (SlotValue α) → β → Prop} (h : Accepts x R)
    (same : ∀ vs b, R vs b ↔ S vs b) : Accepts x S := fun r hr b r' => by
  simp only [h r hr b r', same]

protected theorem pure (b : β) : Accepts (pure b : SlotRead α β) fun vs c => vs = [] ∧ c = b := by
  intro r hr c r'
  refine ⟨fun h => ?_, fun h => ?_⟩
  · cases h
    exact ⟨[], ⟨rfl, rfl⟩, (Took.nil_iff hr).2 rfl⟩
  · obtain ⟨vs, ⟨rfl, rfl⟩, took⟩ := h
    rw [(Took.nil_iff hr).1 took]
    rfl

protected theorem bind {S : β → List (SlotValue α) → γ → Prop} (hx : Accepts x R)
    (hf : ∀ b, Accepts (f b) (S b)) :
    Accepts (x >>= f) fun vs c => ∃ v w b, vs = v ++ w ∧ R v b ∧ S b w c := by
  intro r hr c r''
  rw [ExceptT.run_bind_stateM]
  refine ⟨fun h => ?_, fun h => ?_⟩
  · rcases hrun : x.run r with ⟨_ | b, r'⟩ <;> rw [hrun] at h
    · cases h
    · obtain ⟨v, hv, took⟩ := (hx r hr b r').1 hrun
      obtain ⟨w, hw, took'⟩ := (hf b r' took.inTable c r'').1 h
      exact ⟨v ++ w, ⟨v, w, b, rfl, hv, hw⟩, took.trans took'⟩
  · obtain ⟨_, ⟨v, w, b, rfl, hv, hw⟩, took⟩ := h
    obtain ⟨r', first, second⟩ := Took.append_iff.1 took
    rw [(hx r hr b r').2 ⟨v, hv, first⟩]
    exact (hf b r' first.inTable c r'').2 ⟨w, hw, second⟩

/-- A reader that only fails. -/
theorem fail (fault : BlockFault) :
    Accepts (SlotReader.fail fault : SlotRead α β) fun _ _ => False := by
  intro r _ b r'
  simp only [false_and, exists_false, iff_false]
  intro h
  cases h

end Accepts

/-! ## Single slots -/

/-- The next slot with its row. -/
theorem next_run (r : SlotReader α) : next.run r =
    match r.row?, r.values.head? with
    | some spec, some v =>
      (.ok (spec, v), { r with values := r.values.tail, cursor := r.cursor + 1 })
    | _, _ => (.error (.malformed r.blockId (.tableExhausted r.cursor)),
      { r with values := r.values.tail, cursor := r.cursor + 1 }) := by
  change (match r.row?, r.values.head? with
    | some spec, some value => (pure (spec, value) : SlotRead α _)
    | _, _ => SlotReader.fail (.tableExhausted r.cursor)).run
      { r with values := r.values.tail, cursor := r.cursor + 1 } = _
  cases r.row? <;> cases r.values.head? <;> rfl

theorem Took.singleton_iff {r r' : SlotReader α} {v : SlotValue α} :
    r.Took [v] r' ↔ r.cursor < r.fields.length ∧ r.values.head? = some v ∧
      r' = { r with values := r.values.tail, cursor := r.cursor + 1 } := by
  refine ⟨fun h => ?_, fun h => ?_⟩
  · obtain ⟨blockId, fields, values, cursor, inTable⟩ := h
    rw [cursor, fields, List.length_singleton] at inTable
    refine ⟨inTable, by simp [values], ?_⟩
    cases r'
    simp_all
  · obtain ⟨inTable, head, rfl⟩ := h
    exact ⟨rfl, rfl, (List.cons_head?_tail head).symm, rfl, inTable⟩

theorem Took.cons_iff {r r' : SlotReader α} {v : SlotValue α} {ws : List (SlotValue α)} :
    r.Took (v :: ws) r' ↔ r.cursor < r.fields.length ∧ r.values.head? = some v ∧
      { r with values := r.values.tail, cursor := r.cursor + 1 }.Took ws r' := by
  rw [← List.singleton_append, Took.append_iff]
  simp only [Took.singleton_iff]
  refine ⟨fun h => ?_, fun h => ?_⟩
  · obtain ⟨_, ⟨inTable, head, rfl⟩, took⟩ := h
    exact ⟨inTable, head, took⟩
  · obtain ⟨inTable, head, took⟩ := h
    exact ⟨_, ⟨inTable, head, rfl⟩, took⟩

protected theorem Accepts.expect (pick : SlotValue α → Option β) :
    Accepts (expect pick) fun vs b => ∃ v, vs = [v] ∧ pick v = some b := by
  intro r hr b r'
  rw [SlotReader.expect, ExceptT.run_bind_stateM, next_run]
  by_cases inTable : r.cursor < r.fields.length
  · rw [row?, List.getElem?_eq_getElem inTable]
    cases head : r.values.head? with
    | none =>
      refine iff_of_false (fun h => by cases h) ?_
      rintro ⟨_, ⟨v, rfl, -⟩, took⟩
      rw [Took.singleton_iff, head] at took
      cases took.2.1
    | some v =>
      cases picked : pick v with
      | none =>
        refine iff_of_false (fun h => ?_) ?_
        · simp only [picked] at h
          cases h
        · rintro ⟨_, ⟨w, rfl, hw⟩, took⟩
          rw [Took.singleton_iff, head] at took
          obtain rfl := Option.some.inj took.2.1
          rw [picked] at hw
          cases hw
      | some c =>
        simp only [picked]
        refine ⟨fun h => ?_, fun h => ?_⟩
        · cases h
          exact ⟨[v], ⟨v, rfl, picked⟩, Took.singleton_iff.2 ⟨inTable, head, rfl⟩⟩
        · obtain ⟨_, ⟨w, rfl, hw⟩, took⟩ := h
          obtain ⟨-, headed, rfl⟩ := Took.singleton_iff.1 took
          rw [head] at headed
          obtain rfl := Option.some.inj headed
          rw [picked] at hw
          obtain rfl := Option.some.inj hw
          rfl
  · refine iff_of_false (fun h => ?_) ?_
    · rw [row?, List.getElem?_eq_none (by omega)] at h
      cases h
    · rintro ⟨_, ⟨v, rfl, -⟩, took⟩
      exact inTable (Took.singleton_iff.1 took).1

namespace Accepts

/-- A reader that takes one slot of one shape. -/
protected theorem expect_eq {pick : SlotValue α → Option β} {make : β → SlotValue α}
    (inverse : ∀ v b, pick v = some b ↔ v = make b) :
    Accepts (expect pick) fun vs b => vs = [make b] :=
  (Accepts.expect pick).congr fun vs b => by
    simp only [inverse]
    exact ⟨fun ⟨v, e, h⟩ => h ▸ e, fun e => ⟨make b, e, rfl⟩⟩

protected theorem literal :
    Accepts (SlotReader.literal : SlotRead α String) fun vs t => vs = [.literal t] :=
  .expect_eq fun v b => by cases v <;> simp

protected theorem value : Accepts (SlotReader.value : SlotRead α α) fun vs n => vs = [.value n] :=
  .expect_eq fun v b => by cases v <;> simp

protected theorem statement :
    Accepts (SlotReader.statement : SlotRead α α) fun vs n => vs = [.statement n] :=
  .expect_eq fun v b => by cases v <;> simp

protected theorem optionalStatement :
    Accepts (SlotReader.optionalStatement : SlotRead α (Option α))
      fun vs n => vs = [.optionalStatement n] :=
  .expect_eq fun v b => by cases v <;> simp

protected theorem repeated :
    Accepts (SlotReader.repeated : SlotRead α (List α)) fun vs ns => vs = [.repeated ns] :=
  .expect_eq fun v b => by cases v <;> simp

/-- A reader may look at what is left. -/
theorem get_bind {f : SlotReader α → SlotRead α β} {R : List (SlotValue α) → β → Prop}
    (h : ∀ r, Accepts (f r) R) : Accepts (get >>= f) R := fun r hr b r' => by
  rw [show (get >>= f).run r = (f r).run r from rfl]
  exact h r r hr b r'

/-- First one slot, then the rest. -/
theorem step {x : SlotRead α β} {f : β → SlotRead α γ} {make : β → SlotValue α}
    {S : β → List (SlotValue α) → γ → Prop} (hx : Accepts x fun vs b => vs = [make b])
    (hf : ∀ b, Accepts (f b) (S b)) :
    Accepts (x >>= f) fun vs c => ∃ b w, vs = make b :: w ∧ S b w c :=
  (hx.bind hf).congr fun vs c => by
    refine ⟨fun h => ?_, fun h => ?_⟩
    · obtain ⟨_, w, b, rfl, rfl, h⟩ := h
      exact ⟨b, w, rfl, h⟩
    · obtain ⟨b, w, rfl, h⟩ := h
      exact ⟨_, w, b, rfl, rfl, h⟩

/-- A text of which one spelling is taken. -/
theorem spelled {f : String → SlotRead α β} {spell : β → String}
    (hf : ∀ text, Accepts (f text) fun w b => w = [] ∧ text = spell b) :
    Accepts (SlotReader.literal >>= f) fun vs b => vs = [.literal (spell b)] :=
  (Accepts.literal.step hf).congr fun vs b =>
    ⟨fun ⟨t, w, e, h, h'⟩ => by rw [e, h, h'], fun e => ⟨_, _, e, rfl, rfl⟩⟩

protected theorem choice (τ : Type) [Spelled τ] :
    Accepts (SlotReader.choice τ : SlotRead α τ) fun vs t => vs = [.literal (Spelled.spell t)] := by
  refine .get_bind fun r => .spelled fun text => ?_
  cases h : (Spelled.read? text : Option τ) with
  | none =>
    refine (Accepts.fail _).congr fun w t => ⟨False.elim, fun ⟨_, e⟩ => ?_⟩
    rw [e, Spelled.read?_spell] at h
    cases h
  | some u =>
    refine (Accepts.pure u).congr fun w t => and_congr_right fun _ => ?_
    refine ⟨fun h => ?_, fun h => ?_⟩
    · obtain rfl := h
      exact (Spelled.spell_of_read? h).symm
    · obtain rfl := h
      rw [Spelled.read?_spell] at h
      exact Option.some.inj h

protected theorem flag :
    Accepts (SlotReader.flag : SlotRead α Bool) fun vs b => vs = [.literal (flagText b)] := by
  refine .get_bind fun r => .spelled fun text => ?_
  cases h : readFlag? text with
  | none =>
    refine (Accepts.fail _).congr fun w t => ⟨False.elim, fun ⟨_, e⟩ => ?_⟩
    rw [e, readFlag?_flagText] at h
    cases h
  | some u =>
    refine (Accepts.pure u).congr fun w t => and_congr_right fun _ => ?_
    refine ⟨fun h => ?_, fun h => ?_⟩
    · obtain rfl := h
      exact (flagText_of_readFlag? h).symm
    · obtain rfl := h
      rw [readFlag?_flagText] at h
      exact Option.some.inj h

/-- A reader that goes on unless `c` holds. -/
theorem failing {c : Bool} {fault : BlockFault} {x : SlotRead α β}
    {R : List (SlotValue α) → β → Prop} (hx : Accepts x R) :
    Accepts (do
      if c then SlotReader.fail fault
      x) fun vs b => c = false ∧ R vs b := by
  cases c with
  | true => exact ((Accepts.fail fault).bind fun _ => hx).congr fun vs b => by simp
  | false => exact hx.congr fun vs b => by simp

end Accepts

end SlotReader

/-- The expression in a value slot. -/
def SlotValue.operand : SlotValue α → List α
  | value node => [node]
  | _ => []

@[simp] theorem SlotValue.operand_map (f : α → β) (v : SlotValue α) :
    (v.map f).operand = v.operand.map f := by
  cases v <;> rfl

/-! ## Building -/

namespace Phrase

open SlotReader

/-- What is checked of a phrase beside its slots: every branch has a condition, and the slots of
an extension have the shapes of its table. Chains and empty expressions are not built. -/
def Buildable : Phrase α → Prop
  | stmtList _ | emptyExpr => False
  | ifElse conditions branches _ => conditions ≠ [] ∧ conditions.length = branches.length
  | extension spec slots => List.Forall₂ (fun row v => v.fits row.mode = true) spec.fields slots
  | _ => True

/-- What a reader of slots makes is a phrase with exactly these slots. -/
theorem accepts_fromSlots {kind : Kind} (core : ∀ spec, kind ≠ .extension spec) :
    Accepts (fromSlots kind : SlotRead α (Phrase α))
      fun vs p => p.kind = kind ∧ vs = p.slots ∧ p.Buildable := by
  cases kind with
  | stmtList | emptyExpr =>
    refine (Accepts.fail _).congr fun vs p => ?_
    cases p <;> simp [Phrase.kind, Buildable]
  | extension spec => exact absurd rfl (core spec)
  | ifElse =>
    refine (Accepts.repeated.step fun conditions => .step .repeated fun branches =>
      .step .optionalStatement fun otherwise => .failing <|
        .pure (ifElse conditions branches otherwise)).congr fun vs p => ?_
    cases p <;> simp [Phrase.kind, slots, Buildable]
  | mainTask =>
    refine (Accepts.flag.step fun _ => .step .statement fun _ => .pure _).congr fun vs p => ?_
    cases p <;> simp [Phrase.kind, slots, Buildable]
  | varDeclaration =>
    refine (Accepts.literal.step fun _ => .step (.choice DataType) fun _ =>
      .step .value fun _ => .pure _).congr fun vs p => ?_
    cases p <;> simp [Phrase.kind, slots, Buildable]
  | repeatTimes =>
    refine (Accepts.value.step fun _ => .step .statement fun _ => .pure _).congr fun vs p => ?_
    cases p <;> simp [Phrase.kind, slots, Buildable]
  | whileUntil =>
    refine ((Accepts.choice LoopMode).step fun _ => .step .value fun _ =>
      .step .statement fun _ => .pure _).congr fun vs p => ?_
    cases p <;> simp [Phrase.kind, slots, Buildable]
  | forLoop =>
    refine (Accepts.literal.step fun _ => .step .value fun _ =>
      .step .value fun _ => .step .value fun _ => .step .statement fun _ =>
      .pure _).congr fun vs p => ?_
    cases p <;> simp [Phrase.kind, slots, Buildable]
  | flowControl =>
    refine ((Accepts.choice Flow).step fun _ => .pure _).congr fun vs p => ?_
    cases p <;> simp [Phrase.kind, slots, Buildable]
  | assign | motorSetPower =>
    refine (Accepts.literal.step fun _ => .step .value fun _ => .pure _).congr fun vs p => ?_
    cases p <;> simp [Phrase.kind, slots, Buildable]
  | waitTime | negate | showText =>
    refine (Accepts.value.step fun _ => .pure _).congr fun vs p => ?_
    cases p <;> simp [Phrase.kind, slots, Buildable]
  | methodDef =>
    refine (Accepts.literal.step fun _ => .step .statement fun _ => .pure _).congr fun vs p => ?_
    cases p <;> simp [Phrase.kind, slots, Buildable]
  | methodCall | numConst | stringConst | varRef | motorStop =>
    refine (Accepts.literal.step fun _ => .pure _).congr fun vs p => ?_
    cases p <;> simp [Phrase.kind, slots, Buildable]
  | boolConst =>
    refine (Accepts.flag.step fun _ => .pure _).congr fun vs p => ?_
    cases p <;> simp [Phrase.kind, slots, Buildable]
  | arithmetic =>
    refine ((Accepts.choice ArithOp).step fun _ => .step .value fun _ =>
      .step .value fun _ => .pure _).congr fun vs p => ?_
    cases p <;> simp [Phrase.kind, slots, Buildable]
  | compare =>
    refine ((Accepts.choice CompareOp).step fun _ => .step .value fun _ =>
      .step .value fun _ => .pure _).congr fun vs p => ?_
    cases p <;> simp [Phrase.kind, slots, Buildable]
  | logic =>
    refine ((Accepts.choice LogicOp).step fun _ => .step .value fun _ =>
      .step .value fun _ => .pure _).congr fun vs p => ?_
    cases p <;> simp [Phrase.kind, slots, Buildable]
  | sensorSample =>
    refine (Accepts.literal.step fun _ => .step .literal fun _ => .pure _).congr fun vs p => ?_
    cases p <;> simp [Phrase.kind, slots, Buildable]
  | playTone =>
    refine (Accepts.value.step fun _ => .step .value fun _ => .pure _).congr fun vs p => ?_
    cases p <;> simp [Phrase.kind, slots, Buildable]

/-- The slots of an extension are taken up to the end of its table. -/
theorem take_run_eq_ok_iff {n : Nat} {r r' : SlotReader α} {ws : List (SlotValue α)}
    (left : r.cursor + n = r.fields.length) :
    (take n : SlotRead α _).run r = (.ok ws, r') ↔ r.Took ws r' ∧
      List.Forall₂ (fun row v => v.fits row.mode = true) (r.fields.drop r.cursor) ws := by
  induction n generalizing r ws with
  | zero =>
    rw [List.drop_of_length_le (by omega), List.forall₂_nil_left_iff]
    refine ⟨fun h => ?_, fun h => ?_⟩
    · cases h
      exact ⟨(Took.nil_iff (by omega)).2 rfl, rfl⟩
    · obtain ⟨took, rfl⟩ := h
      rw [(Took.nil_iff (by omega)).1 took]
      rfl
  | succ n ih =>
    have inTable : r.cursor < r.fields.length := by omega
    have row : r.row? = some r.fields[r.cursor] := List.getElem?_eq_getElem inTable
    rw [take, ExceptT.run_bind_stateM, next_run, row, List.drop_eq_getElem_cons inTable]
    cases head : r.values.head? with
    | none =>
      refine iff_of_false (fun h => by cases h) ?_
      rintro ⟨took, fits⟩
      obtain ⟨v, ws, -, -, rfl⟩ := List.forall₂_cons_left_iff.1 fits
      rw [Took.cons_iff, head] at took
      cases took.2.1
    | some v =>
      by_cases fits : v.fits r.fields[r.cursor].mode = true
      · let next := { r with values := r.values.tail, cursor := r.cursor + 1 }
        have step (ws : List (SlotValue α)) : (take n).run next = (.ok ws, r') ↔ _ :=
          ih (by simp only [next]; omega)
        simp only [fits, if_true, ExceptT.run_bind_stateM]
        refine ⟨fun h => ?_, fun h => ?_⟩
        · rcases more : (take n).run next with ⟨_ | vs, r''⟩ <;> rw [more] at h <;> cases h
          obtain ⟨took, others⟩ := (step vs).1 more
          exact ⟨Took.cons_iff.2 ⟨inTable, head, took⟩, .cons fits others⟩
        · obtain ⟨took, all⟩ := h
          obtain ⟨w, ws, -, others, rfl⟩ := List.forall₂_cons_left_iff.1 all
          obtain ⟨-, headed, later⟩ := Took.cons_iff.1 took
          obtain rfl := Option.some.inj (head.symm.trans headed)
          rw [(step ws).2 ⟨later, others⟩]
          rfl
      · simp only [fits]
        refine iff_of_false (fun h => by cases h) ?_
        rintro ⟨took, all⟩
        obtain ⟨w, ws, fits', -, rfl⟩ := List.forall₂_cons_left_iff.1 all
        obtain rfl := Option.some.inj (head.symm.trans (Took.cons_iff.1 took).2.1)
        exact fits fits'

theorem length_slots {p : Phrase α} (h : p.Buildable) : p.slots.length = p.kind.fields.length := by
  cases p with
  | extension spec slots => exact h.length_eq.symm
  | stmtList | emptyExpr => exact h.elim
  | _ => rfl

/-- What is made of the slots of a whole table. -/
theorem fromSlots_run_eq_ok_iff {kind : Kind} {r r' : SlotReader α} {p : Phrase α}
    (table : r.fields = kind.fields) (start : r.cursor = 0) :
    (fromSlots kind).run r = (.ok p, r') ↔
      (p.kind = kind ∧ p.Buildable) ∧ r.Took p.slots r' := by
  by_cases core : ∀ spec, kind ≠ .extension spec
  · rw [accepts_fromSlots core r (by omega) p r']
    refine ⟨fun h => ?_, fun h => ?_⟩
    · obtain ⟨_, ⟨kind, rfl, buildable⟩, took⟩ := h
      exact ⟨⟨kind, buildable⟩, took⟩
    · obtain ⟨⟨kind, buildable⟩, took⟩ := h
      exact ⟨_, ⟨kind, rfl, buildable⟩, took⟩
  · simp only [not_forall, not_not] at core
    obtain ⟨spec, rfl⟩ := core
    have run : (fromSlots (.extension spec)).run r =
        ((take r.fields.length).run r).map (Except.map (extension spec)) id := by
      have all : (rest : SlotRead α _).run r = (take (r.fields.length - r.cursor)).run r := rfl
      rw [fromSlots, ExceptT.run_bind_stateM, all, start, Nat.sub_zero]
      rcases (take r.fields.length).run r with ⟨_ | _, _⟩ <;> rfl
    have whole (ws : List (SlotValue α)) :
        (take r.fields.length).run r = (.ok ws, r') ↔ _ := take_run_eq_ok_iff (by omega)
    rw [start, List.drop_zero, table] at whole
    rw [run, table]
    refine ⟨fun h => ?_, fun h => ?_⟩
    · rcases taken : (take (Kind.extension spec).fields.length).run r with ⟨_ | ws, r''⟩ <;>
        rw [taken] at h <;> cases h
      obtain ⟨took, fits⟩ := (whole ws).1 taken
      exact ⟨⟨rfl, fits⟩, took⟩
    · obtain ⟨⟨kind, buildable⟩, took⟩ := h
      cases p <;> cases kind
      rw [(whole _).2 ⟨took, buildable⟩]
      rfl

/-- Nothing may be left behind the table, and nothing of the table. -/
theorem finish_run (r : SlotReader α) : finish.run r =
    if r.values = [] ∧ r.cursor = r.fields.length then (.ok (), r)
    else (.error (.malformed r.blockId (.slotCount r.fields.length r.cursor)), r) := by
  change (if !r.values.isEmpty || r.cursor != r.fields.length then
    SlotReader.fail (.slotCount r.fields.length r.cursor)
    else pure () : SlotRead α Unit).run r = _
  by_cases empty : r.values = [] <;> by_cases whole : r.cursor = r.fields.length <;>
    simp [empty, whole] <;> rfl

/-- Which contents make which phrase. -/
theorem build_eq_ok_iff {kind : Kind} {blockId : String} {vs : List (SlotValue α)}
    {p : Phrase α} :
    build kind blockId vs = .ok p ↔ p.kind = kind ∧ p.slots = vs ∧ p.Buildable := by
  have made (p : Phrase α) (r' : SlotReader α) :
      (fromSlots kind).run { blockId, fields := kind.fields, values := vs } = (.ok p, r') ↔ _ :=
    fromSlots_run_eq_ok_iff rfl rfl
  simp only [build, ExceptT.run_bind_stateM, finish_run]
  refine ⟨fun h => ?_, fun h => ?_⟩
  · rcases run : (fromSlots kind).run { blockId, fields := kind.fields, values := vs } with
      ⟨e | q, r'⟩ <;> rw [run] at h
    · cases h
    · simp only at h
      split at h
      · next done =>
        split at done
        · next whole =>
          cases done
          cases h
          obtain ⟨⟨kind, buildable⟩, took⟩ := (made p _).1 run
          exact ⟨kind, by simpa [whole.1] using took.values.symm, buildable⟩
        · cases done
      · cases h
  · obtain ⟨rfl, rfl, buildable⟩ := h
    have length := length_slots buildable
    have took : ({ blockId, fields := p.kind.fields, values := p.slots } : SlotReader α).Took
        p.slots { blockId, fields := p.kind.fields, values := [], cursor := p.slots.length } :=
      ⟨rfl, rfl, (List.append_nil _).symm, (Nat.zero_add _).symm, Nat.le_of_eq length⟩
    rw [(made p _).2 ⟨⟨rfl, buildable⟩, took⟩]
    simp only [length, and_self, if_true]
    rfl

/-! ## Which contents fit -/

theorem isSome_readFlag?_iff {text : String} :
    (readFlag? text).isSome = true ↔ ∃ b, text = flagText b := by
  rw [Option.isSome_iff_exists]
  exact ⟨fun ⟨b, h⟩ => ⟨b, (flagText_of_readFlag? h).symm⟩,
    fun ⟨b, h⟩ => ⟨b, h ▸ readFlag?_flagText b⟩⟩

theorem isSome_read?_iff {τ : Type} [Spelled τ] {text : String} :
    (Spelled.read? text : Option τ).isSome = true ↔ ∃ t : τ, text = Spelled.spell t := by
  rw [Option.isSome_iff_exists]
  exact ⟨fun ⟨t, h⟩ => ⟨t, (Spelled.spell_of_read? h).symm⟩,
    fun ⟨t, h⟩ => ⟨t, h ▸ Spelled.read?_spell t⟩⟩

end Phrase

/-- Whether a text may stand in a slot of a kind: choices have fixed spellings. -/
def Kind.allows : Kind → String → String → Bool
  | .mainTask, "DEBUG", text | .boolConst, "BOOL", text => (readFlag? text).isSome
  | .varDeclaration, "TYPE", text => (Spelled.read? text : Option DataType).isSome
  | .whileUntil, "MODE", text => (Spelled.read? text : Option LoopMode).isSome
  | .flowControl, "FLOW", text => (Spelled.read? text : Option Flow).isSome
  | .arithmetic, "OP", text => (Spelled.read? text : Option ArithOp).isSome
  | .compare, "OP", text => (Spelled.read? text : Option CompareOp).isSome
  | .logic, "OP", text => (Spelled.read? text : Option LogicOp).isSome
  | _, _, _ => true

/-- Whether a content may stand in a row of a kind's table. -/
def SlotValue.suits (kind : Kind) (row : FieldSpec) : SlotValue α → Bool
  | .literal text => row.mode = .literal && kind.allows row.external text
  | v => v.fits row.mode

namespace Phrase

section

variable {kind : Kind} {name internal : String} {v : SlotValue α}

theorem suits_literal_iff : v.suits kind (.literal name internal) = true ↔
    ∃ text, v = .literal text ∧ kind.allows name text = true := by
  cases v <;> simp [SlotValue.suits, SlotValue.fits, FieldSpec.literal]

theorem suits_value_iff : v.suits kind (.value name internal) = true ↔ ∃ n, v = .value n := by
  cases v <;> simp [SlotValue.suits, SlotValue.fits, FieldSpec.value]

theorem suits_statement_iff :
    v.suits kind (.statement name internal) = true ↔ ∃ n, v = .statement n := by
  cases v <;> simp [SlotValue.suits, SlotValue.fits, FieldSpec.statement]

theorem suits_optionalStatement_iff :
    v.suits kind ⟨name, internal, .optionalStatement⟩ = true ↔ ∃ n, v = .optionalStatement n := by
  cases v <;> simp [SlotValue.suits, SlotValue.fits]

theorem suits_repeatedValue_iff :
    v.suits kind ⟨name, internal, .repeatedValue⟩ = true ↔ ∃ ns, v = .repeated ns := by
  cases v <;> simp [SlotValue.suits, SlotValue.fits]

theorem suits_repeatedStatement_iff :
    v.suits kind ⟨name, internal, .repeatedStatement⟩ = true ↔ ∃ ns, v = .repeated ns := by
  cases v <;> simp [SlotValue.suits, SlotValue.fits]

end

theorem fits_map (f : α → β) (mode : FieldMode) (v : SlotValue α) :
    (v.map f).fits mode = v.fits mode := by
  cases v <;> cases mode <;> rfl

theorem suits_map (f : α → β) (kind : Kind) (row : FieldSpec) (v : SlotValue α) :
    (v.map f).suits kind row = v.suits kind row := by
  cases v <;> first | rfl | exact fits_map f row.mode _

/-- The rows of extensions admit every text. -/
theorem suits_extension (spec : ExtensionSpec) (row : FieldSpec) (v : SlotValue α) :
    v.suits (.extension spec) row = v.fits row.mode := by
  obtain ⟨name, internal, mode⟩ := row
  cases v <;> cases mode <;> rfl

theorem suits_slots {p : Phrase α} (h : p.Buildable) :
    List.Forall₂ (fun row v => v.suits p.kind row = true) p.kind.fields p.slots := by
  cases p with
  | stmtList | emptyExpr => exact h.elim
  | extension spec slots => exact h.imp fun row v fits => (suits_extension spec row v).trans fits
  | ifElse => exact .cons rfl (.cons rfl (.cons rfl .nil))
  | _ =>
    simp [Kind.fields, Kind.binaryFields, Phrase.kind, slots, suits_literal_iff, suits_value_iff,
      suits_statement_iff, Kind.allows]

/-- Contents that suit the table of a core kind are the slots of a phrase. -/
theorem exists_slots_eq {kind : Kind} {vs : List (SlotValue α)} (block : kind.blockType.isSome)
    (h : List.Forall₂ (fun row v => v.suits kind row = true) kind.fields vs) :
    ∃ p : Phrase α, p.kind = kind ∧ p.slots = vs := by
  cases kind
  case stmtList | emptyExpr => cases block
  case extension spec => exact ⟨.extension spec vs, rfl, rfl⟩
  all_goals
    simp [Kind.fields, Kind.binaryFields, List.forall₂_cons_left_iff, suits_literal_iff,
      suits_value_iff, suits_statement_iff, suits_repeatedValue_iff, suits_repeatedStatement_iff,
      suits_optionalStatement_iff, Kind.allows, isSome_readFlag?_iff, isSome_read?_iff,
      -Bool.exists_bool] at h
  case ifElse =>
    obtain ⟨a, b, c, rfl⟩ := h
    exact ⟨ifElse a b c, rfl, rfl⟩
  case mainTask =>
    obtain ⟨a, b, rfl⟩ := h
    exact ⟨mainTask a b, rfl, rfl⟩
  case varDeclaration =>
    obtain ⟨a, b, c, rfl⟩ := h
    exact ⟨varDeclaration a b c, rfl, rfl⟩
  case repeatTimes =>
    obtain ⟨a, b, rfl⟩ := h
    exact ⟨repeatTimes a b, rfl, rfl⟩
  case whileUntil =>
    obtain ⟨a, b, c, rfl⟩ := h
    exact ⟨whileUntil a b c, rfl, rfl⟩
  case forLoop =>
    obtain ⟨a, b, c, d, e, rfl⟩ := h
    exact ⟨forLoop a b c d e, rfl, rfl⟩
  case flowControl =>
    obtain ⟨a, rfl⟩ := h
    exact ⟨flowControl a, rfl, rfl⟩
  case assign =>
    obtain ⟨a, b, rfl⟩ := h
    exact ⟨assign a b, rfl, rfl⟩
  case waitTime =>
    obtain ⟨a, rfl⟩ := h
    exact ⟨waitTime a, rfl, rfl⟩
  case methodDef =>
    obtain ⟨a, b, rfl⟩ := h
    exact ⟨methodDef a b, rfl, rfl⟩
  case methodCall =>
    obtain ⟨a, rfl⟩ := h
    exact ⟨methodCall a, rfl, rfl⟩
  case numConst =>
    obtain ⟨a, rfl⟩ := h
    exact ⟨numConst a, rfl, rfl⟩
  case boolConst =>
    obtain ⟨a, rfl⟩ := h
    exact ⟨boolConst a, rfl, rfl⟩
  case stringConst =>
    obtain ⟨a, rfl⟩ := h
    exact ⟨stringConst a, rfl, rfl⟩
  case varRef =>
    obtain ⟨a, rfl⟩ := h
    exact ⟨varRef a, rfl, rfl⟩
  case arithmetic =>
    obtain ⟨a, b, c, rfl⟩ := h
    exact ⟨arithmetic a b c, rfl, rfl⟩
  case compare =>
    obtain ⟨a, b, c, rfl⟩ := h
    exact ⟨compare a b c, rfl, rfl⟩
  case logic =>
    obtain ⟨a, b, c, rfl⟩ := h
    exact ⟨logic a b c, rfl, rfl⟩
  case negate =>
    obtain ⟨a, rfl⟩ := h
    exact ⟨negate a, rfl, rfl⟩
  case motorSetPower =>
    obtain ⟨a, b, rfl⟩ := h
    exact ⟨motorSetPower a b, rfl, rfl⟩
  case motorStop =>
    obtain ⟨a, rfl⟩ := h
    exact ⟨motorStop a, rfl, rfl⟩
  case sensorSample =>
    obtain ⟨a, b, rfl⟩ := h
    exact ⟨sensorSample a b, rfl, rfl⟩
  case showText =>
    obtain ⟨a, rfl⟩ := h
    exact ⟨showText a, rfl, rfl⟩
  case playTone =>
    obtain ⟨a, b, rfl⟩ := h
    exact ⟨playTone a b, rfl, rfl⟩

theorem spell_inj {τ : Type} [Spelled τ] {t u : τ} : Spelled.spell t = Spelled.spell u ↔ t = u :=
  ⟨Spelled.spell_injective t u, congrArg _⟩

theorem flagText_inj {b c : Bool} : flagText b = flagText c ↔ b = c := by
  cases b <;> cases c <;> decide

/-- The kind and the slots determine what a block says. -/
theorem eq_of_slots {p q : Phrase α} (block : p.kind.blockType.isSome) (kind : p.kind = q.kind)
    (slots : p.slots = q.slots) : p = q := by
  cases p <;> cases q <;> cases kind
  case stmtList | emptyExpr => cases block
  all_goals simp_all [Phrase.slots, spell_inj, flagText_inj]

theorem Buildable.block {p : Phrase α} (h : p.Buildable) : p.kind.blockType.isSome := by
  cases p with
  | stmtList | emptyExpr => exact h.elim
  | _ => rfl

theorem Buildable.children {p : Phrase α} (h : p.Buildable) :
    p.children = p.slots.flatMap SlotValue.nodes := by
  cases p with
  | stmtList => exact h.elim
  | _ => rfl

theorem buildable_map_iff (f : α → β) (p : Phrase α) : (p.map f).Buildable ↔ p.Buildable := by
  cases p with
  | extension spec slots =>
    simp only [map, Buildable, List.forall₂_map_right_iff, fits_map]
  | _ => simp [map, Buildable]

/-- Building does not depend on what the slots hold. -/
theorem build_map_eq_ok_iff (f : α → β) {kind : Kind} {blockId : String} {vs : List (SlotValue α)}
    {q : Phrase β} :
    build kind blockId (vs.map (SlotValue.map f)) = .ok q ↔
      ∃ p, build kind blockId vs = .ok p ∧ p.map f = q := by
  simp only [build_eq_ok_iff]
  refine ⟨fun h => ?_, fun h => ?_⟩
  · obtain ⟨rfl, slots, buildable⟩ := h
    have suits := suits_slots buildable
    rw [slots, List.forall₂_map_right_iff] at suits
    simp only [suits_map] at suits
    obtain ⟨p, kind, rfl⟩ := exists_slots_eq buildable.block suits
    obtain rfl : p.map f = q :=
      eq_of_slots (by rw [kind_map, kind]; exact buildable.block) (by rw [kind_map, kind])
        (by rw [slots_map, slots])
    exact ⟨p, ⟨kind, rfl, (buildable_map_iff f p).1 buildable⟩, rfl⟩
  · obtain ⟨p, ⟨rfl, rfl, buildable⟩, rfl⟩ := h
    exact ⟨kind_map f p, slots_map f p, (buildable_map_iff f p).2 buildable⟩

/-! ## Exchanging children -/

/-- Whether a phrase is no block, or can be built from its slots. -/
def Rebuildable (p : Phrase α) : Prop := p.kind.blockType = none ∨ p.Buildable

/-- Phrases of one shape can be rebuilt or not. -/
theorem rebuildable_map_iff (f : α → β) (p : Phrase α) :
    (p.map f).Rebuildable ↔ p.Rebuildable := by
  rw [Rebuildable, Rebuildable, kind_map, buildable_map_iff]

end Phrase

section

variable {f : α → Except Error β} {g : α → β}

theorem SlotValue.mapM_eq_ok {v : SlotValue α} (each : ∀ c ∈ v.nodes, f c = .ok (g c)) :
    v.mapM f = .ok (v.map g) := by
  cases v with
  | literal text => rfl
  | value c | statement c =>
    rw [SlotValue.mapM, each c List.mem_cons_self]
    rfl
  | optionalStatement o =>
    cases o with
    | none => rfl
    | some c =>
      rw [SlotValue.mapM, each c List.mem_cons_self]
      rfl
  | repeated cs =>
    rw [SlotValue.mapM, Except.mapM_eq_ok (l := cs) each]
    rfl

/-- If all children have a result, the phrase is built again with the results in their places. -/
theorem Phrase.mapChildren_eq_ok {p : Phrase α} (whole : p.Rebuildable) (blockId : String)
    (each : ∀ c ∈ p.children, f c = .ok (g c)) : p.mapChildren blockId f = .ok (p.map g) := by
  have built (buildable : p.Buildable) (finish : List (SlotValue β) → Except Error (Phrase β))
      (passes : ∀ values q, build p.kind blockId values = .ok q → finish values = .ok q) :
      (p.slots.mapM (SlotValue.mapM f) >>= finish) = .ok (p.map g) := by
    rw [buildable.children, List.forall_mem_flatMap] at each
    have made : build p.kind blockId (p.slots.map (SlotValue.map g)) = .ok (p.map g) :=
      build_eq_ok_iff.2 ⟨kind_map g p, slots_map g p, (buildable_map_iff g p).2 buildable⟩
    rw [Except.mapM_eq_ok fun v hv => SlotValue.mapM_eq_ok (each v hv)]
    exact passes _ _ made
  cases p with
  | stmtList cs =>
    rw [mapChildren, Except.mapM_eq_ok (l := cs) each]
    rfl
  | emptyExpr => rfl
  | _ =>
    refine built (whole.resolve_left (Option.some_ne_none _)) _ fun values q made => ?_
    rw [made]
    rfl

end

namespace Phrase

/-! ## Operands -/

/-- Whether every branch of a conditional has a condition. -/
def Paired : Phrase α → Prop
  | ifElse conditions branches _ => conditions.length = branches.length
  | _ => True

theorem paired_map_iff (f : α → β) {p : Phrase α} : (p.map f).Paired ↔ p.Paired := by
  cases p with
  | ifElse => simp [map, Paired]
  | _ => exact Iff.rfl

theorem Buildable.paired {p : Phrase α} (h : p.Buildable) : p.Paired := by
  cases p with
  | ifElse => exact h.2
  | _ => trivial

/-- The expressions that a phrase works on. -/
def operands : Phrase α → List α
  | ifElse conditions _ _ => conditions
  | p => p.slots.flatMap SlotValue.operand

@[simp] theorem operands_map (f : α → β) (p : Phrase α) :
    (p.map f).operands = p.operands.map f := by
  cases p with
  | extension spec slots =>
    simp [map, operands, Phrase.slots, List.flatMap_map, List.map_flatMap]
  | _ => rfl

theorem operands_subset_children (p : Phrase α) : p.operands ⊆ p.children := by
  have slot (v : SlotValue α) : v.operand ⊆ v.nodes := by
    cases v with
    | value c => exact List.Subset.refl _
    | _ => exact List.nil_subset _
  have general (q : Phrase α) :
      q.slots.flatMap SlotValue.operand ⊆ q.slots.flatMap SlotValue.nodes := by
    intro c h
    obtain ⟨v, hv, h⟩ := List.mem_flatMap.1 h
    exact List.mem_flatMap.2 ⟨v, hv, slot v h⟩
  cases p with
  | ifElse conditions branches otherwise => exact List.subset_append_left _ _
  | stmtList => exact List.nil_subset _
  | _ => exact general _

end Phrase

end BlockGraph

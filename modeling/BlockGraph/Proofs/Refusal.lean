import BlockGraph.Proofs.Phrase

/-!
# Contents that make no phrase

Contents that fit the rows of a table row by row are refused only for a text that is not allowed,
and the error tells the text and its row.

* `Phrase.suits_or_misspelled`: contents that fit suit the table up to the first such text.
* `Phrase.refuses_of_misspelled`: what the error is.
-/

namespace BlockGraph

variable {α β : Type}

/-! ## Reading texts -/

namespace SlotReader

variable {r : SlotReader α} {name internal text : String} {vs : List (SlotValue α)}

theorem literal_run (here : r.row? = some (.literal name internal))
    (values : r.values = .literal text :: vs) :
    literal.run r = (.ok text, { r with values := vs, cursor := r.cursor + 1 }) := by
  rw [literal, expect, ExceptT.run_bind_stateM, next_run, here, values]
  rfl

/-- The row of a text is looked up before the text is read. -/
theorem get_literal_run (here : r.row? = some (.literal name internal))
    (values : r.values = .literal text :: vs) (f : SlotReader α → String → SlotRead α β) :
    (do let s ← get; let text ← literal; f s text : SlotRead α β).run r =
      (f r text).run { r with values := vs, cursor := r.cursor + 1 } := by
  change (literal >>= f r).run r = _
  rw [ExceptT.run_bind_stateM, literal_run here values]

theorem choice_run {τ : Type} [Spelled τ] (here : r.row? = some (.literal name internal))
    (values : r.values = .literal text :: vs) (unknown : (Spelled.read? text : Option τ) = none) :
    ((choice τ).run r).1 = .error (.malformed r.blockId (.badChoice text (some name))) := by
  rw [choice, get_literal_run here values, here]
  simp only [unknown]
  rfl

theorem flag_run (here : r.row? = some (.literal name internal))
    (values : r.values = .literal text :: vs) (unknown : readFlag? text = none) :
    (flag.run r).1 = .error (.malformed r.blockId (.badFlag text (some name))) := by
  rw [flag, get_literal_run here values, here]
  simp only [unknown]
  rfl

theorem bind_eq_error {γ : Type} {x : SlotRead α β} {f : β → SlotRead α γ} {e : Error}
    (h : (x.run r).1 = .error e) : ((x >>= f).run r).1 = .error e := by
  rw [ExceptT.run_bind_stateM]
  rcases run : x.run r with ⟨_ | _, _⟩ <;> rw [run] at h <;> cases h
  rfl

end SlotReader

/-! ## Building -/

namespace Phrase

open SlotReader

variable {kind : Kind} {vs : List (SlotValue α)}

theorem build_eq_error {blockId : String} {e : Error}
    (h : ((fromSlots kind).run { blockId, fields := kind.fields, values := vs }).1 = .error e) :
    build kind blockId vs = .error e := bind_eq_error h

theorem suits_iff_of_fits {row : FieldSpec} {v : SlotValue α} (fits : v.fits row.mode = true) :
    v.suits kind row = true ↔ ∀ text, v = .literal text → kind.allows row.external text = true := by
  cases v with
  | literal text =>
    have mode : row.mode = .literal := by
      cases h : row.mode <;> rw [h] at fits <;> first | rfl | cases fits
    simp [SlotValue.suits, mode]
  | _ => simp [SlotValue.suits, fits]

/-- Contents that fit the rows of a table suit them up to the first text that is not allowed. -/
theorem suits_or_misspelled {P : FieldSpec → SlotValue α → Prop} {rows : List FieldSpec}
    (h : List.Forall₂ (fun row v => v.fits row.mode = true ∧ P row v) rows vs) :
    List.Forall₂ (fun row v => v.suits kind row = true) rows vs ∨
      ∃ before row after us text ws, rows = before ++ row :: after ∧
        vs = us ++ .literal text :: ws ∧
          List.Forall₂ (fun row v => v.fits row.mode = true) before us ∧
            kind.allows row.external text = false ∧ P row (.literal text) := by
  induction h with
  | nil => exact .inl .nil
  | @cons row v rows vs first others ih =>
    by_cases suits : v.suits kind row = true
    · rcases ih with all | ⟨before, row', after, us, text, ws, rfl, rfl, fits, misspelled, there⟩
      · exact .inl (.cons suits all)
      · exact .inr ⟨row :: before, row', after, v :: us, text, ws, rfl, rfl, .cons first.1 fits,
          misspelled, there⟩
    · rw [suits_iff_of_fits first.1] at suits
      simp only [not_forall, Bool.not_eq_true] at suits
      obtain ⟨text, rfl, misspelled⟩ := suits
      exact .inr ⟨[], row, rows, [], text, vs, rfl, rfl, .nil, misspelled, first.2⟩

theorem eq_first_of_misspelled {first row : FieldSpec} {rows before after : List FieldSpec}
    {text : String} (table : first :: rows = before ++ row :: after)
    (others : ∀ row ∈ rows, ∀ text, kind.allows row.external text = true)
    (misspelled : kind.allows row.external text = false) : before = [] ∧ row = first := by
  cases before with
  | nil => exact ⟨rfl, (List.cons.inj table).1.symm⟩
  | cons _ before =>
    have later : row ∈ rows := by simp [(List.cons.inj table).2]
    rw [others row later text] at misspelled
    cases misspelled

theorem eq_none_of_isSome {o : Option β} (h : o.isSome = false) : o = none :=
  Option.isNone_iff_eq_none.1 (Option.isSome_eq_false_iff.1 h)

/-- The error is about a text in the field of this name. -/
def Refuses (blockId name text : String) (x : Except Error β) : Prop :=
  x = .error (.malformed blockId (.badChoice text (some name))) ∨
    x = .error (.malformed blockId (.badFlag text (some name)))

/-- Most kinds with a choice or flag have it in the first row. -/
theorem refuses_of_first {blockId name internal text : String} {rows before after : List FieldSpec}
    {row : FieldSpec} {us ws : List (SlotValue α)} {x : SlotRead α β}
    {f : β → SlotRead α (Phrase α)}
    (first : kind.fields = .literal name internal :: rows) (reads : fromSlots kind = x >>= f)
    (others : ∀ row ∈ rows, ∀ text, kind.allows row.external text = true)
    (refuses : kind.allows name text = false → Refuses blockId name text
      (x.run { blockId, fields := kind.fields, values := .literal text :: ws }).1)
    (table : kind.fields = before ++ row :: after)
    (fits : List.Forall₂ (fun row v => v.fits row.mode = true) before us)
    (misspelled : kind.allows row.external text = false) :
    Refuses blockId row.external text (build kind blockId (us ++ .literal text :: ws)) := by
  obtain ⟨rfl, rfl⟩ := eq_first_of_misspelled (first ▸ table) others misspelled
  cases fits
  rcases refuses misspelled with e | e
  · exact .inl (build_eq_error (reads ▸ bind_eq_error e))
  · exact .inr (build_eq_error (reads ▸ bind_eq_error e))

/-- Contents are refused for a text that is not allowed in its row, if those before it fit. -/
theorem refuses_of_misspelled {blockId text : String} {before after : List FieldSpec}
    {row : FieldSpec} {us ws : List (SlotValue α)} (table : kind.fields = before ++ row :: after)
    (fits : List.Forall₂ (fun row v => v.fits row.mode = true) before us)
    (misspelled : kind.allows row.external text = false) :
    Refuses blockId row.external text (build kind blockId (us ++ .literal text :: ws)) := by
  cases kind
  case mainTask =>
    exact refuses_of_first rfl rfl (by simp [Kind.allows, FieldSpec.statement])
      (fun no => .inr (flag_run rfl rfl (eq_none_of_isSome no))) table fits misspelled
  case boolConst =>
    exact refuses_of_first rfl rfl (by simp)
      (fun no => .inr (flag_run rfl rfl (eq_none_of_isSome no))) table fits misspelled
  case whileUntil =>
    exact refuses_of_first rfl rfl (by simp [Kind.allows, FieldSpec.value, FieldSpec.statement])
      (fun no => .inl (choice_run rfl rfl (eq_none_of_isSome no))) table fits misspelled
  case flowControl =>
    exact refuses_of_first rfl rfl (by simp)
      (fun no => .inl (choice_run rfl rfl (eq_none_of_isSome no))) table fits misspelled
  case arithmetic | compare | logic =>
    exact refuses_of_first rfl rfl (by simp [Kind.allows, FieldSpec.value])
      (fun no => .inl (choice_run rfl rfl (eq_none_of_isSome no))) table fits misspelled
  case varDeclaration =>
    cases before with
    | nil =>
      cases table
      cases misspelled
    | cons _ before =>
      obtain ⟨rfl, rest⟩ := List.cons.inj table
      obtain ⟨rfl, rfl⟩ := eq_first_of_misspelled rest (by simp [Kind.allows, FieldSpec.value])
        misspelled
      obtain ⟨v, us, first, none, rfl⟩ := List.forall₂_cons_left_iff.1 fits
      cases none
      cases v <;> cases first
      refine .inl (build_eq_error ?_)
      rw [fromSlots, ExceptT.run_bind_stateM, List.cons_append, literal_run rfl rfl]
      exact bind_eq_error (choice_run rfl rfl (eq_none_of_isSome misspelled))
  all_goals cases misspelled

end Phrase

end BlockGraph

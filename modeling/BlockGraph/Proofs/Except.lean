import Mathlib.Data.List.Forall2

/-!
# Results of computations that may fail

When a computation in `Except` gives a result, and which one.
-/

namespace Except

variable {ε α β σ τ ι κ : Type}

theorem bind_eq_ok_iff {x : Except ε α} {f : α → Except ε β} {b : β} :
    (x >>= f) = .ok b ↔ ∃ a, x = .ok a ∧ f a = .ok b := by
  cases x with
  | error e => exact iff_of_false (fun h => by cases h) fun ⟨_, h, _⟩ => by cases h
  | ok a =>
    constructor
    · exact fun h => ⟨a, rfl, h⟩
    · rintro ⟨_, h, h'⟩
      cases h
      exact h'

theorem bind_eq_error_iff {x : Except ε α} {f : α → Except ε β} {e : ε} :
    (x >>= f) = .error e ↔ x = .error e ∨ ∃ a, x = .ok a ∧ f a = .error e := by
  cases x with
  | error e' =>
    refine ⟨fun h => ?_, fun h => ?_⟩
    · cases h
      exact .inl rfl
    · obtain h | ⟨_, h, -⟩ := h <;> cases h
      rfl
  | ok a =>
    refine ⟨fun h => .inr ⟨a, rfl, h⟩, fun h => ?_⟩
    obtain h | ⟨_, h, h'⟩ := h <;> cases h
    exact h'

theorem map_eq_ok_iff {f : α → β} {x : Except ε α} {b : β} :
    x.map f = .ok b ↔ ∃ a, x = .ok a ∧ f a = b := by
  cases x <;> simp [Except.map]

@[simp] theorem pure_eq_ok_iff {a b : α} : (pure a : Except ε α) = .ok b ↔ a = b := by
  simp [pure, Except.pure]

/-- A result is found by running the computation. -/
theorem exists_eq_ok_of_any {x : Except ε α} {test : α → Bool}
    (computed : x.toOption.any test = true) : ∃ a, x = .ok a ∧ test a = true := by
  cases x with
  | error e => cases computed
  | ok a => exact ⟨a, rfl, computed⟩

theorem exists_eq_ok_of_any_fst {x : Except ε α × σ} {test : α → Bool}
    (computed : x.1.toOption.any test = true) : ∃ a s, x = (.ok a, s) ∧ test a = true := by
  obtain ⟨r, s⟩ := x
  obtain ⟨a, rfl, passed⟩ := exists_eq_ok_of_any computed
  exact ⟨a, s, rfl, passed⟩

theorem map_bind (g : β → τ) (x : Except ε α) (f : α → Except ε β) :
    (x >>= f).map g = x >>= fun a => (f a).map g := by
  cases x <;> rfl

/-- A list is worked through element by element. -/
theorem mapM_eq_ok_iff {f : α → Except ε β} {l : List α} {bs : List β} :
    l.mapM f = .ok bs ↔ List.Forall₂ (fun a b => f a = .ok b) l bs := by
  induction l generalizing bs with
  | nil =>
    rw [List.mapM_nil, pure_eq_ok_iff, List.forall₂_nil_left_iff]
    exact eq_comm
  | cons a l ih =>
    rw [List.mapM_cons, bind_eq_ok_iff, List.forall₂_cons_left_iff]
    simp only [bind_eq_ok_iff, ih, pure_eq_ok_iff]
    refine ⟨fun h => ?_, fun h => ?_⟩
    · obtain ⟨b, first, bs, others, rfl⟩ := h
      exact ⟨b, bs, first, others, rfl⟩
    · obtain ⟨b, bs, first, others, rfl⟩ := h
      exact ⟨b, first, bs, others, rfl⟩

theorem mapM_eq_ok {f : α → Except ε β} {g : α → β} {l : List α}
    (each : ∀ a ∈ l, f a = .ok (g a)) : l.mapM f = .ok (l.map g) := by
  rw [mapM_eq_ok_iff, List.forall₂_map_right_iff, List.forall₂_same]
  exact each

/-- The results for images are the images of the results. -/
theorem mapM_map {f : ι → Except ε β} {g : κ → Except ε τ} {h : β → τ} {e : ι → κ} {l : List ι}
    (each : ∀ i ∈ l, g (e i) = (f i).map h) : (l.map e).mapM g = (l.mapM f).map (List.map h) := by
  induction l with
  | nil => rfl
  | cons i l ih =>
    rw [List.forall_mem_cons] at each
    rw [List.map_cons, List.mapM_cons, List.mapM_cons, each.1, ih each.2]
    cases f i with
    | error => rfl
    | ok b => cases l.mapM f <;> rfl

theorem exists_forall₂_iff {R : α → β → Prop} {l : List α} :
    (∃ bs, List.Forall₂ R l bs) ↔ ∀ a ∈ l, ∃ b, R a b := by
  induction l with
  | nil => simp
  | cons a l ih =>
    rw [List.forall_mem_cons, ← ih]
    refine ⟨fun h => ?_, fun h => ?_⟩
    · obtain ⟨_, h⟩ := h
      obtain ⟨b, bs, first, others, rfl⟩ := List.forall₂_cons_left_iff.1 h
      exact ⟨⟨b, first⟩, bs, others⟩
    · obtain ⟨⟨b, first⟩, bs, others⟩ := h
      exact ⟨b :: bs, .cons first others⟩

/-- A relation that is weaker on the elements of the first list. -/
theorem forall₂_imp_of_mem {R S : α → β → Prop} {l : List α} {bs : List β}
    (each : ∀ a ∈ l, ∀ b, R a b → S a b) (h : List.Forall₂ R l bs) : List.Forall₂ S l bs := by
  induction h with
  | nil => exact .nil
  | cons first _ ih =>
    rw [List.forall_mem_cons] at each
    exact .cons (each.1 _ first) (ih each.2)

/-- Relations that agree on the elements of the first list. -/
theorem forall₂_congr_of_mem {R S : α → β → Prop} {l : List α} {bs : List β}
    (each : ∀ a ∈ l, ∀ b, R a b ↔ S a b) : List.Forall₂ R l bs ↔ List.Forall₂ S l bs :=
  ⟨forall₂_imp_of_mem fun a ha b => (each a ha b).1,
    forall₂_imp_of_mem fun a ha b => (each a ha b).2⟩

/-- Two relations on the same lists, where the second asks for a property of the first list. -/
theorem forall₂_congr_iff {R S : α → β → Prop} {P : α → Prop} {l : List α} {bs : List β}
    (h : List.Forall₂ R l bs) (each : ∀ a ∈ l, ∀ b, R a b → (S a b ↔ P a)) :
    List.Forall₂ S l bs ↔ ∀ a ∈ l, P a := by
  induction h with
  | nil => simp
  | cons first others ih =>
    rw [List.forall_mem_cons] at each
    rw [List.forall₂_cons, List.forall_mem_cons, ih each.2, each.1 _ first]

theorem forall₂_iff_forall_right {R S : α → β → Prop} {Q : β → Prop} {l : List α} {bs : List β}
    (h : List.Forall₂ R l bs) (each : ∀ a b, R a b → (S a b ↔ Q b)) :
    List.Forall₂ S l bs ↔ ∀ b ∈ bs, Q b := by
  induction h with
  | nil => simp
  | cons first others ih => rw [List.forall₂_cons, List.forall_mem_cons, ih, each _ _ first]

theorem forall_right_of_forall₂ {R : α → β → Prop} {Q : β → Prop} {l : List α} {bs : List β}
    (h : List.Forall₂ R l bs) (each : ∀ a b, R a b → Q b) : ∀ b ∈ bs, Q b := by
  induction h with
  | nil => simp
  | cons first _ ih => exact List.forall_mem_cons.2 ⟨each _ _ first, ih⟩

/-- A property of all elements of the second list, in terms of the first. -/
theorem forall_right_iff {R : α → β → Prop} {P : α → Prop} {Q : β → Prop} {l : List α}
    {bs : List β} (h : List.Forall₂ R l bs) (each : ∀ a b, R a b → (Q b ↔ P a)) :
    (∀ b ∈ bs, Q b) ↔ ∀ a ∈ l, P a := by
  induction h with
  | nil => simp
  | cons first others ih => rw [List.forall_mem_cons, List.forall_mem_cons, ih, each _ _ first]

/-- Lists that go with the same list, element by element. -/
theorem exists_forall₂_of_forall₂ {R : α → β → Prop} {S : α → σ → Prop} {T : β → σ → Prop}
    {l : List α} {bs : List β} (h : List.Forall₂ R l bs)
    (each : ∀ a ∈ l, ∀ b, R a b → ∃ c, S a c ∧ T b c) :
    ∃ cs, List.Forall₂ S l cs ∧ List.Forall₂ T bs cs := by
  induction h with
  | nil => exact ⟨[], .nil, .nil⟩
  | cons first _ ih =>
    rw [List.forall_mem_cons] at each
    obtain ⟨c, one, other⟩ := each.1 _ first
    obtain ⟨cs, ones, others⟩ := ih each.2
    exact ⟨c :: cs, .cons one ones, .cons other others⟩

theorem map_eq_map_of_forall₂ {R : α → β → Prop} {f : α → σ} {g : β → σ} {l : List α} {bs : List β}
    (h : List.Forall₂ R l bs) (each : ∀ a b, R a b → f a = g b) : l.map f = bs.map g := by
  induction h with
  | nil => rfl
  | cons first others ih => rw [List.map_cons, List.map_cons, each _ _ first, ih]

/-- Elements that stand for each other have the same parts. -/
theorem flatMap_eq_of_forall₂ {R : α → β → Prop} {f : α → List σ} {g : β → List σ}
    {l : List α} {bs : List β} (h : List.Forall₂ R l bs) (each : ∀ a b, R a b → g b = f a) :
    bs.flatMap g = l.flatMap f := by
  rw [List.flatMap_def, List.flatMap_def,
    map_eq_map_of_forall₂ h fun a b related => (each a b related).symm]

/-- What every step of a fold keeps holds at its end. -/
theorem foldlM_induction {P : σ → Prop} {f : σ → ι → Except ε σ} {l : List ι} {s t : σ}
    (step : ∀ i ∈ l, ∀ s s', P s → f s i = .ok s' → P s') (start : P s)
    (h : l.foldlM f s = .ok t) : P t := by
  induction l generalizing s with
  | nil =>
    cases h
    exact start
  | cons i l ih =>
    rw [List.forall_mem_cons] at step
    obtain ⟨s', first, rest⟩ := bind_eq_ok_iff.1 h
    exact ih step.2 (step.1 s s' start first) rest

/-- A fold takes every step. -/
theorem exists_step_of_foldlM {f : σ → ι → Except ε σ} {l : List ι} {s t : σ}
    (h : l.foldlM f s = .ok t) : ∀ i ∈ l, ∃ s₁ s₂, f s₁ i = .ok s₂ := by
  induction l generalizing s with
  | nil => simp
  | cons i l ih =>
    obtain ⟨s', first, rest⟩ := bind_eq_ok_iff.1 h
    exact List.forall_mem_cons.2 ⟨⟨s, s', first⟩, ih rest⟩

/-- A fold that fails does so in a step, after steps that do not. -/
theorem exists_error_of_foldlM {f : σ → ι → Except ε σ} {l : List ι} {s : σ} {e : ε}
    (h : l.foldlM f s = .error e) : ∃ before i after t,
      l = before ++ i :: after ∧ before.foldlM f s = .ok t ∧ f t i = .error e := by
  induction l generalizing s with
  | nil => cases h
  | cons i l ih =>
    rcases bind_eq_error_iff.1 h with first | ⟨s', first, rest⟩
    · exact ⟨[], i, l, s, rfl, rfl, first⟩
    · obtain ⟨before, j, after, t, rfl, earlier, step⟩ := ih rest
      exact ⟨i :: before, j, after, t, rfl, bind_eq_ok_iff.2 ⟨s', first, earlier⟩, step⟩

/-- Folds whose steps go side by side. -/
theorem exists_foldlM_of_forall₂ {R : σ → τ → Prop} {Q : ι → κ → Prop} {f : σ → ι → Except ε σ}
    {g : τ → κ → Except ε τ}
    (step : ∀ s t i k s', R s t → Q i k → f s i = .ok s' → ∃ t', g t k = .ok t' ∧ R s' t')
    {l : List ι} {m : List κ} (each : List.Forall₂ Q l m) {s s' : σ} {t : τ} (start : R s t)
    (h : l.foldlM f s = .ok s') : ∃ t', m.foldlM g t = .ok t' ∧ R s' t' := by
  induction each generalizing s t with
  | nil =>
    cases h
    exact ⟨t, rfl, start⟩
  | cons first _ ih =>
    obtain ⟨s₁, here, rest⟩ := bind_eq_ok_iff.1 h
    obtain ⟨t₁, there, next⟩ := step _ _ _ _ _ start first here
    obtain ⟨t', others, last⟩ := ih next rest
    exact ⟨t', bind_eq_ok_iff.2 ⟨t₁, there, others⟩, last⟩

/-- A fold over images, from a state that is an image, is the image of the fold. -/
theorem foldlM_map {f : σ → ι → Except ε σ} {g : τ → κ → Except ε τ} {h : σ → τ} {e : ι → κ}
    (step : ∀ s i, g (h s) (e i) = (f s i).map h) (l : List ι) (s : σ) :
    (l.map e).foldlM g (h s) = (l.foldlM f s).map h := by
  induction l generalizing s with
  | nil => rfl
  | cons i l ih =>
    rw [List.map_cons, List.foldlM_cons, List.foldlM_cons, step]
    cases f s i with
    | error => rfl
    | ok s' => exact ih s'

end Except

/-- Failing computations over a state, run one after the other. -/
theorem ExceptT.run_bind_stateM {ε σ α β : Type} (x : ExceptT ε (StateM σ) α)
    (f : α → ExceptT ε (StateM σ) β) (s : σ) :
    (x >>= f).run s = match x.run s with
      | (.ok a, s') => (f a).run s'
      | (.error e, s') => (.error e, s') := by
  rw [ExceptT.run_bind]
  change StateT.bind x.run _ s = _
  unfold StateT.bind
  rcases x.run s with ⟨_ | _, s'⟩ <;> rfl

/-- If no element fails or changes the state, neither does the list. -/
theorem ExceptT.run_mapM_stateM {ε σ α β : Type} {f : α → ExceptT ε (StateM σ) β} {g : α → β}
    {l : List α} {s : σ} (each : ∀ a ∈ l, (f a).run s = (.ok (g a), s)) :
    (l.mapM f).run s = (.ok (l.map g), s) := by
  induction l with
  | nil => rfl
  | cons a l ih =>
    rw [List.forall_mem_cons] at each
    rw [List.mapM_cons, run_bind_stateM, each.1]
    simp only
    rw [run_bind_stateM, ih each.2]
    rfl

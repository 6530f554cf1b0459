import BlockGraph.Checking.Checker
import BlockGraph.Proofs.Checking.Gains

/-!
# Steps of a run

What a step of the checker does to its state while a round lasts. A step stands for deeds, and a
step made of others stands for theirs.

* `CheckState.Fit`: what holds of the state of a run between its steps.
* `Checker.Checks`: a step keeps the state fit and stands for certain deeds.
* `Checker.Checks.bind`, `Checker.Checks.forM`: steps one after the other.
-/

namespace BlockGraph

/-- The state is in the given round, may warn of the declarations that it has met, and has noted the
methods that it knows. -/
structure CheckState.Fit (f : Frame) (round : Round) (s : CheckState) : Prop where
  round : s.round = round
  declared : ∀ d ∈ s.declared, f.Place d.1
  methods : ∀ name, s.methods.contains name = true →
    name ∈ s.collector.facts.facts Feature.methodNames

namespace Checker

open Collector

/-- In the given round, the step `x` stands for certain deeds. -/
def Checks {α : Type} (f : Frame) (round : Round) (x : Check α) (deeds : Deed → Prop) : Prop :=
  ∀ s : CheckState, s.Fit f round →
    (x.run s).2.Fit f round ∧ s.collector.Gains f deeds (x.run s).2.collector

namespace Checks

variable {α β : Type} {f : Frame} {round : Round} {x : Check α} {g : α → Check β}
  {deeds deeds' : Deed → Prop}

theorem congr (h : Checks f round x deeds) (same : ∀ deed, deeds deed ↔ deeds' deed) :
    Checks f round x deeds' :=
  fun s hs => ⟨(h s hs).1, (h s hs).2.congr same⟩

protected theorem pure (a : α) : Checks f round (pure a) fun _ => False := fun _ hs => ⟨hs, .refl⟩

/-- Nothing is done, and nothing has to be. -/
theorem idle (a : α) (none : ∀ deed, deeds deed → deed.Idle f.board f.display) :
    Checks f round (pure a) deeds := fun _ hs => ⟨hs, .idle none⟩

protected theorem bind (hx : Checks f round x deeds) (hg : ∀ a, Checks f round (g a) deeds') :
    Checks f round (x >>= g) fun deed => deeds deed ∨ deeds' deed := by
  intro s hs
  obtain ⟨hs', first⟩ := hx s hs
  obtain ⟨hs'', second⟩ := hg (x.run s).1 (x.run s).2 hs'
  exact ⟨hs'', first.trans second⟩

/-- A step also stands for a deed from which nothing follows. -/
theorem also (h : Checks f round x deeds) {extra : Deed} (idle : extra.Idle f.board f.display) :
    Checks f round x fun deed => deed = extra ∨ deeds deed := by
  intro s hs
  obtain ⟨hs', gains⟩ := h s hs
  have first : s.collector.Gains f (· = extra) s.collector := .idle fun deed h => h ▸ idle
  exact ⟨hs', first.trans gains⟩

/-- A step after one that stands for nothing. -/
protected theorem after (hx : Checks f round x fun _ => False)
    (hg : ∀ a, Checks f round (g a) deeds) : Checks f round (x >>= g) deeds :=
  (hx.bind hg).congr fun _ => or_iff_right not_false

/-- A step before one that stands for nothing. -/
protected theorem before (hx : Checks f round x deeds)
    (hg : ∀ a, Checks f round (g a) fun _ => False) : Checks f round (x >>= g) deeds :=
  (hx.bind hg).congr fun _ => or_iff_left not_false

protected theorem map (h : α → β) (hx : Checks f round x deeds) :
    Checks f round (h <$> x) deeds := hx

protected theorem discard (hx : Checks f round x deeds) :
    Checks f round (discard x) deeds := hx

/-- A step from the state that it depends on. -/
theorem get_bind_here {g : CheckState → Check β}
    (h : ∀ s, s.Fit f round → ((g s).run s).2.Fit f round ∧
      s.collector.Gains f deeds ((g s).run s).2.collector) :
    Checks f round (get >>= g) deeds := h

protected theorem get_bind {g : CheckState → Check β}
    (h : ∀ s, s.Fit f round → Checks f round (g s) deeds) :
    Checks f round (get >>= g) deeds := .get_bind_here fun s hs => h s hs s hs

/-- A step that touches nothing that a state needs to be fit. -/
protected theorem modify {g : CheckState → CheckState}
    (same : ∀ s, (g s).round = s.round ∧ (g s).declared = s.declared ∧
      (g s).methods = s.methods ∧ (g s).collector = s.collector) :
    Checks f round (modify g) fun _ => False := by
  intro s hs
  obtain ⟨rounds, declared, methods, collector⟩ := same s
  refine ⟨⟨rounds.trans hs.round, ?_, ?_⟩, ?_⟩
  · change ∀ d ∈ (g s).declared, f.Place d.1
    rw [declared]
    exact hs.declared
  · change ∀ name, (g s).methods.contains name = true →
      name ∈ (g s).collector.facts.facts Feature.methodNames
    rw [methods, collector]
    exact hs.methods
  · change s.collector.Gains f _ (g s).collector
    rw [collector]
    exact .refl

protected theorem collect {x : Collect α} (h : Gathers f x deeds) :
    Checks f round (collect x) deeds := by
  intro s hs
  have gains := h s.collector
  exact ⟨⟨hs.round, hs.declared, fun name known => gains.facts _ _ (hs.methods name known)⟩, gains⟩

protected theorem error {n : Node} (place : f.Place n) (code : DiagnosticCode) (message : String) :
    Checks f round (Checker.error n code message) fun _ => False :=
  .collect (.error place code message)

/-- What a list of steps stands for. -/
protected theorem forM {ι : Type} {l : List ι} {g : ι → Check PUnit} {deeds : ι → Deed → Prop}
    (each : ∀ i ∈ l, Checks f round (g i) (deeds i)) :
    Checks f round (l.forM g) fun deed => ∃ i ∈ l, deeds i deed := by
  induction l with
  | nil => exact (Checks.pure _).congr fun deed => by simp
  | cons i l ih =>
    change Checks f round (g i >>= fun _ => l.forM g) _
    refine ((each i List.mem_cons_self).bind fun _ => ih fun j hj =>
      each j (List.mem_cons_of_mem _ hj)).congr fun deed => ?_
    simp

theorem forM_silent {ι : Type} {l : List ι} {g : ι → Check PUnit}
    (each : ∀ i ∈ l, Checks f round (g i) fun _ => False) :
    Checks f round (l.forM g) fun _ => False :=
  (Checks.forM each).congr fun _ => by simp

protected theorem mapM {ι : Type} {l : List ι} {g : ι → Check α} {deeds : ι → Deed → Prop}
    (each : ∀ i ∈ l, Checks f round (g i) (deeds i)) :
    Checks f round (l.mapM g) fun deed => ∃ i ∈ l, deeds i deed := by
  induction l with
  | nil => exact (Checks.pure _).congr fun deed => by simp
  | cons i l ih =>
    rw [List.mapM_cons]
    refine ((each i List.mem_cons_self).bind fun _ => (ih fun j hj =>
      each j (List.mem_cons_of_mem _ hj)).bind fun _ => .pure _).congr fun deed => ?_
    simp

end Checks

/-! ## Parts of checks -/

/-- Checking a child stands for certain deeds, which are idle if the child is an empty expression.
An empty expression is not checked. -/
structure Stands (f : Frame) (round : Round) (child : Child) (deeds : Deed → Prop) : Prop where
  result : Checks f round child.result deeds
  empty : child.node.phrase.isEmptyExpr = true →
    ∀ deed, deeds deed → deed.Idle f.board f.display

namespace Checks

variable {f : Frame} {round : Round} {child chain : Child} {n : Node} {deeds : Deed → Prop}

protected theorem expect (parent : f.Place n) (h : Stands f round child deeds)
    (inside : child.node.phrase.isEmptyExpr = false → f.Place child.node) (want : ExprType)
    (what : String) : Checks f round (expect n child want what) deeds := by
  unfold expect
  split
  · next empty => exact .after (.error parent _ _) fun _ => .idle _ (h.empty empty)
  · next present =>
    refine .before h.result fun got => ?_
    dsimp only
    split
    · exact .pure _
    · exact .before (.error (inside (by simpa using present)) _ _) fun _ => .pure _

protected theorem body (h : Stands f round chain deeds) :
    Checks f round (body chain) deeds := h.result.discard

protected theorem loopBody (h : Stands f round chain deeds) :
    Checks f round (loopBody chain) deeds :=
  .after (.modify fun _ => ⟨rfl, rfl, rfl, rfl⟩) fun _ => .before (.body h) fun _ =>
    .modify fun _ => ⟨rfl, rfl, rfl, rfl⟩

protected theorem withScope {x : Check Unit} (h : Checks f round x deeds) :
    Checks f round (withScope x) deeds :=
  .get_bind fun _ _ => .before h fun _ => .modify fun _ => ⟨rfl, rfl, rfl, rfl⟩

protected theorem outsideLoops {x : Check Unit} (h : Checks f round x deeds) :
    Checks f round (outsideLoops x) deeds :=
  .get_bind fun _ _ => .after (.modify fun _ => ⟨rfl, rfl, rfl, rfl⟩) fun _ =>
    .before h fun _ => .modify fun _ => ⟨rfl, rfl, rfl, rfl⟩

protected theorem bindName (name : String) (type : ExprType) :
    Checks f round (Checker.bind n name type) fun _ => False :=
  .modify fun _ => ⟨rfl, rfl, rfl, rfl⟩

protected theorem lookup (place : f.Place n) (name : String) :
    Checks f round (lookup n name) fun _ => False := by
  refine .get_bind fun s _ => ?_
  split
  · exact .after (.modify fun _ => ⟨rfl, rfl, rfl, rfl⟩) fun _ => .pure _
  · exact .after (.error place _ _) fun _ => .pure _

protected theorem checkName (place : f.Place n) (name what : String) :
    Checks f round (checkName n name what) fun _ => False := by
  unfold checkName
  split
  · exact .pure _
  · exact .error place _ _

/-- A declaration is kept for the warnings at the end. -/
theorem keep (place : f.Place n) (name : String) :
    Checks f round (modify fun s => { s with declared := s.declared ++ [(n, name)] })
      fun _ => False := by
  intro s hs
  refine ⟨⟨hs.round, ?_, hs.methods⟩, .refl⟩
  exact List.forall_mem_append.2 ⟨hs.declared, by simpa using place⟩

protected theorem declare (place : f.Place n) (name : String) (type : ExprType) :
    Checks f round (declare n name type) fun _ => False := by
  refine .get_bind fun s _ => ?_
  split
  · exact .error place _ _
  · exact .after (.bindName name type) fun _ => .after (.keep place name) fun _ =>
      .collect (.record (by decide))

/-- A method is noted, or was noted before under the same name. -/
protected theorem define {name : String} {chain : Node} (method : n.phrase = .methodDef name chain)
    (place : f.Place n) : Checks f round (define n name) (· = .define n) := by
  refine .after (.checkName place name _) fun _ => .get_bind_here fun s hs => ?_
  split
  · next known =>
    obtain ⟨fit, gains⟩ := Checks.error place _ _ s hs
    exact ⟨fit, gains.defined method (hs.methods name known)⟩
  · -- the names that the state knows agree with the facts only after both have changed
    have gains : s.collector.Gains f (· = .define n) _ := .define method
    refine ⟨⟨hs.round, hs.declared, fun name' known => ?_⟩, gains⟩
    change (s.methods.add name).contains name' = true at known
    rw [SortedMap.contains, SortedSet.add, SortedMap.get?_insert] at known
    refine Facts.mem_facts_record.2 ?_
    split at known
    · next same => exact .inr ⟨rfl, same⟩
    · exact .inl (hs.methods name' known)

end Checks

end Checker

end BlockGraph

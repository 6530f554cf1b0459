import BlockGraph.Proofs.Checking.Identity
import BlockGraph.Proofs.Checking.Overlooks
import BlockGraph.Proofs.Decimal
import BlockGraph.Proofs.Rewrite.Folding

/-!
# Runs on folded programs

On a platform that looks at no operands, a run cannot tell whether a program was folded. An
operator on constants is checked in silence and has the type of the constant that replaces it; this
is also true of inactive operands, which fit everywhere.

* `Checker.check_of_step`: an operator on constants is checked like the constant it comes to.
* `Platform.overlooks_foldTop`: no check tells a node from the folded one.
* `Program.gist_validate_foldConstants`: a run of folding on a program that was read changes
  nothing that a run on a default platform says.
-/

namespace BlockGraph

namespace Checker

variable {platform : Platform} {n : Node}

/-! ## Constants -/

/-- The result of a check that has the type `type` if the node is active, and says nothing. -/
def silently (n : Node) (type : ExprType) : Check (Option ExprType) :=
  pure (if n.isActive then some type else none)

theorem check_of_number? {x : Float} (h : n.number? = some x) :
    check platform n = silently n .number := by
  unfold Node.number? at h
  split at h
  · next text constant =>
    have read : (readNumber? text).isSome = true := by rw [h, Option.isSome_some]
    rw [check_eq, constant, silently]
    simp only [Phrase.map, handler, read, if_true]
    split <;> rfl
  · cases h

theorem check_of_boolean? {b : Bool} (h : n.boolean? = some b) :
    check platform n = silently n .boolean := by
  unfold Node.boolean? at h
  split at h
  · next value constant =>
    rw [check_eq, constant, silently]
    split <;> rfl
  · cases h

/-- An operand that is checked in silence fits where its type is asked for. -/
theorem expect_of_silently {parent : Node} {type want : ExprType} {what : String}
    (present : n.phrase.isEmptyExpr = false) (silent : check platform n = silently n type)
    (fits : type.fits want = true) :
    expect parent (checked platform n) want what =
      pure (if n.isActive then type else .unknown) := by
  unfold expect checked
  rw [silent]
  simp only [present, Bool.false_eq_true, if_false, silently, pure_bind]
  cases n.isActive
  · simp
  · simp [fits]

/-- An operator on constants is checked in silence, like the constant that it comes to. -/
theorem check_of_step {h : Header} {p q : Phrase Node} (step : Folding.Step p q) :
    check platform (.mk h p) = check platform (.mk h q) := by
  have number {x : Float} (l : Node) (left : l.number? = some x) (parent : Node) (what : String)
      (want : ExprType) (fits : ExprType.number.fits want = true) :
      expect parent (checked platform l) want what =
        pure (if l.isActive then .number else .unknown) :=
    expect_of_silently (Node.isEmptyExpr_of_number? left) (check_of_number? left) fits
  have boolean {b : Bool} (l : Node) (left : l.boolean? = some b) (parent : Node) (what : String)
      (want : ExprType) (fits : ExprType.boolean.fits want = true) :
      expect parent (checked platform l) want what =
        pure (if l.isActive then .boolean else .unknown) :=
    expect_of_silently (Node.isEmptyExpr_of_boolean? left) (check_of_boolean? left) fits
  have silent (type : ExprType) : silently (.mk h q) type =
      if h.attributes.isActive then pure (some type) else pure none := by
    unfold silently
    exact apply_ite pure _ _ _
  cases step with
  | @arithmetic op l r a b x left right result =>
    obtain ⟨y, read⟩ := Option.isSome_iff_exists.1 (Folding.isSome_readNumber?_spellNumber x)
    rw [check_of_number? (n := .mk h (.numConst _)) (x := y) read, silent, check_eq]
    simp only [Node.phrase_mk, Phrase.map, handler, number l left _ _ .number rfl,
      number r right _ _ .number rfl]
    rfl
  | @numbers op l r a b left right =>
    have fits : ExprType.number.fits (if op.isOrdering then .number else .unknown) = true := by
      cases op <;> rfl
    rw [check_of_boolean? (n := .mk h (.boolConst _)) rfl, silent, check_eq]
    simp only [Node.phrase_mk, Phrase.map, handler, number l left _ _ _ fits,
      number r right _ _ _ fits, pure_bind]
    cases l.isActive <;> cases r.isActive <;> rfl
  | @booleans op l r a b v left right result =>
    -- truth values have no order, so any operand is wanted
    have fits : ExprType.boolean.fits (if op.isOrdering then .number else .unknown) = true := by
      cases op <;> first | rfl | cases result
    rw [check_of_boolean? (n := .mk h (.boolConst _)) rfl, silent, check_eq]
    simp only [Node.phrase_mk, Phrase.map, handler, boolean l left _ _ _ fits,
      boolean r right _ _ _ fits, pure_bind]
    cases l.isActive <;> cases r.isActive <;> rfl
  | @logic op l r a b left right =>
    rw [check_of_boolean? (n := .mk h (.boolConst _)) rfl, silent, check_eq]
    simp only [Node.phrase_mk, Phrase.map, handler, boolean l left _ _ .boolean rfl,
      boolean r right _ _ .boolean rfl]
    rfl
  | @negate operand a inner =>
    rw [check_of_boolean? (n := .mk h (.boolConst _)) rfl, silent, check_eq]
    simp only [Node.phrase_mk, Phrase.map, handler, boolean operand inner _ _ .boolean rfl]
    rfl

end Checker

open Checker Folding in
/-- No check tells an operator on constants from the constant, and no method or start block is
folded. -/
theorem Platform.overlooks_foldTop (board : Board) :
    ({ board } : Platform).Overlooks {} foldTop where
  header := header_foldTop
  missing := isEmptyExpr_foldTop
  number looked := by rcases looked with looked | looked <;> cases looked
  text looked := by cases looked
  statements n := by rw [statements_foldTop]
  define n := by
    unfold defineIfMethod
    rcases step : fold? n.phrase with _ | q
    · rw [foldTop, step]
    · rw [foldTop, step]
      cases phrase : n.phrase <;> rw [phrase] at step <;> cases step_of_fold? step <;> rfl
  start n := by
    unfold Node.kind
    rcases phrase_foldTop n with same | step
    · rw [same]
    · generalize n.phrase = p, (foldTop n).phrase = q at step
      cases step <;> exact iff_of_false Kind.noConfusion Kind.noConfusion
  check n := by
    obtain ⟨h, p⟩ := n
    rcases step : fold? p with _ | q
    · rw [foldTop, Node.phrase_mk, step]
    · rw [foldTop, Node.phrase_mk, step]
      exact (check_of_step (step_of_fold? step)).symm

/-- On a platform with the checks that it has unless it brings its own, a run of constant folding
on a program that was read changes nothing that a run says. -/
theorem Program.gist_validate_foldConstants {registry : KindRegistry} {d : Document} {p : Program}
    {s s' : Supply} (read : (ofDocument registry d).run s = (.ok p, s')) {t : Supply}
    (later : s'.next ≤ t.next) (k : Nat) :
    ∃ q k' t', (p.foldConstants.runFrom k).run t = (.ok (q, k'), t') ∧
      ∀ (board : Board) (config : HardwareConfig),
        (({ board } : Platform).validate q config).gist =
          (({ board } : Platform).validate p config).gist := by
  obtain ⟨q, u, given, content, distinct, -⟩ := exists_folds read (t := (k, t)) later
  refine ⟨q, u.1, u.2, Rewriting.runFrom_eq_ok_iff.2 given, fun board config => ?_⟩
  have sees := Platform.seesOnly_default board
  have folded : p.folded.ids.Nodup := (ids_of_ofDocument read).2.1.sublist (ids_folded_sublist p)
  rw [Platform.gist_validate_of_plain sees content distinct folded]
  exact (Platform.overlooks_foldTop board).gist_validate_mapNodes sees p config

/-- Folding a sum inside a product is not noticed. -/
theorem Program.gist_validate_foldConstants_product :
    ∃ s, (ofDocument .core product).run {} = (.ok productProgram, s) ∧
      ∃ q k' t', (productProgram.foldConstants.runFrom 0).run s = (.ok (q, k'), t') ∧
        ∀ (board : Board) (config : HardwareConfig),
          (({ board } : Platform).validate q config).gist =
            (({ board } : Platform).validate productProgram config).gist := by
  obtain ⟨s, read⟩ := exists_ofDocument_product
  exact ⟨s, read, gist_validate_foldConstants read (Nat.le_refl _) 0⟩

end BlockGraph

import BlockGraph.Rewrite.Folding

/-!
# The two zeros

Floats have two zeros, which are the same number. Arithmetic may change its result from one zero to
the other when its operands do, and nothing else changes; comparisons cannot tell them apart.

* `SameNumber`: equality of floats up to the sign of zero.
* `Folding.arith_same`: arithmetic up to the sign of zero.
* `Folding.compareNumbers_same`: comparisons.
-/

namespace BlockGraph

open Float.Model (UnpackedFloat Format)

/-- Two floats are equal, or both are zeros. -/
def SameNumber (a b : Float) : Prop := a = b ∨ (a == 0) = true ∧ (b == 0) = true

theorem SameNumber.refl (a : Float) : SameNumber a a := .inl rfl

theorem SameNumber.trans {a b c : Float} (h : SameNumber a b) (h' : SameNumber b c) :
    SameNumber a c := by
  rcases h with rfl | ⟨left, middle⟩
  · exact h'
  · rcases h' with rfl | ⟨-, right⟩
    · exact .inr ⟨left, middle⟩
    · exact .inr ⟨left, right⟩

/-! ## Unpacked floats -/

/-- What `SameNumber` is for unpacked floats. -/
inductive SameUnpacked : UnpackedFloat → UnpackedFloat → Prop
  | refl (u : UnpackedFloat) : SameUnpacked u u
  | zeros (s t : UnpackedFloat.Sign) : SameUnpacked (.zero s) (.zero t)

namespace SameUnpacked

variable {u u' v v' : UnpackedFloat} (format : Format)

theorem of_zeros (left : ∃ s, u = .zero s) (right : ∃ s, v = .zero s) : SameUnpacked u v := by
  obtain ⟨s, rfl⟩ := left
  obtain ⟨t, rfl⟩ := right
  exact .zeros s t

theorem add_zeros (s t : UnpackedFloat.Sign) :
    ∃ r, UnpackedFloat.add format (.zero s) (.zero t) = .zero r := by
  cases s <;> cases t <;> exact ⟨_, rfl⟩

theorem sub_zeros (s t : UnpackedFloat.Sign) :
    ∃ r, UnpackedFloat.sub format (.zero s) (.zero t) = .zero r := by
  cases s <;> cases t <;> exact ⟨_, rfl⟩

theorem add (left : SameUnpacked u u') (right : SameUnpacked v v') :
    SameUnpacked (.add format u v) (.add format u' v') := by
  cases left with
  | refl =>
    cases right with
    | refl => exact .refl _
    | zeros =>
      cases u with
      | zero => exact of_zeros (add_zeros format _ _) (add_zeros format _ _)
      | _ => exact .refl _
  | zeros =>
    cases right with
    | refl =>
      cases v with
      | zero => exact of_zeros (add_zeros format _ _) (add_zeros format _ _)
      | _ => exact .refl _
    | zeros => exact of_zeros (add_zeros format _ _) (add_zeros format _ _)

theorem sub (left : SameUnpacked u u') (right : SameUnpacked v v') :
    SameUnpacked (.sub format u v) (.sub format u' v') := by
  cases left with
  | refl =>
    cases right with
    | refl => exact .refl _
    | zeros =>
      cases u with
      | zero => exact of_zeros (sub_zeros format _ _) (sub_zeros format _ _)
      | _ => exact .refl _
  | zeros =>
    cases right with
    | refl =>
      cases v with
      | zero => exact of_zeros (sub_zeros format _ _) (sub_zeros format _ _)
      | _ => exact .refl _
    | zeros => exact of_zeros (sub_zeros format _ _) (sub_zeros format _ _)

theorem mul (left : SameUnpacked u u') (right : SameUnpacked v v') :
    SameUnpacked (.mul format u v) (.mul format u' v') := by
  cases left with
  | refl =>
    cases right with
    | refl => exact .refl _
    | zeros => cases u <;> first | exact .refl _ | exact .zeros _ _
  | zeros =>
    cases right with
    | refl => cases v <;> first | exact .refl _ | exact .zeros _ _
    | zeros => exact .zeros _ _

/-- The divisor is not exchanged. -/
theorem div (left : SameUnpacked u u') (nonzero : ∀ s, v ≠ .zero s) :
    SameUnpacked (.div format u v) (.div format u' v) := by
  cases left with
  | refl => exact .refl _
  | zeros =>
    cases v with
    | zero s => exact absurd rfl (nonzero s)
    | notANumber => exact .refl _
    | _ => exact .zeros _ _

theorem compare (left : SameUnpacked u u') (right : SameUnpacked v v') :
    u.compare v = u'.compare v' := by
  cases left with
  | refl =>
    cases right with
    | refl => rfl
    | zeros =>
      rcases u with s | _ | s | s
      · cases s <;> rfl
      · rfl
      · rfl
      · cases s <;> rfl
  | zeros =>
    cases right with
    | refl =>
      rcases v with s | _ | s | s
      · cases s <;> rfl
      · rfl
      · rfl
      · cases s <;> rfl
    | zeros => rfl

theorem isFinite (same : SameUnpacked u u') : u.isFinite = u'.isFinite := by
  cases same <;> rfl

end SameUnpacked

/-! ## Floats -/

theorem beq_zero_iff {a : Float} : (a == 0) = true ↔ ∃ s, a.toModel.unpack = .zero s := by
  have zero : (0 : Float).toModel.unpack = .zero .positive := by rfl
  change (a.toModel.unpack.compare (0 : Float).toModel.unpack == some .eq) = true ↔ _
  rw [zero]
  rcases a.toModel.unpack with s | _ | s | s
  · exact iff_of_false (by cases s <;> decide) (by rintro ⟨t, ⟨⟩⟩)
  · exact iff_of_false (by decide) (by rintro ⟨t, ⟨⟩⟩)
  · exact iff_of_true rfl ⟨s, rfl⟩
  · exact iff_of_false (by cases s <;> exact Bool.false_ne_true) (by rintro ⟨t, ⟨⟩⟩)

theorem SameNumber.unpacked {a b : Float} (h : SameNumber a b) :
    SameUnpacked a.toModel.unpack b.toModel.unpack := by
  rcases h with rfl | ⟨left, right⟩
  · exact .refl _
  · obtain ⟨s, left⟩ := beq_zero_iff.1 left
    obtain ⟨t, right⟩ := beq_zero_iff.1 right
    rw [left, right]
    exact .zeros s t

theorem SameUnpacked.packed {u v : UnpackedFloat} (h : SameUnpacked u v) :
    SameNumber ⟨.pack u⟩ ⟨.pack v⟩ := by
  have zero (s : UnpackedFloat.Sign) : ((⟨.pack (.zero s)⟩ : Float) == 0) = true := by
    cases s <;> rfl
  cases h with
  | refl => exact .refl _
  | zeros s t => exact .inr ⟨zero s, zero t⟩

theorem SameNumber.isFinite {a b : Float} (h : SameNumber a b) : a.isFinite = b.isFinite :=
  h.unpacked.isFinite

/-- A number that is not zero has one form only. -/
theorem SameNumber.eq_of_ne_zero {a b : Float} (h : SameNumber a b) (nonzero : (a == 0) = false) :
    a = b := by
  rcases h with same | ⟨zero, -⟩
  · exact same
  · rw [nonzero] at zero
    cases zero

theorem SameNumber.beq_zero {a b : Float} (h : SameNumber a b) : (a == 0) = (b == 0) := by
  rcases h with rfl | ⟨left, right⟩
  · rfl
  · rw [left, right]

namespace Folding

/-! ## Arithmetic -/

variable {a a' b b' : Float}

/-- A power does not depend on the signs of zeros in the operands, but for the sign of a zero. -/
def PowerSame : Prop := ∀ {a a' b b' : Float}, SameNumber a a' → SameNumber b b' →
  Option.Rel SameNumber (arith .power a b) (arith .power a' b')

theorem finite_same {x y : Float} (same : SameNumber x y) :
    Option.Rel SameNumber (if x.isFinite then some x else none)
      (if y.isFinite then some y else none) := by
  rw [same.isFinite]
  split
  · exact .some same
  · exact .none

/-- Arithmetic on the same numbers comes to the same number, or to none on both sides. -/
theorem arith_same {op : ArithOp} (power : op = .power → PowerSame) (left : SameNumber a a')
    (right : SameNumber b b') : Option.Rel SameNumber (arith op a b) (arith op a' b') := by
  cases op with
  | add => exact finite_same (left.unpacked.add _ right.unpacked).packed
  | minus => exact finite_same (left.unpacked.sub _ right.unpacked).packed
  | multiply => exact finite_same (left.unpacked.mul _ right.unpacked).packed
  | divide =>
    dsimp only [arith]
    rw [← right.beq_zero]
    by_cases zero : (b == 0) = true
    · rw [if_pos zero, if_pos zero]
      exact .none
    · rw [if_neg zero, if_neg zero, ← right.eq_of_ne_zero (Bool.eq_false_iff.2 zero)]
      refine finite_same (left.unpacked.div _ fun s none => ?_).packed
      exact zero (beq_zero_iff.2 ⟨s, none⟩)
  | power => exact power rfl left right

/-- Comparisons cannot tell the two zeros apart. -/
theorem compareNumbers_same (op : CompareOp) (left : SameNumber a a') (right : SameNumber b b') :
    compareNumbers op a b = compareNumbers op a' b' := by
  have beq : (a == b) = (a' == b') := by
    change (a.toModel.unpack.compare b.toModel.unpack == some .eq) =
      (a'.toModel.unpack.compare b'.toModel.unpack == some .eq)
    rw [left.unpacked.compare right.unpacked]
  have lt {x x' y y' : Float} (first : SameNumber x x') (second : SameNumber y y') :
      x < y ↔ x' < y' := by
    change decide ((x.toModel.unpack.compare y.toModel.unpack == some .lt) = true) = true ↔
      decide ((x'.toModel.unpack.compare y'.toModel.unpack == some .lt) = true) = true
    rw [first.unpacked.compare second.unpacked]
  have le {x x' y y' : Float} (first : SameNumber x x') (second : SameNumber y y') :
      x ≤ y ↔ x' ≤ y' := by
    change decide ((x.toModel.unpack.compare y.toModel.unpack).any (·.isLE) = true) = true ↔
      decide ((x'.toModel.unpack.compare y'.toModel.unpack).any (·.isLE) = true) = true
    rw [first.unpacked.compare second.unpacked]
  cases op with
  | eq => exact beq
  | neq => exact congrArg (!·) beq
  | lt => exact decide_eq_decide.2 (lt left right)
  | lte => exact decide_eq_decide.2 (le left right)
  | gt => exact decide_eq_decide.2 (lt right left)
  | gte => exact decide_eq_decide.2 (le right left)

end Folding

end BlockGraph

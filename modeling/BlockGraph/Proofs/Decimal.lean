import BlockGraph.Node.Constant
import BlockGraph.Rewrite.Folding
import Mathlib.Algebra.Group.Nat.Defs
import Mathlib.Data.List.Basic

/-!
# Decimals

The digits of a number and the number of some digits:

* `toDigits_ofDigits`: digits without a needless zero in front are those of their number.
* `toDigits_ne_zero_cons`: the digits of a number have no needless zero in front.

What is written of a float is a numeral (`isSome_readNumber?_spellNumber`).
-/

namespace BlockGraph.Decimal

theorem ofDigits_eq (ds : List Char) : ofDigits ds = Nat.ofDigitChars 10 ds 0 := rfl

theorem digitChar_of_isDigit {c : Char} (h : c.isDigit = true) :
    ∃ d < 10, c = Nat.digitChar d ∧ c.toNat - '0'.toNat = d := by
  simp only [Char.isDigit, Bool.and_eq_true, decide_eq_true_eq, UInt32.le_iff_toNat_le] at h
  obtain ⟨low, high⟩ := h
  change 48 ≤ c.toNat at low
  change c.toNat ≤ 57 at high
  obtain ⟨d, hd, e⟩ : ∃ d < 10, c.toNat = 48 + d := ⟨c.toNat - 48, by omega, by omega⟩
  have chars : ∀ d < 10, Char.ofNat (48 + d) = Nat.digitChar d := by decide
  refine ⟨d, hd, ?_, ?_⟩
  · rw [← Char.ofNat_toNat c, e, chars d hd]
  · change c.toNat - 48 = d
    omega

/-- Digits that follow a positive number are the end of its decimals. -/
theorem toDigits_ofDigitChars {ds : List Char} (digits : ds.all Char.isDigit = true) {n : Nat}
    (pos : 0 < n) : Nat.toDigits 10 (Nat.ofDigitChars 10 ds n) = Nat.toDigits 10 n ++ ds := by
  induction ds generalizing n with
  | nil => simp
  | cons c ds ih =>
    simp only [List.all_cons, Bool.and_eq_true] at digits
    obtain ⟨d, hd, rfl, value⟩ := digitChar_of_isDigit digits.1
    rw [Nat.ofDigitChars_cons, value, ih digits.2 (by omega),
      ← Nat.toDigits_append_toDigits (by decide) pos hd, Nat.toDigits_of_lt_base hd]
    simp

/-- Digits without a needless zero in front are the decimals of their number. -/
theorem toDigits_ofDigits {ds : List Char} (digits : ds.all Char.isDigit = true) (ne : ds ≠ [])
    (canonical : ∀ c cs, ds ≠ '0' :: c :: cs) : Nat.toDigits 10 (ofDigits ds) = ds := by
  obtain ⟨c, cs, rfl⟩ := List.exists_cons_of_ne_nil ne
  simp only [List.all_cons, Bool.and_eq_true] at digits
  obtain ⟨d, hd, rfl, value⟩ := digitChar_of_isDigit digits.1
  rw [ofDigits_eq, Nat.ofDigitChars_cons, value, Nat.mul_zero, Nat.zero_add]
  rcases Nat.eq_zero_or_pos d with rfl | pos
  · cases cs with
    | nil => rfl
    | cons c cs => exact absurd rfl (canonical c cs)
  · rw [toDigits_ofDigitChars digits.2 pos, Nat.toDigits_of_lt_base hd, List.singleton_append]

theorem ofDigits_toDigits (n : Nat) : ofDigits (Nat.toDigits 10 n) = n := by
  rw [ofDigits_eq, Nat.ofDigitChars_ten_toDigits]

theorem toDigits_all_isDigit (n : Nat) : (Nat.toDigits 10 n).all Char.isDigit = true :=
  List.all_eq_true.2 fun _ hc => Nat.isDigit_of_mem_toDigits (by decide) (by decide) hc

/-- Digits spell a number with no more decimals than there are digits. -/
theorem ofDigits_lt {ds : List Char} (digits : ds.all Char.isDigit = true) :
    ofDigits ds < 10 ^ ds.length := by
  induction ds with
  | nil => simp
  | cons c ds ih =>
    simp only [List.all_cons, Bool.and_eq_true] at digits
    obtain ⟨d, hd, rfl, value⟩ := digitChar_of_isDigit digits.1
    rw [ofDigits_eq, Nat.ofDigitChars_cons, value, Nat.ofDigitChars_eq_ofDigitChars_zero,
      ← ofDigits_eq, List.length_cons, Nat.pow_succ]
    have tail := ih digits.2
    have head : 10 ^ ds.length * (10 * 0 + d) ≤ 10 ^ ds.length * 9 :=
      Nat.mul_le_mul_left _ (by omega)
    omega

/-- Decimals have no needless zero in front: without it the number would have fewer digits. -/
theorem toDigits_ne_zero_cons (n : Nat) (c : Char) (cs : List Char) :
    Nat.toDigits 10 n ≠ '0' :: c :: cs := by
  intro h
  have digits := toDigits_all_isDigit n
  rw [h, List.all_cons, Bool.and_eq_true] at digits
  have value := ofDigits_toDigits n
  rw [h, ofDigits_eq, Nat.ofDigitChars_cons] at value
  have small : n < 10 ^ (c :: cs).length := value ▸ ofDigits_lt digits.2
  have short := (Nat.length_toDigits_le_iff (by decide) (by simp)).2 small
  rw [h] at short
  simp only [List.length_cons] at short
  omega

/-! ## Written floats -/

/-- Digits, at least one of them, and maybe a point with more digits. -/
inductive Plain : List Char → Prop
  | whole {ds : List Char} (ne : ds ≠ []) (digits : ds.all Char.isDigit = true) : Plain ds
  | fraction {ds fs : List Char} (ne : ds ≠ []) (digits : ds.all Char.isDigit = true)
      (fraction : fs.all Char.isDigit = true) : Plain (ds ++ '.' :: fs)

theorem all_isDigit_replicate (n : Nat) : (List.replicate n '0').all Char.isDigit = true := by
  rw [List.all_replicate]
  split <;> rfl

theorem all_isDigit_dropZeros {ds : List Char} (h : ds.all Char.isDigit = true) :
    (dropZeros ds).all Char.isDigit = true := by
  rw [List.all_eq_true] at h ⊢
  intro c hc
  rw [dropZeros, List.mem_reverse] at hc
  exact h c (List.mem_reverse.1 ((List.dropWhile_sublist _).subset hc))

theorem all_isDigit_digitsOf (tie : Tie) (bits : UInt64) :
    (digitsOf tie bits).digits.all Char.isDigit = true := by
  unfold digitsOf
  dsimp only
  split
  · exact all_isDigit_dropZeros (toDigits_all_isDigit _)
  · rfl

theorem plain_positionalText {d : Digits} (digits : d.digits.all Char.isDigit = true) :
    Plain (positionalText false d) := by
  unfold positionalText
  split
  · refine @Plain.fraction ['0'] _ (by simp) rfl ?_
    rw [List.all_append, all_isDigit_replicate, digits, Bool.and_self]
  · next pos =>
    rw [← List.take_append_drop d.point.natAbs d.digits, List.all_append,
      Bool.and_eq_true] at digits
    have padded : (d.digits.take d.point.natAbs ++
        List.replicate (d.point.natAbs - (d.digits.take d.point.natAbs).length) '0').all
          Char.isDigit = true := by
      rw [List.all_append, digits.1, all_isDigit_replicate, Bool.and_self]
    have ne : d.digits.take d.point.natAbs ++
        List.replicate (d.point.natAbs - (d.digits.take d.point.natAbs).length) '0' ≠ [] := by
      intro none
      have length := congrArg List.length none
      simp only [List.length_append, List.length_replicate, List.length_nil] at length
      omega
    dsimp only
    split
    · simpa using Plain.whole ne padded
    · exact .fraction ne padded digits.2

theorem spanDigits_append {ds cs : List Char} (digits : ds.all Char.isDigit = true)
    (stop : ∀ c ∈ cs.head?, c.isDigit = false) : spanDigits (ds ++ cs) = (ds, cs) := by
  rw [List.all_eq_true] at digits
  have rest : cs.takeWhile Char.isDigit = [] ∧ cs.dropWhile Char.isDigit = cs := by
    cases cs with
    | nil => exact ⟨rfl, rfl⟩
    | cons c cs => simp [stop c rfl]
  rw [spanDigits, List.takeWhile_append_of_pos digits, List.dropWhile_append_of_pos digits,
    rest.1, rest.2, List.append_nil]

theorem isSome_readFinite? {cs : List Char} (h : Plain cs) (negative : Bool) :
    (Numeral.readFinite? negative cs).isSome := by
  cases h with
  | whole ne digits =>
    have span := @spanDigits_append cs [] digits (by simp)
    rw [List.append_nil] at span
    simp [Numeral.readFinite?, span, ne, Numeral.readExponent?]
  | @fraction ds fs ne digits fraction =>
    have span := @spanDigits_append ds ('.' :: fs) digits (by simp)
    have rest := @spanDigits_append fs [] fraction (by simp)
    rw [List.append_nil] at rest
    simp [Numeral.readFinite?, span, rest, ne, Numeral.readExponent?]

theorem Plain.exists_cons {cs : List Char} (h : Plain cs) :
    ∃ d < 10, ∃ rest, cs = Nat.digitChar d :: rest := by
  have first {ds : List Char} (ne : ds ≠ []) (digits : ds.all Char.isDigit = true) :
      ∃ d < 10, ∃ rest, ds = Nat.digitChar d :: rest := by
    obtain ⟨c, rest, rfl⟩ := List.exists_cons_of_ne_nil ne
    rw [List.all_cons, Bool.and_eq_true] at digits
    obtain ⟨d, hd, rfl, -⟩ := digitChar_of_isDigit digits.1
    exact ⟨d, hd, rest, rfl⟩
  cases h with
  | whole ne digits => exact first ne digits
  | fraction ne digits =>
    obtain ⟨d, hd, rest, rfl⟩ := first ne digits
    exact ⟨d, hd, _, rfl⟩

/-- A sign may stand in front of digits. -/
theorem isSome_read? {cs : List Char} (h : Plain cs) (sign : Bool) :
    (Numeral.read? ((if sign then ['-'] else []) ++ cs)).isSome := by
  obtain ⟨d, hd, rest, rfl⟩ := h.exists_cons
  have start : ∀ d < 10, Nat.digitChar d ≠ '-' ∧ Nat.digitChar d ≠ '+' ∧
      (Nat.digitChar d).toLower ≠ 'i' ∧ (Nat.digitChar d).toLower ≠ 'n' := by decide
  obtain ⟨minus, plus, i, n⟩ := start d hd
  have split : Numeral.splitSign ((if sign then ['-'] else []) ++ Nat.digitChar d :: rest) =
      (sign, Nat.digitChar d :: rest) := by
    cases sign with
    | true => rfl
    | false =>
      change Numeral.splitSign (Nat.digitChar d :: rest) = _
      unfold Numeral.splitSign
      split
      · next same => exact absurd (List.cons.inj same).1 minus
      · next same => exact absurd (List.cons.inj same).1 plus
      · rfl
  rw [Numeral.read?, split]
  simp [i, n, isSome_readFinite? h]

/-! ### White space -/

theorem trim_of_none {cs : List Char} (h : ∀ c ∈ cs, Text.isWhiteSpace c = false) :
    Text.trim cs = cs := by
  have front {ds : List Char} (h : ∀ c ∈ ds, Text.isWhiteSpace c = false) :
      ds.dropWhile Text.isWhiteSpace = ds := by
    cases ds with
    | nil => rfl
    | cons c ds => rw [List.dropWhile_cons_of_neg]; simp [h]
  rw [Text.trim, front h, front (by simpa using h), List.reverse_reverse]

theorem isWhiteSpace_of_isDigit {c : Char} (h : c.isDigit = true) :
    Text.isWhiteSpace c = false := by
  obtain ⟨d, hd, rfl, -⟩ := digitChar_of_isDigit h
  have none : ∀ d < 10, Text.isWhiteSpace (Nat.digitChar d) = false := by decide
  exact none d hd

theorem Plain.isWhiteSpace {cs : List Char} (h : Plain cs) :
    ∀ c ∈ cs, Text.isWhiteSpace c = false := by
  intro c hc
  cases h with
  | whole _ digits => exact isWhiteSpace_of_isDigit (List.all_eq_true.1 digits c hc)
  | fraction _ digits fraction =>
    rcases List.mem_append.1 hc with hc | hc
    · exact isWhiteSpace_of_isDigit (List.all_eq_true.1 digits c hc)
    · rcases List.mem_cons.1 hc with rfl | hc
      · rfl
      · exact isWhiteSpace_of_isDigit (List.all_eq_true.1 fraction c hc)

/-- The texts of written floats are those of numbers. -/
theorem isSome_readNumber? {cs : List Char} (h : Plain cs) (sign : Bool) :
    (readNumber? (String.ofList ((if sign then ['-'] else []) ++ cs))).isSome := by
  have trimmed : Text.trim ((if sign then ['-'] else []) ++ cs) =
      (if sign then ['-'] else []) ++ cs := by
    refine trim_of_none fun c hc => ?_
    rcases List.mem_append.1 hc with hc | hc
    · cases sign with
      | true =>
        rw [if_pos rfl, List.mem_singleton] at hc
        rw [hc]
        rfl
      | false => cases hc
    · exact h.isWhiteSpace c hc
  rw [readNumber?, String.toList_ofList, trimmed, Option.isSome_map]
  exact isSome_read? h sign

end BlockGraph.Decimal

namespace BlockGraph.Folding

open Decimal

/-- Whatever number is spelled, its text is that of a number. -/
theorem isSome_readNumber?_spellNumber (x : Float) : (readNumber? (spellNumber x)).isSome := by
  unfold spellNumber shortest Layout.write
  split
  · rfl
  · split
    · rfl
    · dsimp only
      split
      · split <;> rfl
      · have magnitude (bits : UInt64) : Plain (plain.magnitudeText bits) := by
          unfold Layout.magnitudeText
          split
          · exact .whole (List.cons_ne_nil _ _) rfl
          · exact plain_positionalText (all_isDigit_digitsOf _ _)
        split
        · exact isSome_readNumber? (magnitude _) false
        · exact isSome_readNumber? (magnitude _) true

end BlockGraph.Folding

import BlockGraph.Proofs.Json.Unambiguous

/-!
# The lines of a text

Line breaks stand between the parts of a value only, and every line begins with the blanks of its
level. So what the members of the outermost object begin with stands at the beginning of their own
lines only.

* `Json.Avoids`: no line after the first begins with a given key.
* `Json.avoids_prettyAt`: the texts of values below the outermost one.
* `Json.pretty_obj`: the text of an object, line by line up to its second member.
-/

namespace BlockGraph.Json

/-! ## Texts without line breaks -/

theorem lineBreak_not_mem_textChar (c : Char) : '\n' ∉ textChar c := by
  have control : ∀ n < 0x20, '\n' ≠ Nat.digitChar (n / 16) ∧ '\n' ≠ Nat.digitChar (n % 16) := by
    decide
  by_cases ending : c = '\n'
  · rw [ending]
    decide
  · unfold textChar
    split
    case h_8 =>
      split
      · next small =>
        obtain ⟨high, low⟩ := control _ small
        simp [high, low]
      · simpa using Ne.symm ending
    all_goals decide

theorem lineBreak_not_mem_textLiteral (text : String) : '\n' ∉ textLiteral text := by
  have inside : '\n' ∉ text.toList.flatMap textChar := by
    intro h
    obtain ⟨c, -, h⟩ := List.mem_flatMap.1 h
    exact lineBreak_not_mem_textChar c h
  simp [textLiteral, inside]

/-- Numbers are written without line breaks, whatever the base is. -/
theorem lineBreak_not_mem_toDigits {b : Nat} (base : 1 < b) (n : Nat) :
    '\n' ∉ Nat.toDigits b n := by
  have digit (m : Nat) : '\n' ≠ Nat.digitChar m := (Nat.digitChar_ne '\n' (by decide)).symm
  induction n using Nat.strongRecOn with
  | _ n ih =>
    by_cases small : n < b
    · rw [Nat.toDigits_of_lt_base small, List.mem_singleton]
      exact digit n
    · rw [Nat.toDigits_of_base_le base (by omega), List.mem_append, List.mem_singleton, not_or]
      refine ⟨ih (n / b) ?_, digit (n % b)⟩
      apply Nat.div_lt_self
      · omega
      · exact base

theorem lineBreak_not_mem_nat (n : Nat) : '\n' ∉ (toString n).toList := by
  rw [Nat.toString_eq_repr, Nat.toList_repr]
  exact lineBreak_not_mem_toDigits (by decide) n

theorem lineBreak_not_mem_int (n : Int) : '\n' ∉ (toString n).toList := by
  have digits (m : Nat) : '\n' ∉ m.repr.toList := lineBreak_not_mem_nat m
  cases n with
  | ofNat m => exact digits m
  | negSucc m =>
    change '\n' ∉ ("-" ++ (m + 1).repr).toList
    rw [String.toList_append, List.mem_append, not_or]
    exact ⟨by decide, digits (m + 1)⟩

/-! ## Keys -/

/-- In `cs` no line break is followed by `key`, whatever comes after `cs`. -/
def Avoids (key cs : List Char) : Prop :=
  ∀ before after, cs = before ++ '\n' :: after → ∀ more, ¬key <+: after ++ more

section

variable {key cs ds : List Char}

theorem avoids_of_flat (flat : '\n' ∉ cs) : Avoids key cs := by
  rintro before after rfl
  exact absurd (by simp) flat

/-- A line break with what follows it. -/
theorem avoids_break (flat : '\n' ∉ cs) (other : ∀ more, ¬key <+: cs ++ more) :
    Avoids key ('\n' :: cs) := by
  intro before after e
  cases before with
  | nil =>
    obtain rfl := (List.cons.inj e).2
    exact other
  | cons c before =>
    obtain rfl := (List.cons.inj e).2
    exact absurd (by simp) flat

theorem Avoids.append (first : Avoids key cs) (second : Avoids key ds) :
    Avoids key (cs ++ ds) := by
  intro before after e more
  rcases List.append_eq_append_iff.1 e with ⟨as, rfl, rest⟩ | ⟨bs, rfl, rest⟩
  · exact second as after rest more
  · cases bs with
    | nil => exact second [] after rest.symm more
    | cons c bs =>
      obtain ⟨rfl, rfl⟩ := List.cons.inj rest
      change ¬key <+: bs ++ ds ++ more
      rw [List.append_assoc]
      exact first before bs rfl (ds ++ more)

end

/-- A key of the outermost object: what stands at the beginning of the lines of members whose
names begin with `c`. -/
def memberKey (c : Char) : List Char := [' ', ' ', '"', c]

section

variable {initial : Char} {level : Nat}

/-- What stands in the place of the quotation mark decides. -/
theorem not_memberKey_prefix {d : Char} (ne : d ≠ '"') (more : List Char) :
    ¬memberKey initial <+: ' ' :: ' ' :: d :: more := by
  intro h
  obtain ⟨-, h⟩ := List.cons_prefix_cons.1 h
  obtain ⟨-, h⟩ := List.cons_prefix_cons.1 h
  exact ne (List.cons_prefix_cons.1 h).1.symm

theorem lineBreak_not_mem_blanks (n : Nat) : '\n' ∉ List.replicate n ' ' := by
  intro h
  exact absurd (List.eq_of_mem_replicate h) (by decide)

/-- Below the outermost object lines begin with further blanks. -/
theorem avoids_lineBreak (deep : 2 ≤ level) : Avoids (memberKey initial) (lineBreak level) := by
  obtain ⟨n, rfl⟩ : ∃ n, level = n + 2 := ⟨level - 2, by omega⟩
  refine avoids_break (lineBreak_not_mem_blanks _) fun more => ?_
  exact not_memberKey_prefix (by decide) _

/-- The last line of a value below the outermost one. -/
theorem avoids_last {last : Char} (deep : 1 ≤ level) (bracket : last = ']' ∨ last = '\x7d') :
    Avoids (memberKey initial) (lineBreak level ++ [last]) := by
  have visible : last ≠ '\n' ∧ last ≠ '"' := by
    rcases bracket with rfl | rfl <;> decide
  obtain ⟨n, rfl⟩ : ∃ n, level = n + 1 := ⟨level - 1, by omega⟩
  refine avoids_break ?_ fun more => ?_
  · change '\n' ∉ List.replicate (2 * (n + 1)) ' ' ++ [last]
    rw [List.mem_append, not_or]
    exact ⟨lineBreak_not_mem_blanks _, by simpa using visible.1.symm⟩
  · cases n with
    | zero => exact not_memberKey_prefix visible.2 more
    | succ n => exact not_memberKey_prefix (by decide) _

theorem avoids_further {α : Type} {f : α → List Char} {as : List α} (deep : 2 ≤ level)
    (each : ∀ a ∈ as, Avoids (memberKey initial) (f a)) :
    Avoids (memberKey initial) (further level f as) := by
  induction as with
  | nil => exact avoids_of_flat List.not_mem_nil
  | cons a as ih =>
    rw [List.forall_mem_cons] at each
    have comma : Avoids (memberKey initial) [','] := avoids_of_flat (by decide)
    exact ((comma.append (avoids_lineBreak deep)).append each.1).append (ih each.2)

theorem avoids_bracketed {α : Type} {first last : Char} {f : α → List Char} {as : List α}
    (deep : 1 ≤ level) (visible : first ≠ '\n') (bracket : last = ']' ∨ last = '\x7d')
    (each : ∀ a ∈ as, Avoids (memberKey initial) (f a)) :
    Avoids (memberKey initial) (bracketed level first last f as) := by
  cases as with
  | nil =>
    refine avoids_of_flat ?_
    rcases bracket with rfl | rfl <;> simpa [bracketed] using visible.symm
  | cons a as =>
    rw [List.forall_mem_cons] at each
    have opening : Avoids (memberKey initial) [first] :=
      avoids_of_flat (by simpa using visible.symm)
    rw [bracketed, List.append_assoc]
    exact (((opening.append (avoids_lineBreak (by omega))).append each.1).append
      (avoids_further (by omega) each.2)).append (avoids_last deep bracket)

theorem prettyMember_eq (level : Nat) (m : String × Json) :
    prettyMember level m = textLiteral m.1 ++ [':', ' '] ++ prettyAt level m.2 := by
  obtain ⟨name, v⟩ := m
  rfl

theorem avoids_prettyMember {m : String × Json}
    (value : Avoids (memberKey initial) (prettyAt level m.2)) :
    Avoids (memberKey initial) (prettyMember level m) := by
  have colon : Avoids (memberKey initial) [':', ' '] := avoids_of_flat (by decide)
  rw [prettyMember_eq]
  exact ((avoids_of_flat (lineBreak_not_mem_textLiteral m.1)).append colon).append value

/-- The text of a value below the outermost one has no line that begins like one of its members. -/
theorem avoids_prettyAt {v : Json} (exact : v.Exact) (deep : 1 ≤ level) :
    Avoids (memberKey initial) (prettyAt level v) := by
  induction exact generalizing level with
  | null => exact avoids_of_flat (show '\n' ∉ "null".toList by decide)
  | bool value =>
    cases value with
    | false => exact avoids_of_flat (show '\n' ∉ "false".toList by decide)
    | true => exact avoids_of_flat (show '\n' ∉ "true".toList by decide)
  | @int n => exact avoids_of_flat (lineBreak_not_mem_int n)
  | str text => exact avoids_of_flat (lineBreak_not_mem_textLiteral text)
  | arr inside ih =>
    rw [prettyAt_arr]
    exact avoids_bracketed deep (by decide) (.inl rfl) fun v hv => ih v hv (Nat.le_succ_of_le deep)
  | obj inside ih =>
    rw [prettyAt_obj]
    refine avoids_bracketed deep (by decide) (.inr rfl) fun m hm => ?_
    exact avoids_prettyMember (ih m hm (Nat.le_succ_of_le deep))

end

/-! ## Objects -/

/-- What follows the first member of the outermost object. -/
def afterFirst (members : List (String × Json)) : List Char :=
  further 1 (prettyMember 1) members ++ lineBreak 0 ++ ['\x7d']

theorem pretty_obj (m : String × Json) (members : List (String × Json)) :
    (Json.obj (m :: members)).pretty =
      String.ofList (['\x7b'] ++ '\n' :: ((' ' :: ' ' :: prettyMember 1 m) ++ afterFirst members)) := by
  rw [pretty, prettyAt_obj, bracketed]
  refine congrArg String.ofList ?_
  simp only [afterFirst, List.append_assoc, List.cons_append]
  rfl

/-- A line that begins with another name. -/
theorem avoids_name {initial : Char} {name : String}
    (other : ¬['"', initial] <+: textLiteral name) :
    Avoids (memberKey initial) (lineBreak 1 ++ textLiteral name) := by
  refine avoids_break ?_ fun more h => other ?_
  · change '\n' ∉ List.replicate 2 ' ' ++ textLiteral name
    rw [List.mem_append, not_or]
    exact ⟨lineBreak_not_mem_blanks 2, lineBreak_not_mem_textLiteral name⟩
  · have rest := (List.cons_prefix_cons.1 (List.cons_prefix_cons.1 h).2).2
    refine List.prefix_of_prefix_length_le rest (List.prefix_append _ more) ?_
    simp [textLiteral]

/-- The key of the first member stands behind no further line break. -/
theorem avoids_afterFirst {initial : Char} {members : List (String × Json)}
    (exact : ∀ m ∈ members, m.2.Exact)
    (other : ∀ m ∈ members, ¬['"', initial] <+: textLiteral m.1) :
    Avoids (memberKey initial) (afterFirst members) := by
  have last : Avoids (memberKey initial) (lineBreak 0 ++ ['\x7d']) := by
    refine avoids_break (by decide) fun more h => ?_
    exact absurd (List.cons_prefix_cons.1 h).1 (by decide)
  rw [afterFirst, List.append_assoc]
  refine Avoids.append ?_ last
  induction members with
  | nil => exact avoids_of_flat List.not_mem_nil
  | cons m members ih =>
    rw [List.forall_mem_cons] at exact other
    have comma : Avoids (memberKey initial) [','] := avoids_of_flat (by decide)
    have colon : Avoids (memberKey initial) [':', ' '] := avoids_of_flat (by decide)
    have value : Avoids (memberKey initial) (prettyAt 1 m.2) :=
      avoids_prettyAt exact.1 (Nat.le_refl 1)
    have member := ((comma.append (avoids_name other.1)).append colon).append value
    have text : ',' :: lineBreak 1 ++ prettyMember 1 m =
        [','] ++ (lineBreak 1 ++ textLiteral m.1) ++ [':', ' '] ++ prettyAt 1 m.2 := by
      simp [prettyMember_eq]
    rw [← text] at member
    exact member.append (ih exact.2 other.2)

end BlockGraph.Json

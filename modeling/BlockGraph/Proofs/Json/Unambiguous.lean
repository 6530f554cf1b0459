import BlockGraph.Proofs.Json.Printing

/-!
# A text has one value

The text of a value tells where it ends and which value it is, at any depth. The first character
tells arrays and objects from the rest. Their parts are told one after the other, since what
follows a part begins with a comma or a line break. What is left is read by the machine: a reader
that has a complete value takes nothing but blanks.

* `Json.bracketed_inj`: the text of a list of parts determines the parts and its end.
* `Json.Told`: the text of a value determines the value and its end.
* `Json.pretty_inj`: values without floats have different texts.
-/

namespace BlockGraph.Json

/-- What may follow a value in a text: nothing, a comma or a line break. -/
def Ends (cs : List Char) : Prop := ∀ c ∈ cs.head?, c = ',' ∨ c = '\n'

/-- The text of `a` determines `a` and where it ends, among the `Good` ones. -/
def Tells {α : Type} (f : α → List Char) (Good : α → Prop) (a : α) : Prop :=
  ∀ (b : α) (s t : List Char), Good b → Ends s → Ends t → f a ++ s = f b ++ t → a = b ∧ s = t

/-- The text of `v` determines `v` and where it ends. -/
def Told (level : Nat) (v : Json) : Prop := Tells (prettyAt level) Exact v

namespace Reader

/-! ## Complete values -/

variable {r r' : Reader} {c : Char} {cs ds : List Char} {v w : Json}

theorem reaches_cons_iff : r.Reaches (c :: cs) r' ↔ ∃ m, r.step? c = some m ∧ m.Reaches cs r' := by
  unfold Reaches run?
  rw [List.foldlM_cons]
  exact Option.bind_eq_some_iff

theorem reaches_append_iff :
    r.Reaches (cs ++ ds) r' ↔ ∃ m, r.Reaches cs m ∧ m.Reaches ds r' := by
  unfold Reaches
  rw [run?_append]
  exact Option.bind_eq_some_iff

/-- After a complete value there is nothing but blanks. -/
theorem reaches_done (h : (⟨[], .done v⟩ : Reader).Reaches cs r) : r = ⟨[], .done v⟩ := by
  induction cs with
  | nil => exact (Option.some.inj h).symm
  | cons c cs ih =>
    obtain ⟨m, first, rest⟩ := reaches_cons_iff.1 h
    change (if isBlank c = true then some (⟨[], .done v⟩ : Reader) else none) = some m at first
    split at first
    · cases first
      exact ih rest
    · cases first

/-- A reader that holds a value takes on no other one. -/
theorem Holds.eq_of_reaches (held : r.Holds [] w) (ends : Ends ds) (more : r.Reaches ds r')
    (held' : r'.Holds [] v) : v = w := by
  cases ds with
  | nil =>
    obtain rfl : r = r' := Option.some.inj more
    exact Except.ok.inj (held'.finish.symm.trans held.finish)
  | cons c ds =>
    obtain ⟨m, first, rest⟩ := reaches_cons_iff.1 more
    have ending := ends c rfl
    rw [held.step ending] at first
    rcases ending with rfl | rfl
    · cases first
    · cases first
      obtain rfl := reaches_done rest
      exact (Except.ok.inj held'.finish).symm

end Reader

open Reader

/-! ## Parts of values -/

theorem exact_arr_iff {items : List Json} : (Json.arr items).Exact ↔ ∀ v ∈ items, v.Exact := by
  refine ⟨fun h => ?_, .arr⟩
  cases h with
  | arr inside => exact inside

theorem exact_obj_iff {members : List (String × Json)} :
    (Json.obj members).Exact ↔ ∀ m ∈ members, m.2.Exact := by
  refine ⟨fun h => ?_, .obj⟩
  cases h with
  | obj inside => exact inside

/-! ## Texts of strings -/

/-- A quoted string tells where it ends, whatever follows. -/
theorem textLiteral_append_inj {a b : String} {s t : List Char}
    (h : textLiteral a ++ s = textLiteral b ++ t) : a = b ∧ s = t := by
  have held (a : String) : ({} : Reader).Reaches (textLiteral a) ⟨[], .done (.str a)⟩ := by
    have closed := @reaches_textRest [] false a
    unfold closeText at closed
    rw [List.reverse_reverse, String.ofList_toList] at closed
    exact .step rfl closed
  have same (a b : String) (more : List Char) (h : textLiteral a = textLiteral b ++ more) :
      a = b := by
    obtain ⟨m, first, rest⟩ := reaches_append_iff.1 (h ▸ held a)
    obtain rfl : _ = m := Option.some.inj ((held b).symm.trans first)
    cases reaches_done rest
    rfl
  obtain rfl : a = b := by
    rcases List.append_eq_append_iff.1 h with ⟨more, h, -⟩ | ⟨more, h, -⟩
    · exact (same b a more h).symm
    · exact same a b more h
  exact ⟨rfl, List.append_cancel_left h⟩

/-! ## First characters -/

variable {level : Nat} {v w : Json} {s t : List Char}

theorem exists_digits (n : Int) :
    ∃ c cs, (toString n).toList = c :: cs ∧ (c = '-' ∨ c.isDigit = true) := by
  cases n with
  | ofNat m =>
    have digits := Decimal.toDigits_all_isDigit m
    obtain ⟨d, ds, e⟩ := List.exists_cons_of_ne_nil (Nat.toDigits_ne_nil (n := m) (b := 10))
    rw [e, List.all_cons, Bool.and_eq_true] at digits
    exact ⟨d, ds, Nat.toList_repr.trans e, .inr digits.1⟩
  | negSucc m =>
    refine ⟨'-', (m + 1).repr.toList, ?_, .inl rfl⟩
    change ("-" ++ (m + 1).repr).toList = _
    rw [String.toList_append]
    rfl

/-- Brackets begin the texts of arrays, braces those of objects. -/
theorem exists_first (level : Nat) (exact : v.Exact) : ∃ c cs, prettyAt level v = c :: cs ∧
    (c = '[' ↔ ∃ items, v = .arr items) ∧ (c = '\x7b' ↔ ∃ members, v = .obj members) := by
  cases exact with
  | null => exact ⟨'n', _, rfl, by simp, by simp⟩
  | bool value =>
    cases value with
    | false => exact ⟨'f', _, rfl, by simp, by simp⟩
    | true => exact ⟨'t', _, rfl, by simp, by simp⟩
  | @int n =>
    obtain ⟨c, cs, text, first⟩ := exists_digits n
    refine ⟨c, cs, text, iff_of_false ?_ (by simp), iff_of_false ?_ (by simp)⟩
    · rintro rfl
      simp [Char.isDigit] at first
    · rintro rfl
      simp [Char.isDigit] at first
  | str text => exact ⟨'"', _, rfl, by simp, by simp⟩
  | @arr items => cases items <;> exact ⟨'[', _, rfl, by simp, by simp⟩
  | @obj members => cases members <;> exact ⟨'\x7b', _, rfl, by simp, by simp⟩

/-- Equal texts are both those of arrays, both those of objects, or neither. -/
theorem same_shape (hv : v.Exact) (hw : w.Exact) (h : prettyAt level v ++ s = prettyAt level w ++ t) :
    ((∃ items, v = .arr items) ↔ ∃ items, w = .arr items) ∧
      ((∃ members, v = .obj members) ↔ ∃ members, w = .obj members) := by
  obtain ⟨c, cs, hc, arr, obj⟩ := exists_first level hv
  obtain ⟨d, ds, hd, arr', obj'⟩ := exists_first level hw
  rw [hc, hd] at h
  obtain rfl : c = d := (List.cons.inj h).1
  exact ⟨arr.symm.trans arr', obj.symm.trans obj'⟩

theorem depth_eq_zero_iff :
    v.depth = 0 ↔ ¬(∃ items, v = .arr items) ∧ ¬∃ members, v = .obj members := by
  cases v <;> simp [depth]

/-! ## Values that are no arrays or objects -/

theorem told_of_flat (exact : v.Exact) (flat : v.depth = 0) : Told level v := by
  intro w s t exact' hs ht h
  obtain ⟨arr, obj⟩ := same_shape exact exact' h
  have flat' : w.depth = 0 := by
    rw [depth_eq_zero_iff] at flat ⊢
    rwa [← arr, ← obj]
  have held {v : Json} (exact : v.Exact) (flat : v.depth = 0) :
      ∃ r, ({} : Reader).Reaches (prettyAt level v) r ∧ r.Holds [] v :=
    admits_of_exact exact level [] .value trivial (by simp [flat])
  obtain ⟨r, reaches, holds⟩ := held exact flat
  obtain ⟨r', reaches', holds'⟩ := held exact' flat'
  -- The longer text goes on where the shorter one ends.
  have ends {cs ds : List Char} (more : Ends (cs ++ ds)) : Ends cs := fun c hc =>
    more c (by
      cases cs with
      | nil => cases hc
      | cons => exact hc)
  obtain rfl : v = w := by
    rcases List.append_eq_append_iff.1 h with ⟨more, e, rfl⟩ | ⟨more, e, rfl⟩
    · rw [e] at reaches'
      obtain ⟨m, first, rest⟩ := reaches_append_iff.1 reaches'
      obtain rfl : r = m := Option.some.inj (reaches.symm.trans first)
      exact (holds.eq_of_reaches (ends hs) rest holds').symm
    · rw [e] at reaches
      obtain ⟨m, first, rest⟩ := reaches_append_iff.1 reaches
      obtain rfl : r' = m := Option.some.inj (reaches'.symm.trans first)
      exact holds'.eq_of_reaches (ends ht) rest holds
  exact ⟨rfl, List.append_cancel_left h⟩

/-! ## Lists of parts -/

section Parts

variable {α : Type} {f : α → List Char} {Good : α → Prop} {as bs : List α}

/-- The texts of further parts, each on a line of its own. -/
def further (level : Nat) (f : α → List Char) (as : List α) : List Char :=
  as.flatMap fun a => ',' :: lineBreak level ++ f a

/-- The texts of parts, on lines of their own between two brackets. -/
def bracketed (level : Nat) (first last : Char) (f : α → List Char) : List α → List Char
  | [] => [first, last]
  | a :: as =>
    first :: lineBreak (level + 1) ++ f a ++ further (level + 1) f as ++ lineBreak level ++ [last]

theorem ends_further : Ends (further level f as ++ '\n' :: s) := by
  cases as <;> simp [further, Ends]

theorem further_inj (each : ∀ a ∈ as, Tells f Good a) (good : ∀ b ∈ bs, Good b)
    (h : further level f as ++ '\n' :: s = further level f bs ++ '\n' :: t) : as = bs ∧ s = t := by
  induction as generalizing bs with
  | nil =>
    cases bs with
    | nil => exact ⟨rfl, (List.cons.inj h).2⟩
    | cons => cases h
  | cons a as ih =>
    cases bs with
    | nil => cases h
    | cons b bs =>
      rw [List.forall_mem_cons] at each good
      simp only [further, List.flatMap_cons, List.append_assoc, List.cons_append, List.cons.injEq,
        true_and, List.append_cancel_left_eq] at h
      obtain ⟨rfl, others⟩ := each.1 _ _ _ good.1 ends_further ends_further h
      obtain ⟨rfl, rest⟩ := ih each.2 good.2 others
      exact ⟨rfl, rest⟩

/-- The first part ends where a comma or the last line begins, and so does every other one. -/
theorem bracketed_inj {first last : Char} (each : ∀ a ∈ as, Tells f Good a)
    (good : ∀ b ∈ bs, Good b) (visible : last ≠ '\n')
    (h : bracketed level first last f as ++ s = bracketed level first last f bs ++ t) :
    as = bs ∧ s = t := by
  cases as with
  | nil =>
    cases bs with
    | nil => exact ⟨rfl, List.append_cancel_left h⟩
    | cons => exact absurd (List.cons.inj (List.cons.inj h).2).1 visible
  | cons a as =>
    cases bs with
    | nil => exact absurd (List.cons.inj (List.cons.inj h).2).1.symm visible
    | cons b bs =>
      rw [List.forall_mem_cons] at each good
      simp only [bracketed, lineBreak.eq_def level, List.append_assoc, List.cons_append,
        List.cons.injEq, true_and, List.append_cancel_left_eq] at h
      obtain ⟨rfl, others⟩ := each.1 _ _ _ good.1 ends_further ends_further h
      obtain ⟨rfl, rest⟩ := further_inj each.2 good.2 others
      simp only [List.append_cancel_left_eq, List.cons.injEq, true_and, List.nil_append] at rest
      exact ⟨rfl, rest⟩

end Parts

/-! ## Arrays and objects -/

theorem prettyItems_eq (level : Nat) (items : List Json) :
    prettyItems level items = further level (prettyAt level) items := by
  induction items with
  | nil => rfl
  | cons item items ih => rw [prettyItems, ih]; rfl

theorem prettyMembers_eq (level : Nat) (members : List (String × Json)) :
    prettyMembers level members = further level (prettyMember level) members := by
  induction members with
  | nil => rfl
  | cons m members ih => rw [prettyMembers, ih]; rfl

theorem prettyAt_arr (items : List Json) :
    prettyAt level (.arr items) = bracketed level '[' ']' (prettyAt (level + 1)) items := by
  cases items with
  | nil => rfl
  | cons item items => rw [prettyAt, prettyItems_eq, bracketed]

theorem prettyAt_obj (members : List (String × Json)) :
    prettyAt level (.obj members) =
      bracketed level '\x7b' '\x7d' (prettyMember (level + 1)) members := by
  cases members with
  | nil => rfl
  | cons m members => rw [prettyAt, prettyMembers_eq, bracketed]

theorem told_arr {items : List Json} (exact : (Json.arr items).Exact)
    (each : ∀ v ∈ items, Told (level + 1) v) : Told level (.arr items) := by
  intro w s t exact' hs ht h
  obtain ⟨items', rfl⟩ := (same_shape exact exact' h).1.1 ⟨items, rfl⟩
  rw [prettyAt_arr, prettyAt_arr] at h
  obtain ⟨rfl, rest⟩ := bracketed_inj each (exact_arr_iff.1 exact') (by decide) h
  exact ⟨rfl, rest⟩

theorem tells_member {m : String × Json} (value : Told level m.2) :
    Tells (prettyMember level) (·.2.Exact) m := by
  obtain ⟨name, v⟩ := m
  rintro ⟨name', w⟩ s t exact' hs ht h
  rw [prettyMember, prettyMember, List.append_assoc, List.append_assoc, List.append_assoc,
    List.append_assoc] at h
  obtain ⟨rfl, after⟩ := textLiteral_append_inj h
  obtain ⟨rfl, rest⟩ := value w s t exact' hs ht (List.append_cancel_left after)
  exact ⟨rfl, rest⟩

theorem told_obj {members : List (String × Json)} (exact : (Json.obj members).Exact)
    (each : ∀ m ∈ members, Told (level + 1) m.2) : Told level (.obj members) := by
  intro w s t exact' hs ht h
  obtain ⟨members', rfl⟩ := (same_shape exact exact' h).2.1 ⟨members, rfl⟩
  rw [prettyAt_obj, prettyAt_obj] at h
  obtain ⟨rfl, rest⟩ := bracketed_inj (fun m hm => tells_member (each m hm))
    (exact_obj_iff.1 exact') (by decide) h
  exact ⟨rfl, rest⟩

/-! ## All values -/

theorem told_of_exact (exact : v.Exact) (level : Nat) : Told level v := by
  induction exact generalizing level with
  | null => exact told_of_flat .null rfl
  | bool value => exact told_of_flat (.bool value) rfl
  | int low high => exact told_of_flat (.int low high) rfl
  | str text => exact told_of_flat (.str text) rfl
  | arr inside ih => exact told_arr (.arr inside) fun v hv => ih v hv (level + 1)
  | obj inside ih => exact told_obj (.obj inside) fun m hm => ih m hm (level + 1)

/-- Values without floats have different texts, however deep they nest. -/
theorem pretty_inj (hv : v.Exact) (hw : w.Exact) (h : v.pretty = w.pretty) : v = w := by
  have nothing : Ends [] := fun c hc => by cases hc
  have same : prettyAt 0 v ++ [] = prettyAt 0 w ++ [] :=
    congrArg (· ++ []) (String.ofList_injective h)
  exact (told_of_exact hv 0 w [] [] hw nothing nothing same).1

end BlockGraph.Json

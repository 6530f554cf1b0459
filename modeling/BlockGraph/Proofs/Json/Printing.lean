import BlockGraph.Json.Printer
import BlockGraph.Json.Reader
import BlockGraph.Proofs.Decimal

/-!
# Reading what was printed

The text of a value is read part by part: the reader starts where a value is awaited, goes through
the text, and ends up holding the value. A number is complete only once the next character is seen,
so what the reader holds is a complete value or a number that may end.

* `Json.depth`: how many arrays and objects are open at once.
* `Json.Exact`: values without floats, whose numbers fit 64 bits.
* `Json.read_pretty`: such a value is read back from its text unless it nests too deep.
-/

namespace BlockGraph.Json

/-! ## Values -/

mutual

/-- The number of arrays and objects that are open at once in the text of a value. -/
def depth : Json → Nat
  | .arr items => depthItems items + 1
  | .obj members => depthMembers members + 1
  | _ => 0
termination_by structural v => v

def depthItems : List Json → Nat
  | [] => 0
  | item :: items => max (depth item) (depthItems items)
termination_by structural items => items

def depthMember : String × Json → Nat
  | (_, v) => depth v
termination_by structural member => member

def depthMembers : List (String × Json) → Nat
  | [] => 0
  | member :: members => max (depthMember member) (depthMembers members)
termination_by structural members => members

end

/-- Values without floats, whose numbers fit 64 bits, signed or unsigned. -/
inductive Exact : Json → Prop
  | null : Exact .null
  | bool (value : Bool) : Exact (.bool value)
  | int {value : Int} (low : -0x8000000000000000 ≤ value) (high : value ≤ maxWord) :
    Exact (.int value)
  | str (text : String) : Exact (.str text)
  | arr {items : List Json} (inside : ∀ v ∈ items, Exact v) : Exact (.arr items)
  | obj {members : List (String × Json)} (inside : ∀ m ∈ members, Exact m.2) :
    Exact (.obj members)

/-- The modes in which a value may begin. -/
def Mode.Awaits : Mode → Prop
  | .value | .firstItem => True
  | _ => False

namespace Reader

/-! ## Steps -/

/-- The reader gets from `r` to `r'` by reading `cs`. -/
def Reaches (r : Reader) (cs : List Char) (r' : Reader) : Prop := r.run? cs = some r'

namespace Reaches

variable {r r' r'' : Reader} {c : Char} {cs ds : List Char}

theorem nil : r.Reaches [] r := rfl

theorem step (first : r.step? c = some r') (rest : r'.Reaches cs r'') :
    r.Reaches (c :: cs) r'' := by
  unfold Reaches run? at *
  rw [List.foldlM_cons, first]
  exact rest

theorem append (first : r.Reaches cs r') (rest : r'.Reaches ds r'') :
    r.Reaches (cs ++ ds) r'' := by
  unfold Reaches at *
  rw [run?_append, first]
  exact rest

theorem blanks (ignored : r.step? ' ' = some r) (n : Nat) :
    r.Reaches (List.replicate n ' ') r := by
  induction n with
  | zero => exact nil
  | succ n ih => exact step ignored ih

theorem lineBreak (ignored : r.step? ' ' = some r) (broken : r'.step? '\n' = some r)
    (level : Nat) : r'.Reaches (Json.lineBreak level) r :=
  step broken (blanks ignored _)

end Reaches

/-! ## What a reader holds -/

/-- The reader holds the value `v` inside `stack`. -/
inductive Holds (stack : List Frame) (v : Json) : Reader → Prop
  | complete : Holds stack v (complete stack v)
  | number {t : NumberText} {mode : NumberMode} (mayEnd : mode.mayEnd = true)
    (value : numberValue? t = some v) : Holds stack v ⟨stack, .number t mode⟩

namespace Holds

variable {stack rest : List Frame} {v : Json} {r : Reader}

/-- A comma and a line break end a number. -/
theorem step (h : r.Holds stack v) {c : Char} (ending : c = ',' ∨ c = '\n') :
    r.step? c = betweenStep? (Reader.complete stack v).stack (Reader.complete stack v).mode c := by
  cases h with
  | complete =>
    unfold Reader.complete
    split <;> rfl
  | @number t mode mayEnd value =>
    have stop : numberStep t mode c = .stop := by
      rcases ending with rfl | rfl <;> cases mode <;> first | rfl | cases mayEnd
    unfold Reader.step?
    simp only [stop, value, Option.bind_some]

theorem finish (h : r.Holds [] v) : r.finish = .ok v := by
  cases h with
  | complete => rfl
  | number mayEnd value =>
    unfold Reader.finish
    simp only [mayEnd, value, if_true, List.isEmpty_nil]

/-- After an item there is a comma or a line break. -/
theorem item {items : List Json} (h : r.Holds (.array items :: rest) v) :
    r.step? ',' = some ⟨.array (v :: items) :: rest, .value⟩ ∧
      r.step? '\n' = some ⟨.array (v :: items) :: rest, .follow⟩ := by
  rw [h.step (.inl rfl), h.step (.inr rfl)]
  exact ⟨rfl, rfl⟩

/-- After a member there is a comma or a line break. -/
theorem member {members : List (String × Json)} {name : String}
    (h : r.Holds (.object members name :: rest) v) :
    r.step? ',' = some ⟨.object ((name, v) :: members) name :: rest, .nextName⟩ ∧
      r.step? '\n' = some ⟨.object ((name, v) :: members) name :: rest, .follow⟩ := by
  rw [h.step (.inl rfl), h.step (.inr rfl)]
  exact ⟨rfl, rfl⟩

end Holds

/-! ## Texts -/

variable {stack : List Frame}

theorem hexNumber?_control : ∀ n < 0x20,
    hexNumber? [Nat.digitChar (n % 16), Nat.digitChar (n / 16), '0', '0'] = some n ∧
      (Nat.digitChar (n / 16)).utf8Size = 1 ∧ (Nat.digitChar (n % 16)).utf8Size = 1 := by
  decide

theorem escapeDigit?_control (soFar : List Char) {n : Nat} (control : n < 0x20) :
    escapeDigit? soFar none [Nat.digitChar (n / 16), '0', '0'] =
        some (soFar, .digits none [Nat.digitChar (n / 16), '0', '0']) ∧
      escapeDigit? soFar none [Nat.digitChar (n % 16), Nat.digitChar (n / 16), '0', '0'] =
        some (Char.ofNat n :: soFar, .plain) := by
  obtain ⟨number, high, low⟩ := hexNumber?_control n control
  have zero : '0'.utf8Size = 1 := rfl
  unfold escapeDigit?
  refine ⟨if_pos ?_, ?_⟩
  · simp only [List.foldl_cons, List.foldl_nil, high, zero]
    omega
  · rw [if_neg, if_pos (by rfl), number, Option.bind_some]
    · unfold codeUnit?
      rw [if_neg (by omega), if_neg (by omega)]
    · simp only [List.foldl_cons, List.foldl_nil, high, low, zero]
      omega

theorem step?_digits {isName : Bool} {soFar soFar' : List Char} {c : Char} {ds : List Char}
    {mode : TextMode} (h : escapeDigit? soFar none (c :: ds) = some (soFar', mode)) :
    (⟨stack, .text isName soFar (.digits none ds)⟩ : Reader).step? c =
      some ⟨stack, .text isName soFar' mode⟩ := by
  change (escapeDigit? soFar none (c :: ds)).map
    (fun r => (⟨stack, .text isName r.1 r.2⟩ : Reader)) = _
  rw [h]
  rfl

theorem reaches_textChar (isName : Bool) (soFar : List Char) (c : Char) :
    (⟨stack, .text isName soFar .plain⟩ : Reader).Reaches (textChar c)
      ⟨stack, .text isName (c :: soFar) .plain⟩ := by
  unfold textChar
  split
  case h_8 =>
    split
    · next control =>
      obtain ⟨third, fourth⟩ := escapeDigit?_control soFar control
      rw [Char.ofNat_toNat] at fourth
      exact .step rfl (.step rfl (.step rfl (.step rfl (.step (step?_digits third)
        (.step (step?_digits fourth) .nil)))))
    · next printable =>
      refine .step ?_ .nil
      unfold step? textStep?
      simp only [printable, if_false]
  all_goals rfl

theorem reaches_texts (isName : Bool) (soFar : List Char) (cs : List Char) :
    (⟨stack, .text isName soFar .plain⟩ : Reader).Reaches (cs.flatMap textChar)
      ⟨stack, .text isName (cs.reverse ++ soFar) .plain⟩ := by
  induction cs generalizing soFar with
  | nil => exact .nil
  | cons c cs ih =>
    rw [List.flatMap_cons, List.reverse_cons, List.append_assoc]
    exact .append (reaches_textChar isName soFar c) (ih (c :: soFar))

/-- A text is read up to its closing quote. -/
theorem reaches_textRest (isName : Bool) (text : String) :
    (⟨stack, .text isName [] .plain⟩ : Reader).Reaches
      (text.toList.flatMap textChar ++ ['"']) (closeText stack isName text.toList.reverse) := by
  refine .append (reaches_texts isName [] text.toList) ?_
  rw [List.append_nil]
  exact .step rfl .nil

/-! ## Numbers -/

theorem reaches_digits {negative : Bool} {ds cs : List Char}
    (digits : ds.all Char.isDigit = true) :
    (⟨stack, .number ⟨negative, cs, none, none⟩ .whole⟩ : Reader).Reaches ds
      ⟨stack, .number ⟨negative, ds.reverse ++ cs, none, none⟩ .whole⟩ := by
  induction ds generalizing cs with
  | nil => exact .nil
  | cons d ds ih =>
    rw [List.all_cons, Bool.and_eq_true] at digits
    rw [List.reverse_cons, List.append_assoc]
    refine .step ?_ (ih digits.2)
    have more : numberStep ⟨negative, cs, none, none⟩ .whole d =
        .more ⟨negative, d :: cs, none, none⟩ .whole := if_pos digits.1
    unfold step?
    dsimp only
    rw [more]
    rfl

/-- The value of a number without point and exponent. -/
theorem numberValue?_whole (negative : Bool) (n : Nat) (small : n ≤ maxWord)
    (fits : negative = true → 0 < n ∧ n ≤ 0x8000000000000000) :
    numberValue? ⟨negative, (Nat.toDigits 10 n).reverse, none, none⟩ =
      some (.int (if negative then -(n : Int) else n)) := by
  unfold numberValue? NumberText.value?
  simp only [List.reverse_reverse, Decimal.ofDigits_toDigits, Option.map_none, Option.isNone_none,
    Bool.true_and]
  cases negative with
  | false => simp [small]
  | true => simp [fits rfl]

/-- The digits of a number, from a place where the first of them may stand. -/
theorem reaches_number {start : Reader} {negative : Bool}
    (first : ∀ d : Char, d.isDigit = true → start.step? d =
      some ⟨stack, .number ⟨negative, [d], none, none⟩ (if d = '0' then .zero else .whole)⟩)
    (n : Nat) : ∃ mode : NumberMode, mode.mayEnd = true ∧ start.Reaches (Nat.toDigits 10 n)
      ⟨stack, .number ⟨negative, (Nat.toDigits 10 n).reverse, none, none⟩ mode⟩ := by
  have digits := Decimal.toDigits_all_isDigit n
  have canonical := Decimal.toDigits_ne_zero_cons n
  obtain ⟨d, ds, e⟩ := List.exists_cons_of_ne_nil (Nat.toDigits_ne_nil (n := n) (b := 10))
  rw [e] at digits canonical ⊢
  rw [List.all_cons, Bool.and_eq_true] at digits
  have begun := first d digits.1
  by_cases zero : d = '0'
  · subst zero
    cases ds with
    | nil => exact ⟨.zero, rfl, .step begun .nil⟩
    | cons c cs => exact absurd rfl (canonical c cs)
  · rw [if_neg zero] at begun
    rw [List.reverse_cons]
    exact ⟨.whole, rfl, .step begun (reaches_digits digits.2)⟩

variable {mode : Mode}

/-- Where a value is awaited, every character but a blank and a bracket begins one. -/
theorem step?_eq_begin? (awaits : mode.Awaits) {c : Char} (blank : isBlank c = false)
    (opens : c ≠ ']') : (⟨stack, mode⟩ : Reader).step? c = begin? stack c := by
  cases mode with
  | value =>
    change (if isBlank c = true then _ else begin? stack c) = _
    rw [blank]
    rfl
  | firstItem =>
    change (if isBlank c = true then _ else if c = ']' then _ else begin? stack c) = _
    rw [blank, if_neg opens]
    rfl
  | _ => cases awaits

theorem begin?_digit (awaits : mode.Awaits) {d : Char} (digit : d.isDigit = true) :
    (⟨stack, mode⟩ : Reader).step? d =
      some ⟨stack, .number ⟨false, [d], none, none⟩ (if d = '0' then .zero else .whole)⟩ := by
  obtain ⟨k, hk, rfl, -⟩ := Decimal.digitChar_of_isDigit digit
  have plain : ∀ k < 10, isBlank (Nat.digitChar k) = false ∧ Nat.digitChar k ≠ ']' := by decide
  rw [step?_eq_begin? awaits (plain k hk).1 (plain k hk).2]
  rcases k with _ | _ | _ | _ | _ | _ | _ | _ | _ | _ | k
  all_goals first | rfl | omega

theorem signStep?_digit {d : Char} (digit : d.isDigit = true) :
    (⟨stack, .number ⟨true, [], none, none⟩ .sign⟩ : Reader).step? d =
      some ⟨stack, .number ⟨true, [d], none, none⟩ (if d = '0' then .zero else .whole)⟩ := by
  obtain ⟨k, hk, rfl, -⟩ := Decimal.digitChar_of_isDigit digit
  rcases k with _ | _ | _ | _ | _ | _ | _ | _ | _ | _ | k
  all_goals first | rfl | omega

theorem reaches_int (awaits : mode.Awaits) {n : Int} (low : -0x8000000000000000 ≤ n)
    (high : n ≤ maxWord) : ∃ r, (⟨stack, mode⟩ : Reader).Reaches (toString n).toList r ∧
      r.Holds stack (.int n) := by
  cases n with
  | ofNat m =>
    have value := numberValue?_whole false m (Int.ofNat_le.1 high) nofun
    obtain ⟨mode', mayEnd, reaches⟩ := reaches_number (fun d => begin?_digit awaits) m
    rw [show (toString (Int.ofNat m)).toList = Nat.toDigits 10 m from Nat.toList_repr]
    exact ⟨_, reaches, .number mayEnd value⟩
  | negSucc m =>
    have small : m + 1 ≤ 0x8000000000000000 := by omega
    have value := numberValue?_whole true (m + 1) (Nat.le_trans small (by decide))
      fun _ => ⟨Nat.succ_pos m, small⟩
    have sign : (⟨stack, mode⟩ : Reader).step? '-' = _ := step?_eq_begin? awaits rfl (by decide)
    obtain ⟨mode', mayEnd, reaches⟩ := reaches_number (fun d => @signStep?_digit stack d) (m + 1)
    have text : (toString (Int.negSucc m)).toList = '-' :: Nat.toDigits 10 (m + 1) := by
      change ("-" ++ (m + 1).repr).toList = _
      rw [String.toList_append, Nat.toList_repr]
      rfl
    rw [text]
    exact ⟨_, .step sign reaches, .number mayEnd value⟩

/-! ## Arrays and objects -/

/-- From a place where a value is awaited, the reader gets through the text of `v` and holds it,
if there is room for the arrays and objects in it. -/
def Admits (level : Nat) (v : Json) : Prop :=
  ∀ (stack : List Frame) (mode : Mode), mode.Awaits → stack.length + v.depth ≤ maxDepth →
    ∃ r, (⟨stack, mode⟩ : Reader).Reaches (prettyAt level v) r ∧ r.Holds stack v

variable {level : Nat} {rest : List Frame} {v : Json} {r : Reader}

/-- Further items are put on top of what the array holds already. -/
theorem reaches_items {items : List Json} (each : ∀ v ∈ items, Admits level v)
    (room : rest.length + 1 + depthItems items ≤ maxDepth) {done : List Json}
    (held : r.Holds (.array done :: rest) v) :
    ∃ r' v' done', r.Reaches (prettyItems level items) r' ∧
      r'.Holds (.array done' :: rest) v' ∧ v' :: done' = items.reverse ++ v :: done := by
  induction items generalizing r v done with
  | nil => exact ⟨r, v, done, .nil, held, rfl⟩
  | cons item items ih =>
    rw [List.forall_mem_cons] at each
    rw [depthItems] at room
    obtain ⟨r₁, reaches, held'⟩ := each.1 (.array (v :: done) :: rest) .value trivial (by
      rw [List.length_cons]
      omega)
    obtain ⟨r₂, v', done', others, held'', all⟩ := ih each.2 (by omega) held'
    refine ⟨r₂, v', done', ?_, held'', ?_⟩
    · rw [prettyItems]
      exact .append (.append (.step held.item.1 (.lineBreak rfl rfl _)) reaches) others
    · rw [all, List.reverse_cons, List.append_assoc]
      rfl

theorem admits_arr {items : List Json} (each : ∀ v ∈ items, Admits (level + 1) v) :
    Admits level (.arr items) := by
  intro stack mode awaits room
  rw [depth] at room
  have entered : (⟨stack, mode⟩ : Reader).step? '[' = some ⟨.array [] :: stack, .firstItem⟩ := by
    rw [step?_eq_begin? awaits rfl (by decide)]
    exact if_pos (by omega)
  cases items with
  | nil => exact ⟨_, .step entered (.step rfl .nil), .complete⟩
  | cons item items =>
    rw [List.forall_mem_cons] at each
    rw [depthItems] at room
    obtain ⟨r₁, reaches, held⟩ := each.1 (.array [] :: stack) .firstItem trivial (by
      rw [List.length_cons]
      omega)
    obtain ⟨r₂, v', done', others, held', all⟩ := reaches_items each.2 (by omega) held
    refine ⟨complete stack (.arr (item :: items)), ?_, .complete⟩
    have closed : (⟨.array (v' :: done') :: stack, .follow⟩ : Reader).step? ']' =
        some (complete stack (.arr (item :: items))) := by
      change some (complete stack (.arr (v' :: done').reverse)) = _
      rw [all, List.reverse_append, List.reverse_reverse]
      rfl
    rw [prettyAt]
    exact .append (.append (.append (.append (.step entered (.lineBreak rfl rfl _)) reaches) others)
      (.lineBreak rfl held'.item.2 _)) (.step closed .nil)

/-- The text of a member, from a place where a name is awaited. -/
theorem reaches_member {mode : Mode} (awaits : mode = .firstName ∨ mode = .nextName)
    {member : String × Json} (value : Admits level member.2)
    (room : rest.length + 1 + depthMember member ≤ maxDepth) (done : List (String × Json))
    (old : String) : ∃ r, (⟨.object done old :: rest, mode⟩ : Reader).Reaches
      (prettyMember level member) r ∧ r.Holds (.object done member.1 :: rest) member.2 := by
  obtain ⟨name, v⟩ := member
  rw [depthMember] at room
  obtain ⟨r, reaches, held⟩ := value (.object done name :: rest) .value trivial (by
    rw [List.length_cons]
    omega)
  refine ⟨r, ?_, held⟩
  have quote : (⟨.object done old :: rest, mode⟩ : Reader).step? '"' =
      some ⟨.object done old :: rest, .text true [] .plain⟩ := by
    rcases awaits with rfl | rfl <;> rfl
  have text : (⟨.object done old :: rest, .text true [] .plain⟩ : Reader).Reaches
      (name.toList.flatMap textChar ++ ['"']) ⟨.object done name :: rest, .colon⟩ := by
    have closed := @reaches_textRest (.object done old :: rest) true name
    unfold closeText at closed
    rwa [List.reverse_reverse, String.ofList_toList] at closed
  rw [prettyMember, textLiteral]
  exact .append (.append (.step quote text) (.step rfl (.step rfl .nil))) reaches

/-- Further members are put on top of what the object holds already. -/
theorem reaches_members {members : List (String × Json)}
    (each : ∀ m ∈ members, Admits level m.2)
    (room : rest.length + 1 + depthMembers members ≤ maxDepth) {done : List (String × Json)}
    {name : String} (held : r.Holds (.object done name :: rest) v) :
    ∃ r' name' v' done', r.Reaches (prettyMembers level members) r' ∧
      r'.Holds (.object done' name' :: rest) v' ∧
      (name', v') :: done' = members.reverse ++ (name, v) :: done := by
  induction members generalizing r v done name with
  | nil => exact ⟨r, name, v, done, .nil, held, rfl⟩
  | cons member members ih =>
    rw [List.forall_mem_cons] at each
    rw [depthMembers] at room
    have here : rest.length + 1 + depthMember member ≤ maxDepth := by omega
    obtain ⟨r₁, reaches, held'⟩ := reaches_member (.inr rfl) each.1 here ((name, v) :: done) name
    obtain ⟨r₂, name', v', done', others, held'', all⟩ := ih each.2 (by omega) held'
    refine ⟨r₂, name', v', done', ?_, held'', ?_⟩
    · rw [prettyMembers]
      exact .append (.append (.step held.member.1 (.lineBreak rfl rfl _)) reaches) others
    · rw [all, List.reverse_cons, List.append_assoc]
      rfl

theorem admits_obj {members : List (String × Json)}
    (each : ∀ m ∈ members, Admits (level + 1) m.2) : Admits level (.obj members) := by
  intro stack mode awaits room
  rw [depth] at room
  have entered : (⟨stack, mode⟩ : Reader).step? '\x7b' =
      some ⟨.object [] "" :: stack, .firstName⟩ := by
    rw [step?_eq_begin? awaits rfl (by decide)]
    exact if_pos (by omega)
  cases members with
  | nil => exact ⟨_, .step entered (.step rfl .nil), .complete⟩
  | cons member members =>
    rw [List.forall_mem_cons] at each
    rw [depthMembers] at room
    have here : stack.length + 1 + depthMember member ≤ maxDepth := by omega
    obtain ⟨r₁, reaches, held⟩ := reaches_member (.inl rfl) each.1 here [] ""
    obtain ⟨r₂, name', v', done', others, held', all⟩ := reaches_members each.2 (by omega) held
    refine ⟨complete stack (.obj (member :: members)), ?_, .complete⟩
    have closed : (⟨.object ((name', v') :: done') name' :: stack, .follow⟩ : Reader).step? '\x7d' =
        some (complete stack (.obj (member :: members))) := by
      change some (complete stack (.obj ((name', v') :: done').reverse)) = _
      rw [all, List.reverse_append, List.reverse_reverse]
      rfl
    rw [prettyAt]
    exact .append (.append (.append (.append (.step entered (.lineBreak rfl rfl _)) reaches) others)
      (.lineBreak rfl held'.member.2 _)) (.step closed .nil)

/-! ## All values -/

theorem admits_of_exact (exact : v.Exact) (level : Nat) : Admits level v := by
  induction exact generalizing level with
  | null =>
    intro stack mode awaits _
    have begun : (⟨stack, mode⟩ : Reader).step? 'n' = _ := step?_eq_begin? awaits rfl (by decide)
    exact ⟨_, .step begun (.step rfl (.step rfl (.step rfl .nil))), .complete⟩
  | bool value =>
    intro stack mode awaits _
    cases value with
    | true =>
      have begun : (⟨stack, mode⟩ : Reader).step? 't' = _ := step?_eq_begin? awaits rfl (by decide)
      exact ⟨_, .step begun (.step rfl (.step rfl (.step rfl .nil))), .complete⟩
    | false =>
      have begun : (⟨stack, mode⟩ : Reader).step? 'f' = _ := step?_eq_begin? awaits rfl (by decide)
      exact ⟨_, .step begun (.step rfl (.step rfl (.step rfl (.step rfl .nil)))), .complete⟩
  | int low high => exact fun stack mode awaits _ => reaches_int awaits low high
  | str text =>
    intro stack mode awaits _
    have begun : (⟨stack, mode⟩ : Reader).step? '"' = _ := step?_eq_begin? awaits rfl (by decide)
    refine ⟨complete stack (.str text), .step begun ?_, .complete⟩
    have closed := @reaches_textRest stack false text
    unfold closeText at closed
    rwa [List.reverse_reverse, String.ofList_toList] at closed
  | arr _ ih => exact admits_arr fun v hv => ih v hv (level + 1)
  | obj _ ih => exact admits_obj fun m hm => ih m hm (level + 1)

end Reader

/-- A value without floats is read back from its text, unless it nests too deep. -/
theorem read_pretty {v : Json} (exact : v.Exact) (deep : v.depth ≤ maxDepth) :
    read v.pretty = .ok v := by
  obtain ⟨r, reaches, held⟩ := Reader.admits_of_exact exact 0 [] .value trivial (by
    rw [List.length_nil, Nat.zero_add]
    exact deep)
  unfold read pretty
  rw [String.toList_ofList, show Reader.run? {} _ = some r from reaches]
  exact held.finish

end BlockGraph.Json

import BlockGraph.Proofs.Mapping.Regular
import BlockGraph.Proofs.Node.Copy
import BlockGraph.Proofs.Refusal
import BlockGraph.Proofs.Rewrite.Folding

/-!
# Building inverts taking apart

Which lists of contents are the slots of a phrase can be said without the reader: their shapes are
those of the table, the texts of choices are spelled as they may be, and the branches of a
conditional have conditions. What is built from such a list has exactly this list as slots.

* `Kind.choices?`: the spellings that a row of a table admits, if not all.
* `Kind.Fills`: the lists that fill the table of a kind.
* `Phrase.fills_of_buildable`, `Phrase.exists_buildable`: they are the slots of phrases.
* `Phrase.build_inverts_slots`: building, taking apart and copying.
-/

namespace BlockGraph

variable {α : Type}

/-! ## Choices -/

namespace Kind

/-- The spellings that are admitted in a row of a kind's table, if the row is a choice. -/
def choices? : Kind → String → Option (List String)
  | mainTask, "DEBUG" | boolConst, "BOOL" => some ["TRUE", "FALSE"]
  | varDeclaration, "TYPE" => some ["Number", "Boolean", "String"]
  | whileUntil, "MODE" => some ["WHILE", "UNTIL"]
  | flowControl, "FLOW" => some ["BREAK", "CONTINUE"]
  | arithmetic, "OP" => some ["ADD", "MINUS", "MULTIPLY", "DIVIDE", "POWER"]
  | compare, "OP" => some ["EQ", "NEQ", "LT", "LTE", "GT", "GTE"]
  | logic, "OP" => some ["AND", "OR"]
  | _, _ => none

theorem isSome_read?_iff_mem {τ : Type} [Spelled τ] {text : String} :
    (Spelled.read? text : Option τ).isSome = true ↔
      text ∈ (Spelled.all : List τ).map Spelled.spell := by
  rw [Phrase.isSome_read?_iff, List.mem_map]
  constructor
  · rintro ⟨t, rfl⟩
    exact ⟨t, Spelled.mem_all t, rfl⟩
  · rintro ⟨t, -, spelled⟩
    exact ⟨t, spelled.symm⟩

theorem isSome_readFlag?_iff_mem {text : String} :
    (readFlag? text).isSome = true ↔ text ∈ ["TRUE", "FALSE"] := by
  rw [Phrase.isSome_readFlag?_iff, Bool.exists_bool, or_comm]
  simp [flagText]

/-- A row admits a text exactly if the row is no choice or the text is one of its spellings. -/
theorem allows_iff {kind : Kind} {name text : String} :
    kind.allows name text = true ↔ ∀ texts, kind.choices? name = some texts → text ∈ texts := by
  unfold allows choices?
  split
  case h_9 => simp_all
  all_goals simp only [Option.some.injEq, forall_eq']
  case h_1 | h_2 => exact isSome_readFlag?_iff_mem
  all_goals exact isSome_read?_iff_mem

/-! ## Lists that fill a table -/

/-- The contents `vs` are what the table of a kind asks for, and what its choices and its branches
ask for beyond that. -/
structure Fills (kind : Kind) (vs : List (SlotValue α)) : Prop where
  table : kind.blockType.isSome
  /-- One content for each row, of the row's shape. -/
  shapes : List.Forall₂ (fun row v => v.fits row.mode = true) kind.fields vs
  /-- The text of a choice is one of its spellings. -/
  texts : ∀ row text, (row, SlotValue.literal text) ∈ kind.fields.zip vs →
    ∀ texts, kind.choices? row.external = some texts → text ∈ texts
  /-- A conditional has a branch, and each branch has its condition. -/
  branches : kind = ifElse → ∀ conditions branches others,
    vs = .repeated conditions :: .repeated branches :: others →
      conditions ≠ [] ∧ branches.length = conditions.length

end Kind

namespace Phrase

theorem fits_of_suits {kind : Kind} {row : FieldSpec} {v : SlotValue α}
    (h : v.suits kind row = true) : v.fits row.mode = true := by
  cases v with
  | literal text =>
    simp only [SlotValue.suits, Bool.and_eq_true, decide_eq_true_eq] at h
    rw [h.1]
    rfl
  | _ => exact h

/-- Contents suit the rows of a kind if they fit and their texts are among the choices. -/
theorem forall₂_suits_iff {kind : Kind} {rows : List FieldSpec} {vs : List (SlotValue α)} :
    List.Forall₂ (fun row v => v.suits kind row = true) rows vs ↔
      List.Forall₂ (fun row v => v.fits row.mode = true) rows vs ∧
        ∀ row text, (row, SlotValue.literal text) ∈ rows.zip vs →
          ∀ texts, kind.choices? row.external = some texts → text ∈ texts := by
  constructor
  · intro suits
    refine ⟨suits.imp fun row v => fits_of_suits, ?_⟩
    intro row text mem
    have here := (List.forall₂_iff_zip.1 suits).2 mem
    rw [suits_iff_of_fits (fits_of_suits here)] at here
    exact Kind.allows_iff.1 (here text rfl)
  · rintro ⟨fits, texts⟩
    obtain ⟨length, each⟩ := List.forall₂_iff_zip.1 fits
    apply List.forall₂_iff_zip.2
    refine ⟨length, ?_⟩
    intro row v mem
    rw [suits_iff_of_fits (each mem)]
    rintro text rfl
    exact Kind.allows_iff.2 (texts row text mem)

/-! ## Slots of phrases -/

/-- The slots of a phrase fill the table of its kind. -/
theorem fills_of_buildable {p : Phrase α} (h : p.Buildable) : p.kind.Fills p.slots := by
  obtain ⟨shapes, texts⟩ := forall₂_suits_iff.1 (suits_slots h)
  refine ⟨h.block, shapes, texts, ?_⟩
  intro kind conditions branches others slots
  cases p <;> cases kind
  cases slots
  exact ⟨h.1, h.2.symm⟩

/-- Contents that fill the table of a kind are the slots of a phrase. -/
theorem exists_buildable {kind : Kind} {vs : List (SlotValue α)} (h : kind.Fills vs) :
    ∃ p : Phrase α, p.kind = kind ∧ p.slots = vs ∧ p.Buildable := by
  obtain ⟨p, rfl, rfl⟩ := exists_slots_eq h.table (forall₂_suits_iff.2 ⟨h.shapes, h.texts⟩)
  refine ⟨p, rfl, rfl, ?_⟩
  cases p with
  | stmtList | emptyExpr => cases h.table
  | ifElse conditions branches otherwise =>
    obtain ⟨some, length⟩ := h.branches rfl conditions branches _ rfl
    exact ⟨some, length.symm⟩
  | extension spec slots => exact h.shapes
  | _ => trivial

/-- Passing on the children as they are builds the phrase again. -/
theorem mapChildren_ok {p : Phrase α} (h : p.Buildable) (label : String) :
    p.mapChildren label (Except.ok : α → Except Error α) = .ok p := by
  have same := mapChildren_eq_ok (f := Except.ok) (g := id) (.inr h) label fun _ _ => rfl
  rw [same, map_id]

/-- Building inverts taking apart: exactly the contents that fill the table of a kind are built,
to the phrase that has them as slots. Such a phrase can be built again from its slots, so every
tree that is read can be copied, and the copy differs in the headers only. -/
theorem build_inverts_slots (kind : Kind) (blockId : String) (vs : List (SlotValue α)) :
    ((∃ p, build kind blockId vs = .ok p) ↔ kind.Fills vs) ∧
      (∀ p, build kind blockId vs = .ok p → p.kind = kind ∧ p.slots = vs ∧
        ∀ label, p.mapChildren label (Except.ok : α → Except Error α) = .ok p) ∧
      ∀ (registry : KindRegistry) (d : Document) (q : Program) (s s' : Supply),
        (Program.ofDocument registry d).run s = (.ok q, s') →
          (∀ n ∈ q.walk, ∀ edition,
            n.deepCopy edition = .ok (n.mapHeaders (Header.copied edition))) ∧
          ∀ t, q.deepCopy.run t =
            (.ok (q.mapHeaders (Header.copied t.nextEdition)), t.afterEdition) := by
  refine ⟨?_, ?_, ?_⟩
  · constructor
    · rintro ⟨p, built⟩
      obtain ⟨rfl, rfl, buildable⟩ := build_eq_ok_iff.1 built
      exact fills_of_buildable buildable
    · intro fills
      obtain ⟨p, made⟩ := exists_buildable fills
      exact ⟨p, build_eq_ok_iff.2 made⟩
  · intro p built
    obtain ⟨rfl, rfl, buildable⟩ := build_eq_ok_iff.1 built
    exact ⟨rfl, rfl, mapChildren_ok buildable⟩
  · intro registry d q s s' read
    have whole : ∀ n ∈ q.walk, n.phrase.Rebuildable := fun n hn =>
      (Program.regular_of_ofDocument read n hn).rebuildable
    refine ⟨?_, Program.deepCopy_run whole⟩
    intro n hn edition
    apply Node.deepCopy_eq_ok
    intro m hm
    exact whole m (Program.walk_subset hn hm)

/-- A comparison of two numbers is built and built again, and a program that was read is copied. -/
theorem build_inverts_slots_product :
    ∃ s, (Program.ofDocument .core product).run {} = (.ok productProgram, s) ∧
      Kind.Fills .compare [.literal "LT", .value 1, .value 2] ∧
      (∀ label, (compare .lt 1 2).mapChildren label (Except.ok : Nat → Except Error Nat) =
        .ok (compare .lt 1 2)) ∧
      ∀ t, productProgram.deepCopy.run t =
        (.ok (productProgram.mapHeaders (Header.copied t.nextEdition)), t.afterEdition) := by
  obtain ⟨s, read⟩ := exists_ofDocument_product
  have built : build .compare "b" [.literal "LT", .value 1, .value 2] = .ok (compare .lt 1 2) := rfl
  obtain ⟨fills, again, copied⟩ :=
    build_inverts_slots .compare "b" [.literal "LT", .value 1, .value 2]
  exact ⟨s, read, fills.1 ⟨_, built⟩, (again _ built).2.2, (copied _ _ _ _ _ read).2⟩

end Phrase

end BlockGraph

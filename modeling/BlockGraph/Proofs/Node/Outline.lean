import BlockGraph.Node.Outline
import BlockGraph.Proofs.Json.Lines
import BlockGraph.Proofs.Mapping.Regular
import BlockGraph.Proofs.Node.Bodies
import BlockGraph.Proofs.Text.LineDiff
import Mathlib.Algebra.Order.BigOperators.Group.List
import Mathlib.Algebra.Order.Ring.Nat

/-!
# The lines of outlines

An outline has a line for every node, in the order of the walk and as far to the right as the node
is deep. Texts are quoted and stay on one line, names and block ids are not: a line break in one of
them makes further lines.

* `Text.breaks_quoted`: a quoted text has no line breaks.
* `Node.levels`: the nodes of a subtree with their depths, in the order of the walk.
* `Node.outlineAt_eq_join`: the outline, line by line.
* `Node.breaks_outlineAt`: how many line breaks it has.
* `Program.outlined_of_ofDocument`: the outlines of what is read.
-/

namespace BlockGraph

variable {α β : Type}

/-! ## Line breaks -/

namespace Text

/-- How many line breaks a text has. -/
def breaks (text : String) : Nat := text.toList.count '\n'

@[simp] theorem breaks_append (s t : String) : breaks (s ++ t) = breaks s + breaks t := by
  unfold breaks
  rw [String.toList_append, List.count_append]

theorem breaks_join (ts : List String) : breaks (String.join ts) = (ts.map breaks).sum := by
  unfold breaks
  rw [String.toList_join, List.count_flatMap]
  rfl

theorem join_flatMap (l : List α) (f : α → List String) :
    String.join (l.flatMap f) = String.join (l.map fun a => String.join (f a)) := by
  induction l with
  | nil => rfl
  | cons a l ih =>
    rw [List.flatMap_cons, String.join_append, ih, List.map_cons, String.join_cons]

theorem breaks_eq_zero_iff {text : String} : breaks text = 0 ↔ '\n' ∉ text.toList :=
  List.count_eq_zero

theorem breaks_toString (n : Nat) : breaks (toString n) = 0 :=
  breaks_eq_zero_iff.2 (Json.lineBreak_not_mem_nat n)

theorem lineBreak_not_mem_quotedChar (c : Char) : '\n' ∉ quotedChar c := by
  by_cases ending : c = '\n'
  · subst ending
    decide
  · unfold quotedChar
    split
    case h_7 =>
      split
      · have digits : '\n' ∉ hex c.toNat := Json.lineBreak_not_mem_toDigits (by decide) c.toNat
        simp [digits]
      · simpa using Ne.symm ending
    all_goals decide

/-- A quoted text stays on its line. -/
theorem breaks_quoted (text : String) : breaks (quoted text) = 0 := by
  have inside : '\n' ∉ text.toList.flatMap quotedChar := by
    intro h
    obtain ⟨c, -, h⟩ := List.mem_flatMap.1 h
    exact lineBreak_not_mem_quotedChar c h
  rw [breaks_eq_zero_iff, quoted]
  simp [inside]

/-- The line breaks in the name of a slot, if there is one. -/
def slotBreaks (slot : Option String) : Nat := slot.elim 0 breaks

end Text

open Text

/-! ## Names of children -/

/-- How often the name of a row stands in an outline: at its text, or at each of its children. -/
def SlotValue.uses : SlotValue α → Nat
  | literal _ => 1
  | v => v.nodes.length

namespace Node

theorem map_snd_namedNodes (row : FieldSpec × SlotValue α) :
    (namedNodes row).map Prod.snd = row.2.nodes := by
  obtain ⟨spec, v⟩ := row
  cases v with
  | optionalStatement node => cases node <;> rfl
  | repeated nodes => simp [namedNodes, SlotValue.nodes, Function.comp_def]
  | _ => rfl

theorem namedNodes_map (f : α → β) (spec : FieldSpec) (v : SlotValue α) :
    namedNodes (spec, v.map f) = (namedNodes (spec, v)).map (fun c => (c.1, f c.2)) := by
  cases v with
  | optionalStatement node => cases node <;> rfl
  | repeated nodes =>
    simp [namedNodes, SlotValue.map, List.zipIdx_map, Function.comp_def]
  | _ => rfl

theorem namedChildren_map (f : α → β) (p : Phrase α) :
    namedChildren (p.map f) = (namedChildren p).map (fun c => (c.1, f c.2)) := by
  have general (q : Phrase α) : ((q.map f).kind.fields.zip (q.map f).slots).flatMap namedNodes =
      ((q.kind.fields.zip q.slots).flatMap namedNodes).map (fun c => (c.1, f c.2)) := by
    rw [Phrase.kind_map, Phrase.slots_map, List.zip_map_right, List.flatMap_map, List.map_flatMap]
    apply List.flatMap_congr
    intro row _
    exact namedNodes_map f row.1 row.2
  cases p with
  | stmtList statements => simp [namedChildren, Phrase.map, Function.comp_def]
  | _ => exact general _

/-- The named children of a phrase that can be built are its children, in this order. -/
theorem map_snd_namedChildren {p : Phrase α} (h : p.Rebuildable) :
    (namedChildren p).map Prod.snd = p.children := by
  have general (buildable : p.Buildable) :
      ((p.kind.fields.zip p.slots).flatMap namedNodes).map Prod.snd = p.children := by
    have length := Phrase.length_slots buildable
    have slots : (p.kind.fields.zip p.slots).map Prod.snd = p.slots :=
      List.map_snd_zip (Nat.le_of_eq length)
    rw [buildable.children, ← slots, List.flatMap_map, List.map_flatMap, slots]
    apply List.flatMap_congr
    intro row _
    exact map_snd_namedNodes row
  cases p with
  | stmtList statements => simp [namedChildren, Phrase.children, Function.comp_def]
  | emptyExpr => rfl
  | _ => exact general (h.resolve_left (Option.some_ne_none _))

/-- The line breaks in the names of a row's slots. -/
theorem breaks_row (row : FieldSpec × SlotValue α) :
    breaks (literalText row) + ((namedNodes row).map fun c => slotBreaks c.1).sum =
      row.2.uses * breaks row.1.external := by
  obtain ⟨spec, v⟩ := row
  cases v with
  | literal text =>
    show breaks (" " ++ spec.external ++ "=" ++ quoted text) + 0 = 1 * breaks spec.external
    simp only [breaks_append, breaks_quoted]
    rw [show breaks " " = 0 from rfl, show breaks "=" = 0 from rfl]
    omega
  | value node | statement node =>
    show 0 + (breaks spec.external + 0) = 1 * breaks spec.external
    omega
  | optionalStatement node =>
    cases node with
    | none =>
      show 0 + 0 = 0 * breaks spec.external
      omega
    | some node =>
      show 0 + (breaks spec.external + 0) = 1 * breaks spec.external
      omega
  | repeated nodes =>
    have each : (nodes.zipIdx.map fun n => breaks (spec.external ++ toString n.2)) =
        nodes.zipIdx.map fun _ => breaks spec.external := by
      apply List.map_congr_left
      intro n _
      rw [breaks_append, breaks_toString]
      rfl
    show 0 + ((nodes.zipIdx.map fun n => (some (spec.external ++ toString n.2), n.1)).map
      fun c => slotBreaks c.1).sum = nodes.length * breaks spec.external
    rw [List.map_map]
    show 0 + (nodes.zipIdx.map fun n => breaks (spec.external ++ toString n.2)).sum = _
    rw [each, Nat.zero_add]
    simp

/-- The line breaks in the names of all slots. -/
theorem breaks_rows (p : Phrase α) :
    ((p.kind.fields.zip p.slots).map fun row => breaks (literalText row)).sum +
        ((namedChildren p).map fun c => slotBreaks c.1).sum =
      ((p.kind.fields.zip p.slots).map fun row => row.2.uses * breaks row.1.external).sum := by
  have general (rows : List (FieldSpec × SlotValue α)) :
      (rows.map fun row => breaks (literalText row)).sum +
          ((rows.flatMap namedNodes).map fun c => slotBreaks c.1).sum =
        (rows.map fun row => row.2.uses * breaks row.1.external).sum := by
    induction rows with
    | nil => rfl
    | cons row rows ih =>
      have here := breaks_row row
      rw [List.map_cons, List.sum_cons, List.flatMap_cons, List.map_append, List.sum_append,
        List.map_cons, List.sum_cons]
      omega
  cases p with
  | stmtList statements =>
    show 0 + ((statements.map fun c => ((none : Option String), c)).map
      fun c => slotBreaks c.1).sum = 0
    rw [Nat.zero_add, List.map_map]
    exact List.sum_eq_zero (by simp [slotBreaks])
  | _ => exact general _

/-! ## Lines -/

/-- A line of an outline: a node, its depth, and the name of the slot that it is in. -/
structure Entry where
  node : Node
  depth : Nat
  slot : Option String

def Entry.line (e : Entry) : String := e.node.outlineLine e.depth e.slot

/-- The lines of an outline, from the top down. -/
def entries : Node → (depth : Nat) → (slot : Option String) → List Entry :=
  recurse fun n p depth slot =>
    ⟨n, depth, slot⟩ :: (namedChildren p).flatMap fun c => c.2.result (depth + 1) c.1

/-- A node and everything below it with their depths, in the order of the walk. -/
def levels : Node → (depth : Nat) → List (Node × Nat) :=
  recurse fun n p depth => (n, depth) :: p.children.flatMap fun c => c.result (depth + 1)

theorem entries_eq (n : Node) (depth : Nat) (slot : Option String) :
    n.entries depth slot = ⟨n, depth, slot⟩ ::
      (namedChildren n.phrase).flatMap fun c => c.2.entries (depth + 1) c.1 := by
  rw [entries, recurse_eq, namedChildren_map, List.flatMap_map]

theorem levels_eq (n : Node) (depth : Nat) :
    n.levels depth = (n, depth) :: n.children.flatMap fun c => c.levels (depth + 1) := by
  rw [levels, recurse_eq, Phrase.children_map, List.flatMap_map]
  rfl

theorem outlineAt_eq (n : Node) (depth : Nat) (slot : Option String) :
    n.outlineAt depth slot = n.outlineLine depth slot ++ "\n" ++
      String.join ((namedChildren n.phrase).map fun c => c.2.outlineAt (depth + 1) c.1) := by
  rw [outlineAt, recurse_eq, namedChildren_map, List.map_map]
  rfl

/-- Without the depths the levels are the walk. -/
theorem map_fst_levels (n : Node) (depth : Nat) : (n.levels depth).map Prod.fst = n.walk := by
  induction n using Node.induction generalizing depth with
  | step n ih =>
    rw [levels_eq, walk_eq, List.map_cons, List.map_flatMap]
    show n :: _ = n :: _
    congr 1
    apply List.flatMap_congr
    intro c hc
    exact ih c hc (depth + 1)

section

variable {n : Node}

/-- The named children of a node. -/
theorem exists_named (whole : ∀ m ∈ n.walk, m.phrase.Rebuildable) :
    (namedChildren n.phrase).map Prod.snd = n.children ∧
      ∀ c ∈ namedChildren n.phrase, c.2 ∈ n.children ∧ ∀ m ∈ c.2.walk, m.phrase.Rebuildable := by
  have names := map_snd_namedChildren (whole n (mem_walk_self n))
  refine ⟨names, ?_⟩
  intro c hc
  have child : c.2 ∈ n.children := by
    show c.2 ∈ n.phrase.children
    rw [← names]
    exact List.mem_map_of_mem hc
  exact ⟨child, fun m hm => whole m (walk_subset (mem_walk_of_mem_children child) hm)⟩

/-- The lines of an outline belong to the nodes in the order of the walk, at their depths. -/
theorem map_entries (whole : ∀ m ∈ n.walk, m.phrase.Rebuildable) (depth : Nat)
    (slot : Option String) :
    (n.entries depth slot).map (fun e => (e.node, e.depth)) = n.levels depth := by
  induction n using Node.induction generalizing depth slot with
  | step n ih =>
    obtain ⟨names, inside⟩ := exists_named whole
    rw [entries_eq, levels_eq, ← names, List.map_cons, List.map_flatMap, List.flatMap_map]
    congr 1
    apply List.flatMap_congr
    intro c hc
    obtain ⟨child, below⟩ := inside c hc
    exact ih c.2 child below (depth + 1) c.1

/-- An outline is its lines, each ended by a line break. -/
theorem outlineAt_eq_join (whole : ∀ m ∈ n.walk, m.phrase.Rebuildable) (depth : Nat)
    (slot : Option String) :
    n.outlineAt depth slot = String.join ((n.entries depth slot).map fun e => e.line ++ "\n") := by
  induction n using Node.induction generalizing depth slot with
  | step n ih =>
    obtain ⟨-, inside⟩ := exists_named whole
    have below : ((namedChildren n.phrase).map fun c => c.2.outlineAt (depth + 1) c.1) =
        (namedChildren n.phrase).map fun c =>
          String.join ((c.2.entries (depth + 1) c.1).map fun e => e.line ++ "\n") := by
      apply List.map_congr_left
      intro c hc
      obtain ⟨child, below⟩ := inside c hc
      exact ih c.2 child below (depth + 1) c.1
    rw [outlineAt_eq, entries_eq, below, List.map_cons, String.join_cons, List.map_flatMap,
      join_flatMap]
    rfl

end

/-! ## Counting -/

/-- The line breaks in the names that a node brings into an outline: its kind, its block id, and
the names of its slots. -/
def breaks (n : Node) : Nat :=
  Text.breaks n.kind.name + slotBreaks n.blockId? +
    ((n.kind.fields.zip n.phrase.slots).map fun row =>
      row.2.uses * Text.breaks row.1.external).sum

/-- The line breaks in a line: those in the names that it shows. -/
theorem breaks_outlineLine (n : Node) (depth : Nat) (slot : Option String) :
    Text.breaks (n.outlineLine depth slot) = slotBreaks slot + Text.breaks n.kind.name +
      slotBreaks n.blockId? + ((n.kind.fields.zip n.phrase.slots).map fun row =>
        Text.breaks (literalText row)).sum := by
  have blanks : Text.breaks (String.ofList (List.replicate (2 * depth) ' ')) = 0 := by
    rw [breaks_eq_zero_iff, String.toList_ofList]
    exact Json.lineBreak_not_mem_blanks _
  have mark (shown : Bool) (text : String) (flat : Text.breaks text = 0) :
      Text.breaks (if shown then text else "") = 0 := by
    cases shown with
    | false => rfl
    | true => exact flat
  have disabled := mark n.attributes.disabled " [disabled]" rfl
  have detached := mark (n.attributes.inTask == some false) " [detached]" rfl
  unfold outlineLine
  simp only [breaks_append, blanks, disabled, detached, breaks_join, List.map_map]
  cases slot <;> cases n.blockId? <;>
    simp only [breaks_append, slotBreaks, Option.elim, Function.comp_def,
      show Text.breaks "" = 0 from rfl, show Text.breaks ": " = 0 from rfl,
      show Text.breaks " #" = 0 from rfl] <;> omega

/-- The line breaks in an outline: one for each node, and those in names. -/
theorem breaks_outlineAt {n : Node} (whole : ∀ m ∈ n.walk, m.phrase.Rebuildable) (depth : Nat)
    (slot : Option String) :
    Text.breaks (n.outlineAt depth slot) =
      slotBreaks slot + (n.walk.map fun m => 1 + m.breaks).sum := by
  induction n using Node.induction generalizing depth slot with
  | step n ih =>
    obtain ⟨names, inside⟩ := exists_named whole
    have below : ((namedChildren n.phrase).map fun c =>
        Text.breaks (c.2.outlineAt (depth + 1) c.1)) = (namedChildren n.phrase).map fun c =>
          slotBreaks c.1 + (c.2.walk.map fun m => 1 + m.breaks).sum := by
      apply List.map_congr_left
      intro c hc
      obtain ⟨child, below⟩ := inside c hc
      exact ih c.2 child below (depth + 1) c.1
    have rows := breaks_rows n.phrase
    have walk : ((n.children.flatMap Node.walk).map fun m => 1 + m.breaks).sum =
        ((namedChildren n.phrase).map fun c => (c.2.walk.map fun m => 1 + m.breaks).sum).sum := by
      rw [← names, List.flatMap_map, List.map_flatMap, List.flatMap_def, List.sum_flatten,
        List.map_map]
      rfl
    rw [outlineAt_eq, breaks_append, breaks_append, breaks_outlineLine, breaks_join, List.map_map,
      walk_eq, List.map_cons, List.sum_cons, walk]
    show _ + _ + ((namedChildren n.phrase).map fun c =>
      Text.breaks (c.2.outlineAt (depth + 1) c.1)).sum = _
    rw [below, List.sum_map_add, show Text.breaks "\n" = 1 from rfl, breaks]
    rw [show n.phrase.kind = n.kind from rfl] at rows
    omega

/-! ## Whole outlines -/

/-- The line of a node begins with two blanks for each level. -/
theorem blanks_prefix_outlineLine (n : Node) (depth : Nat) (slot : Option String) :
    List.replicate (2 * depth) ' ' <+: (n.outlineLine depth slot).toList := by
  unfold outlineLine
  simp only [String.toList_append, String.toList_ofList, List.append_assoc]
  exact List.prefix_append _ _

/-- What the outline of a subtree with the lines `ls` tells. -/
structure Outlined (n : Node) (ls : List String) : Prop where
  text : n.outline = String.join (ls.map (· ++ "\n"))
  ending : ∃ before, n.outline = before ++ "\n"
  /-- The lines belong to the nodes in the order of the walk, at their depths. -/
  nodes : (n.levels 0).map Prod.fst = n.walk
  lines : List.Forall₂ (fun e line => List.replicate (2 * e.2) ' ' <+: line.toList ∧
    ∃ slot, line = e.1.outlineLine e.2 slot) (n.levels 0) ls
  breaks : Text.breaks n.outline = (n.walk.map fun m => 1 + m.breaks).sum
  /-- There are as many line breaks as nodes if there are none in names. -/
  single : Text.breaks n.outline = n.walk.length ↔ ∀ m ∈ n.walk, m.breaks = 0
  /-- Then the lines are what stands between the line breaks. -/
  split : (∀ m ∈ n.walk, m.breaks = 0) →
    LineDiff.splitLines n.outline.toList = ls.map String.toList ++ [[]]

theorem sum_one_add {γ : Type} (l : List γ) (f : γ → Nat) :
    (l.map fun c => 1 + f c).sum = l.length + (l.map f).sum := by
  rw [List.sum_map_add, List.map_const', List.sum_replicate, nsmul_one, Nat.cast_id]

theorem breaks_lines (ls : List String) :
    Text.breaks (String.join (ls.map (· ++ "\n"))) = ls.length + (ls.map Text.breaks).sum := by
  rw [breaks_join, List.map_map, ← sum_one_add]
  congr 1
  apply List.map_congr_left
  intro line _
  show Text.breaks (line ++ "\n") = _
  rw [breaks_append, Nat.add_comm]
  rfl

theorem exists_ending {ls : List String} (some : ls ≠ []) :
    ∃ before, String.join (ls.map (· ++ "\n")) = before ++ "\n" := by
  rcases List.eq_nil_or_concat ls with rfl | ⟨init, last, rfl⟩
  · exact absurd rfl some
  · refine ⟨String.join (init.map (· ++ "\n")) ++ last, ?_⟩
    rw [List.concat_eq_append, List.map_append, String.join_append, List.map_singleton,
      String.join_cons, String.join_nil, String.append_empty, String.append_assoc]

/-- Lines without line breaks are found again. -/
theorem splitLines_lines {ls : List String} (flat : ∀ line ∈ ls, Text.breaks line = 0) :
    LineDiff.splitLines (String.join (ls.map (· ++ "\n"))).toList =
      ls.map String.toList ++ [[]] := by
  induction ls with
  | nil => rfl
  | cons line ls ih =>
    rw [List.forall_mem_cons] at flat
    rw [List.map_cons, String.join_cons, String.toList_append, String.toList_append,
      List.append_assoc]
    have rest := LineDiff.splitLines_break (String.join (ls.map (· ++ "\n"))).toList
    have first := LineDiff.splitLines_append (breaks_eq_zero_iff.1 flat.1) rest
    rw [ih flat.2, List.append_nil] at first
    exact first

/-- The outline of a subtree whose phrases can be built. -/
theorem exists_outlined {n : Node} (whole : ∀ m ∈ n.walk, m.phrase.Rebuildable) :
    ∃ ls, n.Outlined ls := by
  have text : n.outline =
      String.join (((n.entries 0 none).map Entry.line).map (· ++ "\n")) := by
    rw [outline, outlineAt_eq_join whole, List.map_map]
    rfl
  have nodes := map_fst_levels n 0
  have count : Text.breaks n.outline = (n.walk.map fun m => 1 + m.breaks).sum := by
    rw [outline, breaks_outlineAt whole]
    exact Nat.zero_add _
  have single : Text.breaks n.outline = n.walk.length ↔ ∀ m ∈ n.walk, m.breaks = 0 := by
    rw [count, sum_one_add, Nat.add_eq_left, List.sum_eq_zero_iff, List.forall_mem_map]
  have length : ((n.entries 0 none).map Entry.line).length = n.walk.length := by
    rw [← nodes, ← map_entries whole 0 none]
    simp
  refine ⟨(n.entries 0 none).map Entry.line, text, ?_, nodes, ?_, count, single, ?_⟩
  · rw [text]
    apply exists_ending
    rw [entries_eq]
    exact List.cons_ne_nil _ _
  · rw [← map_entries whole 0 none, List.forall₂_map_left_iff, List.forall₂_map_right_iff,
      List.forall₂_same]
    intro e _
    exact ⟨blanks_prefix_outlineLine e.node e.depth e.slot, e.slot, rfl⟩
  · intro plain
    rw [text]
    apply splitLines_lines
    have total := single.2 plain
    rw [text, breaks_lines, length, Nat.add_eq_left, List.sum_eq_zero_iff,
      List.forall_mem_map] at total
    exact total

end Node

/-- In a program that was read every outline has a line for every node, which begins with two
blanks for each level. These are all lines unless there are line breaks in the names of kinds and
slots or in block ids. -/
theorem Program.outlined_of_ofDocument {registry : KindRegistry} {d : Document} {p : Program}
    {s s' : Supply} (read : (ofDocument registry d).run s = (.ok p, s')) :
    ∀ n ∈ p.walk, ∃ ls, n.Outlined ls := by
  intro n hn
  apply Node.exists_outlined
  intro m hm
  exact (regular_of_ofDocument read m (walk_subset hn hm)).rebuildable

/-- A block with the given id, and nothing else. -/
def stopped (id : String) : Document where
  formatVersion := "3.1"
  instances := [{ blocks := [.mk {
    id, type := "robActions_motor_stop", fields := [⟨"MOTORPORT", "A"⟩] }] }]

theorem Program.outlined_stopped :
    ∃ p s', (ofDocument .core (stopped "a")).run {} = (.ok p, s') ∧
      (∀ n ∈ p.walk, ∃ ls, n.Outlined ls) ∧
        ∀ n ∈ p.walk, Text.breaks n.outline = n.walk.length := by
  have computed : ((ofDocument .core (stopped "a")).run {}).1.toOption.any (fun p =>
      p.walk.all fun n => Text.breaks n.outline == n.walk.length) = true := by decide +kernel
  obtain ⟨p, s', read, single⟩ := Except.exists_eq_ok_of_any_fst computed
  refine ⟨p, s', read, outlined_of_ofDocument read, ?_⟩
  simpa using single

/-- A line break in a block id is written as it is: here an outline of two nodes has three lines. -/
theorem Program.not_single_stopped :
    ∃ p s', (ofDocument .core (stopped "a\nb")).run {} = (.ok p, s') ∧
      ∃ n ∈ p.walk, n.walk.length = 2 ∧ Text.breaks n.outline = 3 := by
  have computed : ((ofDocument .core (stopped "a\nb")).run {}).1.toOption.any (fun p =>
      p.walk.any fun n => n.walk.length == 2 && Text.breaks n.outline == 3) = true := by
    decide +kernel
  obtain ⟨p, s', read, single⟩ := Except.exists_eq_ok_of_any_fst computed
  refine ⟨p, s', read, ?_⟩
  simpa using single

end BlockGraph

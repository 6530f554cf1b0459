import BlockGraph.Text.LineDiff
import Mathlib.Data.List.Basic

/-!
# Line differences

The edits from one text to another spell both texts, whatever lines they share. The lines that are
found to be shared are as many as there can be if the texts begin alike: before the first cell of a
row the search looks at a cell of the row above, and it comes to the first column only for the first
line if nothing but the first two lines of the left text can be the second line of the right one.

* `LineDiff.IsLcs`: longest common subsequences.
* `LineDiff.longest_cell`: the table has their lengths.
* `LineDiff.isLcs_common`: what is read off from the table, for texts that begin alike.
* `LineDiff.spells_merge`: the edits spell both texts.
-/

namespace BlockGraph.Text.LineDiff

/-! ## Longest common subsequences -/

section Lcs

variable {α : Type} {c d l r : List α} {x y : α} {m n : Nat}

/-- `c` is a longest common subsequence of `l` and `r`. -/
structure IsLcs (c l r : List α) : Prop where
  left : c.Sublist l
  right : c.Sublist r
  longest : ∀ d : List α, d.Sublist l → d.Sublist r → d.length ≤ c.length

/-- The length of the longest common subsequences of `l` and `r` is `n`. -/
def Longest (l r : List α) (n : Nat) : Prop := ∃ c, IsLcs c l r ∧ c.length = n

theorem IsLcs.symm (h : IsLcs c l r) : IsLcs c r l :=
  ⟨h.right, h.left, fun d left right => h.longest d right left⟩

theorem IsLcs.nil_left (r : List α) : IsLcs [] [] r := by
  refine ⟨.slnil, List.nil_sublist r, fun d left _ => ?_⟩
  exact Nat.le_of_eq (congrArg List.length (List.sublist_nil.1 left))

theorem Longest.le (h : Longest l r n) (left : d.Sublist l) (right : d.Sublist r) :
    d.length ≤ n := by
  obtain ⟨c, lcs, rfl⟩ := h
  exact lcs.longest d left right

theorem IsLcs.length_eq (h : IsLcs c l r) (len : Longest l r n) : c.length = n := by
  obtain ⟨d, lcs, rfl⟩ := len
  exact Nat.le_antisymm (lcs.longest c h.left h.right) (h.longest d lcs.left lcs.right)

theorem Longest.symm (h : Longest l r n) : Longest r l n := by
  obtain ⟨c, lcs, length⟩ := h
  exact ⟨c, lcs.symm, length⟩

/-- A subsequence takes the last element or does without it. -/
theorem sublist_concat_iff :
    d.Sublist (l ++ [x]) ↔ d.Sublist l ∨ ∃ e, d = e ++ [x] ∧ e.Sublist l := by
  rw [List.sublist_append_iff]
  constructor
  · rintro ⟨e, f, rfl, below, last⟩
    rcases List.sublist_singleton.1 last with rfl | rfl
    · rw [List.append_nil]
      exact .inl below
    · exact .inr ⟨e, rfl, below⟩
  · rintro (below | ⟨e, rfl, below⟩)
    · exact ⟨d, [], (List.append_nil d).symm, below, List.nil_sublist _⟩
    · exact ⟨e, [x], rfl, below, .refl _⟩

/-- A last element that both lists have belongs to a longest common subsequence. -/
theorem IsLcs.concat (h : IsLcs c l r) : IsLcs (c ++ [x]) (l ++ [x]) (r ++ [x]) := by
  refine ⟨h.left.append_right _, h.right.append_right _, fun d left right => ?_⟩
  have short (e : List α) (le : e.Sublist l) (re : e.Sublist r) : e.length + 1 ≤ c.length + 1 :=
    Nat.succ_le_succ (h.longest e le re)
  rw [List.length_append, List.length_singleton]
  rcases sublist_concat_iff.1 left with left | ⟨e, rfl, le⟩ <;>
    rcases sublist_concat_iff.1 right with right | ⟨f, same, re⟩
  · exact Nat.le_succ_of_le (h.longest d left right)
  · subst same
    rw [List.length_append, List.length_singleton]
    exact short f ((List.sublist_append_left f [x]).trans left) re
  · rw [List.length_append, List.length_singleton]
    exact short e le ((List.sublist_append_left e [x]).trans right)
  · obtain ⟨rfl, -⟩ := List.append_inj' same rfl
    rw [List.length_append, List.length_singleton]
    exact short e le re

/-- Of two different last elements a common subsequence does without one. -/
theorem sublist_or_of_ne (ne : x ≠ y) (left : d.Sublist (l ++ [x])) (right : d.Sublist (r ++ [y])) :
    d.Sublist l ∨ d.Sublist r := by
  rcases sublist_concat_iff.1 left with left | ⟨e, rfl, -⟩
  · exact .inl left
  · rcases sublist_concat_iff.1 right with right | ⟨f, same, -⟩
    · exact .inr right
    · obtain ⟨-, same⟩ := List.append_inj' same rfl
      exact absurd (List.singleton_inj.1 same) ne

theorem IsLcs.concat_right (ne : x ≠ y) (h : IsLcs c (l ++ [x]) r) (len : Longest l (r ++ [y]) n)
    (le : n ≤ c.length) : IsLcs c (l ++ [x]) (r ++ [y]) := by
  refine ⟨h.left, h.right.trans (List.sublist_append_left r [y]), fun d left right => ?_⟩
  rcases sublist_or_of_ne ne left right with left' | right'
  · exact Nat.le_trans (len.le left' right) le
  · exact h.longest d left right'

theorem IsLcs.concat_left (ne : x ≠ y) (h : IsLcs c l (r ++ [y])) (len : Longest (l ++ [x]) r n)
    (le : n ≤ c.length) : IsLcs c (l ++ [x]) (r ++ [y]) :=
  (h.symm.concat_right ne.symm len.symm le).symm

theorem Longest.nil_left (r : List α) : Longest [] r 0 := ⟨[], .nil_left r, rfl⟩

theorem Longest.nil_right (l : List α) : Longest l [] 0 := (Longest.nil_left l).symm

theorem Longest.concat (h : Longest l r n) : Longest (l ++ [x]) (r ++ [x]) (n + 1) := by
  obtain ⟨c, lcs, rfl⟩ := h
  exact ⟨c ++ [x], lcs.concat, List.length_append⟩

theorem Longest.concat_max (ne : x ≠ y) (left : Longest (l ++ [x]) r m)
    (right : Longest l (r ++ [y]) n) : Longest (l ++ [x]) (r ++ [y]) (max m n) := by
  obtain ⟨c, lcs, rfl⟩ := left
  obtain ⟨d, lcs', rfl⟩ := right
  rcases Nat.le_total d.length c.length with le | le
  · exact ⟨c, lcs.concat_right ne ⟨d, lcs', rfl⟩ le, (Nat.max_eq_left le).symm⟩
  · exact ⟨d, lcs'.concat_left ne ⟨c, lcs, rfl⟩ le, (Nat.max_eq_right le).symm⟩

end Lcs

/-! ## The table -/

/-- A row of the table for the lines `l`, from behind the lines `done` of the right text on. -/
inductive Row (l : List String) : (done rest : List String) → List Nat → Prop
  | nil {done : List String} : Row l done [] []
  | cons {done rest : List String} {line : String} {n : Nat} {cells : List Nat} :
      Longest l (done ++ [line]) n → Row l (done ++ [line]) rest cells →
        Row l done (line :: rest) (n :: cells)

theorem row_zeros (done rest : List String) : Row [] done rest (rest.map fun _ => 0) := by
  induction rest generalizing done with
  | nil => exact .nil
  | cons line rest ih => exact .cons (.nil_left _) (ih _)

/-- The next row of the table. -/
theorem row_rowFrom {l done rest : List String} {line : String} {diagonal left : Nat}
    {above : List Nat} (corner : Longest l done diagonal) (before : Longest (l ++ [line]) done left)
    (row : Row l done rest above) :
    Row (l ++ [line]) done rest (rowFrom line diagonal left (rest.zip above)) := by
  induction row generalizing diagonal left with
  | nil => exact .nil
  | @cons done rest other up above first row ih =>
    rw [List.zip_cons_cons, rowFrom]
    have cell : Longest (l ++ [line]) (done ++ [other])
        (if other = line then diagonal + 1 else max left up) := by
      split
      · next same =>
        rw [same]
        exact corner.concat
      · next ne => exact before.concat_max (Ne.symm ne) first
    exact .cons cell (ih first cell)

theorem Row.longest {l done rest : List String} {cells : List Nat} (row : Row l done rest cells)
    {j : Nat} (h : j < rest.length) :
    Longest l (done ++ rest.take (j + 1)) (cells.getD j 0) := by
  induction row generalizing j with
  | nil => cases h
  | @cons done rest line n cells first row ih =>
    cases j with
    | zero => exact first
    | succ j =>
      have further := ih (Nat.lt_of_succ_lt_succ h)
      rw [List.append_assoc] at further
      exact further

/-- The rows for the lines of the left text. -/
theorem row_rowsFrom {right l left : List String} {cells : List Nat}
    (row : Row l [] right cells) {i : Nat} (h : i < left.length) :
    Row (l ++ left.take (i + 1)) [] right ((rowsFrom right cells left).getD i []) := by
  induction left generalizing l cells i with
  | nil => cases h
  | cons line left ih =>
    have next := row_rowFrom (.nil_right l) (.nil_right (l ++ [line])) row
    rw [rowsFrom]
    cases i with
    | zero => exact next
    | succ i =>
      have further := ih next (Nat.lt_of_succ_lt_succ h)
      rw [List.append_assoc] at further
      exact further

/-- The cells of the table are what they should be. -/
theorem longest_cell {left right : List String} {i j : Nat} (hi : i < left.length)
    (hj : j < right.length) :
    Longest (left.take (i + 1)) (right.take (j + 1)) (cell (table left right) i j) := by
  have row := row_rowsFrom (row_zeros [] right) hi
  have found := row.longest hj
  rw [List.nil_append, List.nil_append] at found
  convert found using 1
  simp only [cell, table, Array.getD_eq_getD_getElem?, List.getElem?_toArray, List.getElem?_map,
    List.getD_eq_getElem?_getD]
  cases (rowsFrom right (right.map fun _ => 0) left)[i]? <;> simp

/-! ## Common lines -/

variable {left right : List String}

/-- Two texts begin alike if they have the same first line, and the second line of the right one is
none of the lines of the left one after the second. -/
inductive BeginAlike : List String → List String → Prop
  | intro (first s : String) {t : String} {l r : List String} (other : t ∉ l) :
      BeginAlike (first :: s :: l) (first :: t :: r)

theorem take_succ_getD {l : List String} {i : Nat} (h : i < l.length) :
    l.take (i + 1) = l.take i ++ [l.toArray.getD i ""] := by
  rw [List.take_succ_eq_append_getElem h]
  simp [h]

theorem BeginAlike.le_one (h : BeginAlike left right) {i : Nat} (hi : i < left.length)
    (same : left.toArray.getD i "" = right.toArray.getD 1 "") : i ≤ 1 := by
  obtain ⟨first, s, other⟩ := h
  by_contra far
  obtain ⟨k, rfl⟩ : ∃ k, i = k + 2 := ⟨i - 2, by omega⟩
  refine other ?_
  simp only [List.length_cons, Nat.add_lt_add_iff_right] at hi
  simp only [Array.getD_eq_getD_getElem?, List.getElem?_toArray, List.getElem?_cons_succ,
    List.getElem?_cons_zero, List.getElem?_eq_getElem hi, Option.getD_some] at same
  exact same ▸ List.getElem_mem hi

/-- The first line is shared. -/
theorem BeginAlike.one_le (h : BeginAlike left right) {i j n : Nat}
    (len : Longest (left.take (i + 1)) (right.take (j + 1)) n) : 1 ≤ n := by
  obtain ⟨first, s, -⟩ := h
  have common (l : List String) (k : Nat) : [first].Sublist ((first :: l).take (k + 1)) :=
    (List.nil_sublist _).cons_cons first
  exact len.le (common _ i) (common _ j)

/-- The search finds a longest common subsequence of the lines that are left. It does not come to
the first column before the first row, so the cell that it compares with is the one to the left. -/
theorem isLcs_backtrack (alike : BeginAlike left right) {i j : Nat} (hi : i ≤ left.length)
    (hj : j ≤ right.length) (start : 2 ≤ j ∨ i ≤ 1) (shared : List String) :
    ∃ c, backtrack (table left right) left.toArray right.toArray i j shared = c ++ shared ∧
      IsLcs c (left.take i) (right.take j) := by
  fun_induction backtrack (table left right) left.toArray right.toArray i j shared with
  | case1 j shared => exact ⟨[], rfl, .nil_left _⟩
  | case2 i shared => exact ⟨[], rfl, (IsLcs.nil_left _).symm⟩
  | case3 i j shared line same ih =>
    have next : 2 ≤ j ∨ i ≤ 1 := by
      by_cases second : j = 1
      · subst second
        exact .inr (alike.le_one hi same)
      · omega
    obtain ⟨c, found, lcs⟩ := ih (Nat.le_of_lt hi) (Nat.le_of_lt hj) next
    refine ⟨c ++ [line], by rw [found, List.append_assoc]; rfl, ?_⟩
    rw [take_succ_getD hi, take_succ_getD hj, ← same]
    exact lcs.concat
  | case4 i j shared line ne corner =>
    obtain ⟨rfl, rfl⟩ := corner
    refine ⟨[], rfl, ?_⟩
    rw [take_succ_getD hi, take_succ_getD hj]
    exact (IsLcs.nil_left _).symm.concat_right ne (.nil_left _) (Nat.le_refl 0)
  | case5 i j shared line ne corner leftwards ih =>
    rcases Nat.eq_zero_or_pos i with rfl | below
    · obtain ⟨c, found, lcs⟩ := ih hi (Nat.le_of_lt hj) (.inr (Nat.le_refl 1))
      refine ⟨c, found, ?_⟩
      rw [take_succ_getD hi, take_succ_getD hj] at *
      exact lcs.concat_right ne (.nil_left _) (Nat.zero_le _)
    · obtain ⟨i, rfl⟩ : ∃ k, i = k + 1 := ⟨i - 1, by omega⟩
      obtain ⟨j, rfl⟩ : ∃ k, j = k + 1 := ⟨j - 1, by omega⟩
      have less : cell (table left right) i (j + 1) < cell (table left right) (i + 1) j :=
        leftwards.resolve_left (Nat.succ_ne_zero i)
      have before := longest_cell hi (Nat.lt_of_succ_lt hj)
      have above := longest_cell (Nat.lt_of_succ_lt hi) hj
      have next : 2 ≤ j + 1 := by
        by_contra first
        obtain rfl : j = 0 := by omega
        obtain ⟨c, lcs, length⟩ := before
        have short := lcs.right.length_le
        have one := alike.one_le above
        rw [List.length_take] at short
        omega
      obtain ⟨c, found, lcs⟩ := ih hi (Nat.le_of_lt hj) (.inl next)
      refine ⟨c, found, ?_⟩
      have length := lcs.length_eq before
      rw [take_succ_getD hi] at lcs ⊢
      rw [take_succ_getD hj] at above ⊢
      exact lcs.concat_right ne above (by omega)
  | case6 i j shared line ne corner upwards ih =>
    rw [not_or] at upwards
    obtain ⟨i, rfl⟩ : ∃ k, i = k + 1 := ⟨i - 1, by omega⟩
    obtain ⟨j, rfl⟩ : ∃ k, j = k + 1 := ⟨j - 1, by omega⟩
    have least : ¬cell (table left right) i (j + 1) < cell (table left right) (i + 1) j :=
      upwards.2
    have before := longest_cell hi (Nat.lt_of_succ_lt hj)
    have above := longest_cell (Nat.lt_of_succ_lt hi) hj
    obtain ⟨c, found, lcs⟩ := ih (Nat.le_of_lt hi) hj (.inl (by omega))
    refine ⟨c, found, ?_⟩
    have length := lcs.length_eq above
    rw [take_succ_getD hj] at lcs ⊢
    rw [take_succ_getD hi] at before ⊢
    exact lcs.concat_left ne before (by omega)

/-- Of texts that begin alike, a longest common subsequence of lines is found. -/
theorem isLcs_common (alike : BeginAlike left right) : IsLcs (common left right) left right := by
  have long : 2 ≤ right.length := by
    obtain ⟨first, s, -⟩ := alike
    exact Nat.le_add_left 2 _
  obtain ⟨c, found, lcs⟩ :=
    isLcs_backtrack alike (Nat.le_refl left.length) (Nat.le_refl right.length) (.inl long) []
  rw [List.take_length, List.take_length] at lcs
  rw [List.append_nil] at found
  rw [common, found]
  exact lcs

/-! ## Edits -/

/-- The text of an edit, if it stands in the left text. -/
def Edit.left? : Edit → Option String
  | same text | rem text => some text
  | add _ => none

/-- The text of an edit, if it stands in the right text. -/
def Edit.right? : Edit → Option String
  | same text | add text => some text
  | rem _ => none

/-- Texts that spell lines: each is a run of lines, and these follow each other. -/
def Spells (texts ls : List String) : Prop :=
  ∃ runs : List (List String), texts = runs.map unlines ∧ [] ∉ runs ∧ runs.flatten = ls

theorem unlines_append {l m : List String} (hl : l ≠ []) (hm : m ≠ []) :
    unlines (l ++ m) = unlines l ++ "\n" ++ unlines m := by
  induction l with
  | nil => exact absurd rfl hl
  | cons line l ih =>
    unfold unlines at ih ⊢
    cases l with
    | nil => exact String.intercalate_cons_of_ne_nil hm
    | cons other l =>
      rw [List.cons_append, List.cons_append, String.intercalate_cons_cons,
        String.intercalate_cons_cons, ← List.cons_append, ih (List.cons_ne_nil _ _)]
      simp only [String.append_assoc]

namespace Spells

variable {texts texts' ls ls' : List String}

theorem nil : Spells [] [] := ⟨[], rfl, List.not_mem_nil, rfl⟩

theorem append (h : Spells texts ls) (h' : Spells texts' ls') :
    Spells (texts ++ texts') (ls ++ ls') := by
  obtain ⟨runs, rfl, full, rfl⟩ := h
  obtain ⟨runs', rfl, full', rfl⟩ := h'
  exact ⟨runs ++ runs', List.map_append.symm, by simp [full, full'], List.flatten_append⟩

/-- A run that an edit keeps. -/
theorem editOf {edit : String → Edit} {side : Edit → Option String}
    (stands : ∀ text, side (edit text) = some text) (run : List String) :
    Spells ((LineDiff.editOf edit run).filterMap side) run := by
  cases run with
  | nil => exact nil
  | cons line run =>
    refine ⟨[line :: run], ?_, by simp, by simp⟩
    rw [LineDiff.editOf, List.filterMap_cons, stands]
    · rfl
    · exact List.cons_ne_nil _ _

/-- The texts and the lines, joined with line breaks, are the same text. -/
theorem unlines_eq (h : Spells texts ls) : unlines texts = unlines ls := by
  obtain ⟨runs, rfl, full, rfl⟩ := h
  induction runs with
  | nil => rfl
  | cons run runs ih =>
    rw [List.mem_cons, not_or] at full
    have rest := ih full.2
    cases runs with
    | nil => simp [unlines]
    | cons other runs =>
      have some : (other :: runs).flatten ≠ [] := by
        intro none
        exact full.2 (List.mem_cons.2 (.inl (List.append_eq_nil_iff.1 none).1.symm))
      rw [List.flatten_cons, unlines_append (Ne.symm full.1) some, ← rest, unlines, List.map_cons,
        String.intercalate_cons_of_ne_nil (by simp)]
      rfl

end Spells

theorem editOf_nil {edit : String → Edit} {side : Edit → Option String}
    (elsewhere : ∀ text, side (edit text) = none) (run : List String) :
    (editOf edit run).filterMap side = [] := by
  cases run with
  | nil => rfl
  | cons line run =>
    rw [editOf, List.filterMap_cons, elsewhere]
    · rfl
    · exact List.cons_ne_nil _ _

/-- The run of shared lines is at the beginning of all three lists. -/
theorem sameRun_prefix (left right shared : List String) :
    sameRun left right shared <+: left ∧ sameRun left right shared <+: right ∧
      sameRun left right shared <+: shared := by
  fun_induction sameRun left right shared with
  | case1 x left y right z shared same ih =>
    obtain ⟨rfl, rfl⟩ := same
    exact ⟨List.cons_prefix_cons.2 ⟨rfl, ih.1⟩, List.cons_prefix_cons.2 ⟨rfl, ih.2.1⟩,
      List.cons_prefix_cons.2 ⟨rfl, ih.2.2⟩⟩
  | case2 | case3 => exact ⟨List.nil_prefix, List.nil_prefix, List.nil_prefix⟩

theorem runBefore_append (shared ls : List String) :
    runBefore shared ls ++ ls.drop (runBefore shared ls).length = ls :=
  List.prefix_iff_eq_append.1 (List.takeWhile_prefix _)

/-- The lines before the next shared one do not have it. -/
theorem sublist_drop_runBefore {shared ls : List String} (h : shared.Sublist ls) :
    shared.Sublist (ls.drop (runBefore shared ls).length) := by
  cases shared with
  | nil => exact List.nil_sublist _
  | cons z shared =>
    induction ls with
    | nil => cases h
    | cons line ls ih =>
      rw [runBefore, List.takeWhile_cons]
      split
      · next other =>
        have ne : z ≠ line := by
          rintro rfl
          simp at other
        exact ih (List.Sublist.of_cons_of_ne ne h)
      · exact h

/-- Where nothing comes before the next shared line, it is the next line. -/
theorem head?_of_runBefore {shared ls : List String} (h : shared.Sublist ls)
    (none : runBefore shared ls = []) : shared.head? = ls.head? := by
  cases ls with
  | nil =>
    cases h
    rfl
  | cons line ls =>
    rw [runBefore, List.takeWhile_cons] at none
    split at none
    · cases none
    · next same => simpa using (Eq.symm (by simpa using same))

/-- A round that consumes nothing finds nothing left. -/
theorem eq_nil_of_stuck {left right shared : List String} (hl : shared.Sublist left)
    (hr : shared.Sublist right) (kept : sameRun left right shared = [])
    (removed : runBefore shared left = []) (added : runBefore shared right = []) :
    left = [] ∧ right = [] := by
  have first := head?_of_runBefore hl removed
  have second := head?_of_runBefore hr added
  cases shared with
  | nil => exact ⟨List.head?_eq_none_iff.1 first.symm, List.head?_eq_none_iff.1 second.symm⟩
  | cons z shared =>
    obtain ⟨l, rfl⟩ := List.head?_eq_some_iff.1 first.symm
    obtain ⟨r, rfl⟩ := List.head?_eq_some_iff.1 second.symm
    rw [sameRun, if_pos ⟨rfl, rfl⟩] at kept
    cases kept

/-- What a round consumes of one of the texts, and that the other shared lines are in the rest. -/
theorem round {shared ls kept : List String} (h : shared.Sublist ls) (start : kept <+: ls)
    (start' : kept <+: shared) :
    let run := runBefore (shared.drop kept.length) (ls.drop kept.length)
    (shared.drop kept.length).Sublist (ls.drop (kept.length + run.length)) ∧
      kept ++ run ++ ls.drop (kept.length + run.length) = ls := by
  have split := List.prefix_iff_eq_append.1 start
  rw [← List.prefix_iff_eq_append.1 start', ← split] at h
  have below := (List.append_sublist_append_left _).1 h
  intro run
  rw [← List.drop_drop]
  refine ⟨sublist_drop_runBefore below, ?_⟩
  rw [List.append_assoc, runBefore_append, split]

/-- The edits spell both texts, whichever common lines they were made from. -/
theorem spells_merge {left right shared : List String} (hl : shared.Sublist left)
    (hr : shared.Sublist right) :
    Spells ((merge left right shared).filterMap Edit.left?) left ∧
      Spells ((merge left right shared).filterMap Edit.right?) right := by
  fun_induction merge left right shared with
  | case1 left right shared kept shared' removed added left' right' shorter ih =>
    obtain ⟨keptLeft, keptRight, keptShared⟩ := sameRun_prefix left right shared
    obtain ⟨below, leftEq⟩ := round hl keptLeft keptShared
    obtain ⟨below', rightEq⟩ := round hr keptRight keptShared
    obtain ⟨leftSpelt, rightSpelt⟩ := ih below below'
    simp only [List.filterMap_append]
    constructor
    · rw [editOf_nil (fun _ => rfl) added, List.append_nil]
      exact leftEq ▸ ((Spells.editOf (fun _ => rfl) kept).append
        (.editOf (fun _ => rfl) removed)).append leftSpelt
    · rw [editOf_nil (fun _ => rfl) removed, List.append_nil]
      exact rightEq ▸ ((Spells.editOf (fun _ => rfl) kept).append
        (.editOf (fun _ => rfl) added)).append rightSpelt
  | case2 left right shared kept shared' removed added left' right' stuck =>
    obtain ⟨keptLeft, keptRight, keptShared⟩ := sameRun_prefix left right shared
    have leftEq := congrArg List.length (round hl keptLeft keptShared).2
    have rightEq := congrArg List.length (round hr keptRight keptShared).2
    change (kept ++ removed ++ left').length = _ at leftEq
    change (kept ++ added ++ right').length = _ at rightEq
    simp only [List.length_append] at leftEq rightEq
    have none : kept = [] := List.length_eq_zero_iff.1 (by omega)
    have noneRemoved : removed = [] := List.length_eq_zero_iff.1 (by omega)
    have noneAdded : added = [] := List.length_eq_zero_iff.1 (by omega)
    simp only [removed, added, shared', none, List.length_nil, List.drop_zero]
      at noneRemoved noneAdded
    obtain ⟨rfl, rfl⟩ := eq_nil_of_stuck hl hr none noneRemoved noneAdded
    exact ⟨.nil, .nil⟩

/-! ## Lines -/

theorem splitLines_ne_nil (cs : List Char) : splitLines cs ≠ [] := by
  cases cs with
  | nil => exact List.cons_ne_nil _ _
  | cons c cs =>
    rw [splitLines]
    split
    · exact List.cons_ne_nil _ _
    · split <;> exact List.cons_ne_nil _ _

theorem exists_splitLines (cs : List Char) : ∃ line ls, splitLines cs = line :: ls :=
  List.exists_cons_of_ne_nil (splitLines_ne_nil cs)

theorem splitLines_break (cs : List Char) : splitLines ('\n' :: cs) = [] :: splitLines cs := by
  obtain ⟨line, ls, split⟩ := exists_splitLines cs
  rw [splitLines, split]
  rfl

theorem splitLines_cons {c : Char} (ne : c ≠ '\n') {cs line : List Char} {ls : List (List Char)}
    (split : splitLines cs = line :: ls) : splitLines (c :: cs) = (c :: line) :: ls := by
  rw [splitLines, split]
  exact if_neg ne

/-- What has no line break stands before the first line. -/
theorem splitLines_append {x cs line : List Char} {ls : List (List Char)} (flat : '\n' ∉ x)
    (split : splitLines cs = line :: ls) : splitLines (x ++ cs) = (x ++ line) :: ls := by
  induction x with
  | nil => exact split
  | cons c x ih =>
    rw [List.mem_cons, not_or] at flat
    exact splitLines_cons (Ne.symm flat.1) (ih flat.2)

theorem intercalate_splitLines (cs : List Char) : ['\n'].intercalate (splitLines cs) = cs := by
  induction cs with
  | nil => rfl
  | cons c cs ih =>
    obtain ⟨line, ls, split⟩ := exists_splitLines cs
    by_cases ending : c = '\n'
    · rw [ending, splitLines_break, List.intercalate_cons_of_ne_nil (splitLines_ne_nil cs), ih]
      rfl
    · rw [splitLines_cons ending split]
      rw [split] at ih
      cases ls with
      | nil =>
        rw [List.intercalate_singleton] at ih ⊢
        rw [ih]
      | cons other ls =>
        rw [List.intercalate_cons_cons] at ih ⊢
        rw [← ih]
        rfl

/-- Every line but the first stands behind a line break. -/
theorem exists_of_mem_tail {cs line : List Char} (h : line ∈ (splitLines cs).tail) :
    ∃ before after, cs = before ++ '\n' :: after ∧ line <+: after := by
  induction cs with
  | nil => cases h
  | cons c cs ih =>
    obtain ⟨first, ls, split⟩ := exists_splitLines cs
    by_cases ending : c = '\n'
    · rw [ending, splitLines_break, List.tail_cons, split] at h
      rcases List.mem_cons.1 h with rfl | later
      · have whole := intercalate_splitLines cs
        rw [split] at whole
        refine ⟨[], cs, by rw [ending]; rfl, ?_⟩
        cases ls with
        | nil =>
          rw [List.intercalate_singleton] at whole
          exact whole ▸ List.prefix_refl _
        | cons other ls =>
          rw [List.intercalate_cons_cons, List.append_assoc] at whole
          exact ⟨_, whole⟩
      · obtain ⟨before, after, rfl, start⟩ := ih (by rwa [split])
        exact ⟨c :: before, after, rfl, start⟩
    · rw [splitLines_cons ending split, List.tail_cons] at h
      obtain ⟨before, after, rfl, start⟩ := ih (by rwa [split])
      exact ⟨c :: before, after, rfl, start⟩

/-- Joining the lines of a text gives the text. -/
theorem unlines_lines (text : String) : unlines (lines text) = text := by
  rw [lines]
  split
  · next empty => exact (String.isEmpty_iff.1 empty).symm
  · apply String.toList_injective
    rw [unlines, String.toList_intercalate, List.map_map]
    simp only [Function.comp_def, String.toList_ofList, List.map_id']
    exact intercalate_splitLines _

/-- Texts with the same first line begin alike if the second line of the right one starts with a
`key` that stands behind no later line break of the left one. -/
theorem beginAlike_lines {first x y key rest rest' : List Char} (flat : '\n' ∉ first)
    (flatLeft : '\n' ∉ x) (flatRight : '\n' ∉ y) (start : key <+: y)
    (apart : ∀ before after, rest = before ++ '\n' :: after → ¬key <+: after) :
    BeginAlike (lines (String.ofList (first ++ '\n' :: (x ++ rest))))
      (lines (String.ofList (first ++ '\n' :: (y ++ rest')))) := by
  have split {z more line : List Char} {ls : List (List Char)} (flat' : '\n' ∉ z)
      (split : splitLines more = line :: ls) :
      lines (String.ofList (first ++ '\n' :: (z ++ more))) =
        String.ofList first :: String.ofList (z ++ line) :: ls.map String.ofList := by
    have breaks := splitLines_append flat (splitLines_break (z ++ more))
    rw [splitLines_append flat' split, List.append_nil] at breaks
    rw [lines, if_neg, String.toList_ofList, breaks]
    · rfl
    · simp
  obtain ⟨s, l, leftSplit⟩ := exists_splitLines rest
  obtain ⟨t, r, rightSplit⟩ := exists_splitLines rest'
  rw [split flatLeft leftSplit, split flatRight rightSplit]
  refine .intro _ _ fun mem => ?_
  obtain ⟨line, mem, same⟩ := List.mem_map.1 mem
  obtain rfl : line = y ++ t := String.ofList_injective same
  obtain ⟨before, after, e, behind⟩ := exists_of_mem_tail (by rwa [leftSplit])
  exact apart before after e ((start.trans (List.prefix_append y t)).trans behind)

/-! ## Comparisons -/

variable {a b : String}

/-- The edits that a comparison finds spell both texts. -/
theorem unlines_compareTexts (alike : BeginAlike (lines a) (lines b)) :
    unlines ((compareTexts a b).edits.filterMap Edit.left?) = a ∧
      unlines ((compareTexts a b).edits.filterMap Edit.right?) = b := by
  have lcs := isLcs_common alike
  obtain ⟨left, right⟩ := spells_merge lcs.left lcs.right
  exact ⟨left.unlines_eq.trans (unlines_lines a), right.unlines_eq.trans (unlines_lines b)⟩

theorem distance_compareTexts (alike : BeginAlike (lines a) (lines b)) :
    ∃ shared, IsLcs shared (lines a) (lines b) ∧
      (compareTexts a b).distance + 2 * shared.length = (lines a).length + (lines b).length := by
  have lcs := isLcs_common alike
  refine ⟨common (lines a) (lines b), lcs, ?_⟩
  have left := lcs.left.length_le
  have right := lcs.right.length_le
  change (lines a).length + (lines b).length - 2 * _ + 2 * _ = _
  omega

theorem distance_compareTexts_eq_zero_iff (alike : BeginAlike (lines a) (lines b)) :
    (compareTexts a b).distance = 0 ↔ a = b := by
  obtain ⟨shared, lcs, distance⟩ := distance_compareTexts alike
  have left := lcs.left.length_le
  have right := lcs.right.length_le
  constructor
  · intro none
    have same : lines a = lines b :=
      (lcs.left.eq_of_length_le (by omega)).symm.trans (lcs.right.eq_of_length_le (by omega))
    rw [← unlines_lines a, same, unlines_lines]
  · rintro rfl
    have whole := lcs.longest (lines a) (.refl _) (.refl _)
    omega

end BlockGraph.Text.LineDiff

import BlockGraph.Proofs.Json.Printing

/-!
# How deep a value nests that was read

The reader opens no array or object while `maxDepth` of them are open. What an open array or object
holds nests at most as deep as there is room above it (`Reader.Bounded`); every character keeps
this up, so a value that is complete nests at most `maxDepth` deep.

* `Json.depth_arr_le_iff`, `Json.depth_obj_le_iff`: the depth of a value in terms of its parts.
* `Json.depth_le_of_read`: every value that is read nests at most `maxDepth` deep.
-/

namespace BlockGraph.Json

/-! ## Depth -/

@[simp] theorem depth_bool (value : Bool) : (Json.bool value).depth = 0 := rfl

@[simp] theorem depth_int (value : Int) : (Json.int value).depth = 0 := rfl

@[simp] theorem depth_str (text : String) : (Json.str text).depth = 0 := rfl

theorem depthItems_le_iff {items : List Json} {n : Nat} :
    depthItems items ≤ n ↔ ∀ v ∈ items, v.depth ≤ n := by
  induction items with
  | nil => simp [depthItems]
  | cons item items ih => rw [depthItems, Nat.max_le, List.forall_mem_cons, ih]

theorem depthMembers_le_iff {members : List (String × Json)} {n : Nat} :
    depthMembers members ≤ n ↔ ∀ m ∈ members, m.2.depth ≤ n := by
  induction members with
  | nil => simp [depthMembers]
  | cons m members ih =>
    obtain ⟨name, v⟩ := m
    rw [depthMembers, depthMember, Nat.max_le, List.forall_mem_cons, ih]

/-- Above an array, `k` arrays and objects may be open. -/
theorem depth_arr_le_iff (k : Nat) {items : List Json} {n : Nat} :
    (Json.arr items).depth + k ≤ n ↔ k + 1 ≤ n ∧ ∀ v ∈ items, v.depth + (k + 1) ≤ n := by
  have parts : (Json.arr items).depth + k ≤ n ↔
      k + 1 ≤ n ∧ depthItems items ≤ n - (k + 1) := by
    rw [depth]
    omega
  rw [parts, depthItems_le_iff]
  exact and_congr_right fun room => forall₂_congr fun v _ => by omega

theorem depth_obj_le_iff (k : Nat) {members : List (String × Json)} {n : Nat} :
    (Json.obj members).depth + k ≤ n ↔
      k + 1 ≤ n ∧ ∀ m ∈ members, m.2.depth + (k + 1) ≤ n := by
  have parts : (Json.obj members).depth + k ≤ n ↔
      k + 1 ≤ n ∧ depthMembers members ≤ n - (k + 1) := by
    rw [depth]
    omega
  rw [parts, depthMembers_le_iff]
  exact and_congr_right fun room => forall₂_congr fun m _ => by omega

/-- The parts of a value nest less deep. -/
theorem depth_lt_of_mem_children {v w : Json} (h : w ∈ v.children) : w.depth + 1 ≤ v.depth := by
  cases v with
  | arr items => exact ((depth_arr_le_iff 0).1 (Nat.le_refl _)).2 w h
  | obj members =>
    obtain ⟨m, hm, rfl⟩ := List.mem_map.1 h
    exact ((depth_obj_le_iff 0).1 (Nat.le_refl _)).2 m hm
  | _ => cases h

theorem depth_of_value? {t : NumberText} {v : Json} (h : t.value? = some v) : v.depth = 0 := by
  unfold NumberText.value? at h
  dsimp only at h
  split at h
  · cases h
    rfl
  · split at h
    · cases h
      rfl
    · obtain ⟨f, -, rfl⟩ := Option.map_eq_some_iff.1 h
      rfl

/-! ## The invariant -/

/-- What an open array or object holds nests at most `room` deep. -/
def Frame.Fits (room : Nat) : Frame → Prop
  | .array items => ∀ v ∈ items, v.depth ≤ room
  | .object members _ => ∀ m ∈ members, m.2.depth ≤ room

theorem Frame.fits_array_nil (room : Nat) : (array []).Fits room := fun _ h => by cases h

theorem Frame.fits_object_nil (room : Nat) (name : String) : (object [] name).Fits room :=
  fun _ h => by cases h

/-- The values that the reader is about to complete fit where they belong. -/
def Mode.Fits : Mode → Prop
  | .word _ v => v.depth = 0
  | .done v => v.depth ≤ maxDepth
  | _ => True

namespace Reader

/-- Every open array or object holds what there is room for above it. -/
inductive Bounded : List Frame → Prop
  | nil : Bounded []
  | cons {frame : Frame} {rest : List Frame} (room : rest.length < maxDepth)
    (fits : frame.Fits (maxDepth - (rest.length + 1))) (below : Bounded rest) :
    Bounded (frame :: rest)

/-- What the reader holds nests at most `maxDepth` deep. -/
structure Within (r : Reader) : Prop where
  stack : Bounded r.stack
  mode : r.mode.Fits

variable {stack : List Frame} {r r' : Reader} {c : Char} {v : Json}

theorem Bounded.length_le (h : Bounded stack) : stack.length ≤ maxDepth := by
  cases h with
  | nil => exact Nat.zero_le _
  | cons room => exact room

/-! ## Complete values -/

theorem within_complete (h : Bounded stack) (deep : v.depth + stack.length ≤ maxDepth) :
    (complete stack v).Within := by
  cases h with
  | nil => exact ⟨.nil, deep⟩
  | @cons frame rest room fits below =>
    have here : v.depth ≤ maxDepth - (rest.length + 1) := by
      rw [List.length_cons] at deep
      omega
    cases frame with
    | array items => exact ⟨.cons room (List.forall_mem_cons.2 ⟨here, fits⟩) below, trivial⟩
    | object members name =>
      exact ⟨.cons room (List.forall_mem_cons.2 ⟨here, fits⟩) below, trivial⟩

theorem within_flat (h : Bounded stack) (flat : v.depth = 0) : (complete stack v).Within :=
  within_complete h (by have := h.length_le; omega)

theorem within_closeArray? (h : Bounded stack) (closed : closeArray? stack = some r) :
    r.Within := by
  cases h with
  | nil => cases closed
  | @cons frame rest room fits below =>
    cases frame with
    | object members name => cases closed
    | array items =>
      cases closed
      have deep : (Json.arr items.reverse).depth ≤ maxDepth - (rest.length + 1) + 1 :=
        (depth_arr_le_iff 0).2 ⟨Nat.le_add_left _ _, fun v hv =>
          Nat.add_le_add_right (fits v (List.mem_reverse.1 hv)) 1⟩
      exact within_complete below (by omega)

theorem within_closeObject? (h : Bounded stack) (closed : closeObject? stack = some r) :
    r.Within := by
  cases h with
  | nil => cases closed
  | @cons frame rest room fits below =>
    cases frame with
    | array items => cases closed
    | object members name =>
      cases closed
      have deep : (Json.obj members.reverse).depth ≤ maxDepth - (rest.length + 1) + 1 :=
        (depth_obj_le_iff 0).2 ⟨Nat.le_add_left _ _, fun m hm =>
          Nat.add_le_add_right (fits m (List.mem_reverse.1 hm)) 1⟩
      exact within_complete below (by omega)

/-! ## Steps -/

theorem within_enter? {frame : Frame} {mode : Mode}
    (entered : enter? stack frame mode = some r) (h : Bounded stack)
    (fits : ∀ room, frame.Fits room) (waits : mode.Fits) : r.Within := by
  unfold enter? at entered
  split at entered
  · next room =>
    cases entered
    exact ⟨.cons room (fits _) h, waits⟩
  · cases entered

theorem within_begin? (h : Bounded stack) (begun : begin? stack c = some r) : r.Within := by
  unfold begin? at begun
  split at begun
  case h_2 => exact within_enter? begun h Frame.fits_array_nil trivial
  case h_3 => exact within_enter? begun h (Frame.fits_object_nil · "") trivial
  case h_9 =>
    split at begun
    · cases begun
      exact ⟨h, trivial⟩
    · cases begun
  case h_4 | h_5 | h_6 =>
    cases begun
    exact ⟨h, rfl⟩
  all_goals
    cases begun
    exact ⟨h, trivial⟩

theorem within_follow? (h : Bounded stack) (followed : follow? stack c = some r) : r.Within := by
  unfold follow? at followed
  split at followed
  case h_3 => exact within_closeArray? h followed
  case h_4 => exact within_closeObject? h followed
  case h_5 =>
    split at followed
    · cases followed
      exact ⟨h, trivial⟩
    · cases followed
  all_goals
    cases followed
    exact ⟨h, trivial⟩

theorem within_betweenStep? {mode : Mode} (h : Bounded stack) (fits : mode.Fits)
    (step : betweenStep? stack mode c = some r) : r.Within := by
  unfold betweenStep? at step
  split at step
  · cases step
    exact ⟨h, fits⟩
  · split at step
    · exact within_begin? h step
    · split at step
      · exact within_closeArray? h step
      · exact within_begin? h step
    · split at step
      · exact within_closeObject? h step
      · split at step
        · cases step
          exact ⟨h, trivial⟩
        · cases step
    · split at step
      · cases step
        exact ⟨h, trivial⟩
      · cases step
    · split at step
      · cases step
        exact ⟨h, trivial⟩
      · cases step
    · exact within_follow? h step
    · cases step

theorem within_closeText (h : Bounded stack) (isName : Bool) (soFar : List Char) :
    (closeText stack isName soFar).Within := by
  unfold closeText
  split
  · cases h with
    | cons room fits below => exact ⟨.cons room fits below, trivial⟩
  · exact within_flat h rfl

theorem within_textStep? {isName : Bool} {soFar : List Char} {mode : TextMode} (h : Bounded stack)
    (step : textStep? stack isName soFar mode c = some r) : r.Within := by
  unfold textStep? at step
  dsimp only at step
  split at step
  · split at step
    · cases step
      exact within_closeText h isName soFar
    · cases step
      exact ⟨h, trivial⟩
    · split at step
      · cases step
      · cases step
        exact ⟨h, trivial⟩
  · split at step
    · cases step
      exact ⟨h, trivial⟩
    · obtain ⟨e, -, rfl⟩ := Option.map_eq_some_iff.1 step
      exact ⟨h, trivial⟩
  · obtain ⟨e, -, rfl⟩ := Option.map_eq_some_iff.1 step
    exact ⟨h, trivial⟩
  · split at step
    · cases step
      exact ⟨h, trivial⟩
    · cases step
  · split at step
    · cases step
      exact ⟨h, trivial⟩
    · cases step

/-- Every character keeps the invariant. -/
theorem Within.step (h : r.Within) (step : r.step? c = some r') : r'.Within := by
  obtain ⟨stack, mode⟩ := r
  obtain ⟨bounded, fits⟩ := h
  unfold step? at step
  dsimp only at step
  split at step
  · exact within_textStep? bounded step
  · split at step
    · cases step
    · split at step
      · cases step
        exact within_flat bounded fits
      · cases step
    · split at step
      · cases step
        exact ⟨bounded, fits⟩
      · cases step
  · split at step
    · cases step
      exact ⟨bounded, trivial⟩
    · cases step
    · obtain ⟨v, value, step⟩ := Option.bind_eq_some_iff.1 step
      have after := within_flat bounded (depth_of_value? value)
      exact within_betweenStep? after.stack after.mode step
  · exact within_betweenStep? bounded fits step

/-- A whole text keeps the invariant. -/
theorem Within.run (h : r.Within) {cs : List Char} (run : r.run? cs = some r') : r'.Within := by
  induction cs generalizing r with
  | nil =>
    cases run
    exact h
  | cons c cs ih =>
    unfold run? at run ih
    rw [List.foldlM_cons] at run
    obtain ⟨m, first, rest⟩ := Option.bind_eq_some_iff.1 run
    exact ih (h.step first) rest

theorem Within.finish (h : r.Within) (finished : r.finish = .ok v) : v.depth ≤ maxDepth := by
  obtain ⟨stack, mode⟩ := r
  unfold Reader.finish at finished
  dsimp only at finished
  split at finished
  · cases finished
    exact h.mode
  · split at finished
    · split at finished
      · cases finished
      · next value =>
        split at finished
        · cases finished
          rw [depth_of_value? value]
          exact Nat.zero_le _
        · cases finished
    · cases finished
  · cases finished

end Reader

/-- Every value that is read nests at most `maxDepth` deep. -/
theorem depth_le_of_read {text : String} {v : Json} (accepted : read text = .ok v) :
    v.depth ≤ maxDepth := by
  unfold read at accepted
  split at accepted
  · cases accepted
  · next run =>
    have start : ({} : Reader).Within := ⟨.nil, trivial⟩
    exact (start.run run).finish accepted

end BlockGraph.Json

import BlockGraph.Json.Record
import BlockGraph.Proofs.Except
import BlockGraph.Proofs.SortedMap

/-!
# Reading what was written of a record

Of a record those fields are written that do not have their default value. The reader takes them in
the order of their names, so in the middle of a record it has some of the fields and defaults for
the others. `restrict p` stands for a record of which only the fields are known whose names satisfy
`p`.

* `readRecord_members`: if every member adds its field, a record is read with its given fields.
* `readList_map`: a list is read back if its items are.
* `readRecord_induction`: what every field keeps holds of the record.
-/

namespace BlockGraph.Json

/-! ## Records -/

section Records

variable {σ : Type} {l : Layout} {start : σ} {members : List (String × Json)}
  {field : σ → String → (v : Json) → v ∈ (Json.obj members).children → Shaped σ}

theorem mem_children_of_mem {m : String × Json} (h : m ∈ members) :
    m.2 ∈ (Json.obj members).children := List.mem_map.2 ⟨m, h, rfl⟩

/-- Members with different names, all of them names of fields, are taken one by one. -/
theorem readRecord_members {t : σ} (restrict : (String → Bool) → σ) (names : l.names.Nodup)
    (fields : (members.map Prod.fst).Sublist l.names)
    (given : ∀ f ∈ l.fields, f.2 = true → f.1 ∈ members.map Prod.fst)
    (none : restrict (fun _ => false) = start)
    (all : restrict (fun n => (members.map Prod.fst).contains n) = t)
    (one : ∀ p, ∀ m (h : m ∈ members), field (restrict p) m.1 m.2 (mem_children_of_mem h) =
      .ok (restrict fun n => n == m.1 || p n)) :
    readRecord l start (.obj members) field = .ok t := by
  have perm := SortedMap.entries_ofList_perm (names.sublist fields)
  have taken (es : List { e // e ∈ (SortedMap.ofList members).entries }) (p : String → Bool) :
      es.foldlM (fun s e =>
        if e.1.1 ∈ l.names then field s e.1.1 e.1.2 (snd_mem_children e.2)
        else if l.closed then throw (.unknownField e.1.1 l.names)
        else pure s) (restrict p) =
      .ok (restrict fun n => (es.any fun e => n == e.1.1) || p n) := by
    induction es generalizing p with
    | nil => simp
    | cons e es ih =>
      have member := perm.mem_iff.1 e.2
      have known : e.1.1 ∈ l.names := fields.subset (List.mem_map_of_mem member)
      rw [List.foldlM_cons, if_pos known, one p e.1 member]
      refine (ih _).trans (congrArg (Except.ok ∘ restrict) (funext fun n => ?_))
      rw [List.any_cons, Bool.or_assoc, Bool.or_left_comm]
  have complete : l.fields.find? (fun f => f.2 && !(SortedMap.ofList members).contains f.1) =
      Option.none := by
    rw [List.find?_eq_none]
    intro f hf required
    rw [Bool.and_eq_true, Bool.not_eq_true'] at required
    have present := (perm.map Prod.fst).mem_iff.2 (given f hf required.1)
    rw [SortedMap.contains_iff.2 present] at required
    cases required.2
  have same : (fun n => (SortedMap.ofList members).entries.attach.any
      (fun e => n == e.1.1) || false) = fun n => (members.map Prod.fst).contains n := by
    funext n
    rw [Bool.or_false, Bool.eq_iff_iff, List.contains_iff_mem, ← (perm.map Prod.fst).mem_iff,
      List.any_eq_true, List.mem_map]
    constructor
    · rintro ⟨e, -, same⟩
      exact ⟨e.1, e.2, (eq_of_beq same).symm⟩
    · rintro ⟨e, he, rfl⟩
      exact ⟨⟨e, he⟩, List.mem_attach _ _, beq_self_eq_true _⟩
  unfold readRecord
  rw [← none]
  dsimp only
  rw [taken, same, all, complete]
  rfl

end Records

section Read

variable {σ : Type} {l : Layout} {start t : σ} {j : Json}
  {field : σ → String → (v : Json) → v ∈ j.children → Shaped σ}

/-- Only arrays and objects have fields. -/
theorem isRecord_of_readRecord (read : readRecord l start j field = .ok t) :
    (∃ members, j = .obj members) ∨ ∃ items, j = .arr items := by
  cases j with
  | obj members => exact .inl ⟨members, rfl⟩
  | arr items => exact .inr ⟨items, rfl⟩
  | _ => cases read

/-- What every field keeps holds of the record that is read. -/
theorem readRecord_induction {P : σ → Prop}
    (one : ∀ s name v h s', P s → field s name v h = .ok s' → P s') (default : P start)
    (read : readRecord l start j field = .ok t) : P t := by
  cases j with
  | obj members =>
    obtain ⟨s, fields, last⟩ := Except.bind_eq_ok_iff.1 read
    have kept : P s := by
      refine Except.foldlM_induction (fun e _ s s' hs h => ?_) default fields
      split at h
      · exact one _ _ _ _ _ hs h
      · split at h
        · cases h
        · cases h
          exact hs
    split at last
    · cases last
    · cases last
      exact kept
  | arr items =>
    obtain ⟨s, fields, last⟩ := Except.bind_eq_ok_iff.1 read
    have kept : P s := by
      refine Except.foldlM_induction (fun f _ s s' hs h => ?_) default fields
      split at h
      · exact one _ _ _ _ _ hs h
      · split at h
        · cases h
        · cases h
          exact hs
    split at last
    · cases last
    · cases last
      exact kept
  | _ => cases read

/-- A field that must be given is read. -/
theorem exists_field_of_required {name : String} (required : (name, true) ∈ l.fields)
    (read : readRecord l start j field = .ok t) : ∃ s v h s', field s name v h = .ok s' := by
  cases j with
  | obj members =>
    obtain ⟨s, fields, last⟩ := Except.bind_eq_ok_iff.1 read
    split at last
    · cases last
    · next complete =>
      have present := List.find?_eq_none.1 complete _ required
      rw [Bool.true_and, Bool.not_eq_true, Bool.not_eq_false', SortedMap.contains_iff] at present
      obtain ⟨e, he, rfl⟩ := List.mem_map.1 present
      obtain ⟨s₁, s₂, h⟩ :=
        Except.exists_step_of_foldlM fields ⟨e, he⟩ (List.mem_attach _ _)
      have known : e.1 ∈ l.names := List.mem_map.2 ⟨_, required, rfl⟩
      exact ⟨s₁, e.2, _, s₂, (if_pos known).symm.trans h⟩
  | arr items =>
    obtain ⟨s, fields, -⟩ := Except.bind_eq_ok_iff.1 read
    obtain ⟨i, hi, at_i⟩ := List.getElem_of_mem required
    have mem : ((name, true), i) ∈ l.fields.zipIdx :=
      List.mem_zipIdx_iff_getElem?.2 (List.getElem?_eq_some_iff.2 ⟨hi, at_i⟩)
    obtain ⟨s₁, s₂, h⟩ := Except.exists_step_of_foldlM fields _ mem
    split at h
    · exact ⟨s₁, _, _, s₂, h⟩
    · cases h
  | _ => cases read

end Read

/-! ## Lists and texts -/

theorem readList_of_forall₂ {α : Type} {items : List Json} {as : List α}
    {read : (v : Json) → v ∈ (Json.arr items).children → Shaped α}
    (each : List.Forall₂ (fun v a => ∀ h, read v h = .ok a) items as) :
    readList (.arr items) read = .ok as := by
  unfold readList
  rw [Except.mapM_eq_ok_iff]
  have length := each.length_eq
  rw [List.forall₂_iff_get] at each ⊢
  refine ⟨by rw [List.length_attach, length], fun i hi hi' => ?_⟩
  rw [List.length_attach] at hi
  simpa using each.2 i hi hi' (List.get_mem _ _)

/-- A list is read back if its items are. -/
theorem readList_map {α : Type} {write : α → Json} {as : List α}
    {read : (v : Json) → v ∈ (Json.arr (as.map write)).children → Shaped α}
    (each : ∀ a ∈ as, ∀ h, read (write a) h = .ok a) :
    readList (.arr (as.map write)) read = .ok as := by
  refine readList_of_forall₂ ?_
  rw [List.forall₂_map_left_iff, List.forall₂_same]
  exact each

/-- Only arrays are lists, and every item is read. -/
theorem exists_items_of_readList {α : Type} {j : Json} {as : List α}
    {read : (v : Json) → v ∈ j.children → Shaped α} (h : readList j read = .ok as) :
    ∃ items, j = .arr items ∧ ∀ a ∈ as, ∃ v, ∃ mem : v ∈ j.children, read v mem = .ok a := by
  cases j with
  | arr items =>
    refine ⟨items, rfl, ?_⟩
    exact Except.forall_right_of_forall₂ (Except.mapM_eq_ok_iff.1 h) fun v a h => ⟨v.1, v.2, h⟩
  | _ => cases h

/-- A value that may be missing is read back if it is written as something. -/
theorem readOptional_of_ne_null {α : Type} {read : Json → Shaped α} {v : Json} {a : α}
    (given : v ≠ .null) (h : read v = .ok a) : readOptional read v = .ok (some a) := by
  cases v with
  | null => exact absurd rfl given
  | _ => exact congrArg (Except.map some) h

theorem readTextMap_obj (m : SortedMap String String) :
    readTextMap (.obj (m.entries.map fun e => (e.1, .str e.2))) = .ok m := by
  have sorted : SortedMap.ofList (m.entries.map fun e => (e.1, Json.str e.2)) =
      m.mapValues Json.str := SortedMap.ofList_entries (m.mapValues Json.str)
  have texts : (m.mapValues Json.str).entries.mapM
      (fun e => do return (e.1, ← readText e.2)) = (.ok m.entries : Shaped _) := by
    rw [Except.mapM_eq_ok_iff]
    refine List.forall₂_map_left_iff.2 (List.forall₂_same.2 fun e _ => rfl)
  unfold readTextMap
  dsimp only
  rw [sorted, texts]
  exact congrArg Except.ok (SortedMap.ofList_entries m)

theorem readUInt32_int (n : UInt32) : readUInt32 (.int n.toNat) = .ok n := by
  have small := n.toNat_lt
  unfold readUInt32
  dsimp only
  rw [if_pos (by omega), Int.toNat_natCast, UInt32.ofNat_toNat]

theorem readInt64_int (n : Int64) : readInt64 (.int n.toInt) = .ok n := by
  have low := n.le_toInt
  have high := n.toInt_lt
  unfold readInt64
  dsimp only
  rw [if_pos (by omega), Int64.ofInt_toInt]

end BlockGraph.Json

import BlockGraph.Mapping.Reading
import BlockGraph.Proofs.Except
import BlockGraph.Proofs.Mapping.Numbered

/-!
# Slots and table rows

The rows of a table divide the slots of a block among each other (`Slots.takeAll`). How they do it
does not depend on what the slots hold (`Slots.take_map`), and every mode of rows takes what it is
there for (`Slots.take_eq_ok_iff`).
-/

namespace BlockGraph

namespace Mapping

variable {α β : Type}

/-! ## Slots under their names -/

theorem indexed_map (f : α → β) (blockId : String) (entries : List (String × α)) :
    indexed blockId (entries.map fun e => (e.1, f e.2)) =
      (indexed blockId entries).map (SortedMap.mapValues f) := by
  refine Except.foldlM_map (h := SortedMap.mapValues f) (fun m e => ?_) entries .empty
  simp only [SortedMap.contains_mapValues]
  split
  · rfl
  · rw [SortedMap.insert_mapValues]
    rfl

/-- One step of `indexed`'s fold. -/
def indexStep (blockId : String) (m : SortedMap String α) (e : String × α) :
    Except Error (SortedMap String α) :=
  if m.contains e.1 then throw (.malformed blockId (.duplicateSlot e.1))
  else pure (m.insert e.1 e.2)

theorem foldlM_indexStep_eq_ok_iff {blockId : String} {entries : List (String × α)}
    {m m' : SortedMap String α} :
    entries.foldlM (indexStep blockId) m = .ok m' ↔
      (entries.map (·.1)).Nodup ∧ (∀ e ∈ entries, m.get? e.1 = none) ∧
        m' = entries.foldl (fun m e => m.insert e.1 e.2) m := by
  induction entries generalizing m with
  | nil => simp [pure, Except.pure, eq_comm]
  | cons e entries ih =>
    rw [List.foldlM_cons, indexStep]
    split
    · next h =>
      refine iff_of_false (fun h => by cases h) fun fresh => ?_
      rw [SortedMap.contains, fresh.2.1 e List.mem_cons_self] at h
      cases h
    · next h =>
      have free : m.get? e.1 = none := SortedMap.contains_eq_false_iff.1 (by simpa using h)
      rw [show (pure (m.insert e.1 e.2) >>= fun s => entries.foldlM (indexStep blockId) s) =
        entries.foldlM (indexStep blockId) (m.insert e.1 e.2) from rfl, ih]
      simp only [List.map_cons, List.nodup_cons, List.forall_mem_cons, List.foldl_cons, free,
        true_and, SortedMap.get?_insert]
      refine ⟨fun h => ?_, fun h => ?_⟩
      · obtain ⟨distinct, fresh, rfl⟩ := h
        refine ⟨⟨fun mem => ?_, distinct⟩, fun e' he => ?_, rfl⟩
        · obtain ⟨e', he, same⟩ := List.mem_map.1 mem
          have := fresh e' he
          rw [if_pos same] at this
          cases this
        · have := fresh e' he
          split at this
          · cases this
          · exact this
      · obtain ⟨⟨first, distinct⟩, fresh, rfl⟩ := h
        refine ⟨distinct, fun e' he => ?_, rfl⟩
        rw [if_neg fun same : e'.1 = e.1 => first (same ▸ List.mem_map_of_mem he)]
        exact fresh e' he

/-- Entries are put under their names unless a name stands there twice. -/
theorem indexed_eq_ok_iff {blockId : String} {entries : List (String × α)}
    {m : SortedMap String α} :
    indexed blockId entries = .ok m ↔ (entries.map (·.1)).Nodup ∧ m.entries.Perm entries := by
  rw [show indexed blockId entries = entries.foldlM (indexStep blockId) .empty from rfl,
    foldlM_indexStep_eq_ok_iff]
  refine and_congr_right fun distinct => ?_
  have perm := SortedMap.entries_ofList_perm distinct
  refine ⟨fun h => ?_, fun h => ?_⟩
  · obtain ⟨-, rfl⟩ := h
    exact perm
  · exact ⟨fun _ _ => rfl, SortedMap.ext_perm (h.trans perm.symm)⟩

/-! ## What slots hold -/

/-- Applies `f` to everything that slots hold. -/
def Slots.map (f : α → β) (s : Slots α) : Slots β where
  fields := s.fields
  values := s.values.mapValues f
  statements := s.statements.mapValues (List.map f)

/-- Applies `f` to everything that a row takes. -/
def Portion.map (f : α → β) : Portion α → Portion β
  | literal slot text => literal slot text
  | value slot block => value slot (block.map f)
  | statement slot blocks => statement slot (blocks.map f)
  | optionalStatement slot blocks => optionalStatement slot (blocks.map f)
  | repeatedValue members => repeatedValue (members.map fun e => (e.1, e.2.map f))
  | repeatedStatement members => repeatedStatement (members.map fun e => (e.1, e.2.map f))

theorem Slots.ofLayer_map (f : α → β) (l : BlockLayer α) :
    Slots.ofLayer (l.map f) = (Slots.ofLayer l).map (Slots.map f) := by
  have values : indexed l.id ((l.map f).values.map fun s => (s.name, s.block)) =
      (indexed l.id (l.values.map fun s => (s.name, s.block))).map (SortedMap.mapValues f) := by
    rw [← indexed_map, List.map_map, BlockLayer.map, List.map_map]
    rfl
  have statements : indexed l.id ((l.map f).statements.map fun s => (s.name, s.blocks)) =
      (indexed l.id (l.statements.map fun s => (s.name, s.blocks))).map
        (SortedMap.mapValues (List.map f)) := by
    rw [← indexed_map, List.map_map, BlockLayer.map, List.map_map]
    rfl
  change (do
    let fields ← indexed l.id (l.fields.map fun s => (s.name, s.value))
    let values ← indexed l.id ((l.map f).values.map fun s => (s.name, s.block))
    let statements ← indexed l.id ((l.map f).statements.map fun s => (s.name, s.blocks))
    return { fields, values, statements } : Except Error (Slots β)) = _
  rw [values, statements, Slots.ofLayer]
  generalize indexed l.id (l.fields.map fun s => (s.name, s.value)) = fields
  generalize indexed l.id (l.values.map fun s => (s.name, s.block)) = values
  generalize indexed l.id (l.statements.map fun s => (s.name, s.blocks)) = statements
  cases fields <;> cases values <;> cases statements <;> rfl

theorem takeNumbered_map (f : α → β) (blockId family : String) (slots : SortedMap String α) :
    takeNumbered blockId family (slots.mapValues f) =
      (takeNumbered blockId family slots).map
        (Prod.map (SortedMap.mapValues f) (SortedMap.mapValues f)) := by
  have step (m : SortedMap Nat α) (e : String × α) :
      foundStep blockId family (m.mapValues f) (e.1, f e.2) =
        (foundStep blockId family m e).map (SortedMap.mapValues f) := by
    simp only [foundStep, SortedMap.contains_mapValues, SortedMap.insert_mapValues]
    cases numbered? family e.1 with
    | none => rfl
    | some n => simp only; split <;> rfl
  have fold := Except.foldlM_map step (slots.filterKeys (isNumbered family)).entries .empty
  rw [takeNumbered_eq, takeNumbered_eq, SortedMap.filterKeys_mapValues,
    SortedMap.filterKeys_mapValues]
  change (((slots.filterKeys (isNumbered family)).entries.map fun e => (e.1, f e.2)).foldlM
    (foundStep blockId family) (SortedMap.empty.mapValues f) >>= _) = _
  rw [fold]
  rcases (slots.filterKeys (isNumbered family)).entries.foldlM (foundStep blockId family)
    SortedMap.empty with _ | _ <;> rfl

theorem repeatCount_map (f : α → β) (blockId family : String) (declared : Option Nat)
    (found : SortedMap Nat α) :
    repeatCount blockId family declared (found.mapValues f) =
      repeatCount blockId family declared found := by
  simp only [repeatCount, SortedMap.keys_mapValues, SortedMap.size_mapValues]

/-- What a row takes does not depend on what the slots hold. -/
theorem Slots.take_map (f : α → β) (blockId : String) (declared : Option Nat) (s : Slots α)
    (spec : FieldSpec) :
    (s.map f).take blockId declared spec =
      (s.take blockId declared spec).map (Prod.map (Portion.map f) (Slots.map f)) := by
  obtain ⟨name, internal, mode⟩ := spec
  cases mode with
  | literal =>
    simp only [take, map]
    cases s.fields.get? name <;> rfl
  | value =>
    simp only [take, map, SortedMap.get?_mapValues, SortedMap.erase_mapValues]
    rfl
  | statement | optionalStatement =>
    simp only [take, map, SortedMap.get?_mapValues, SortedMap.erase_mapValues]
    cases s.statements.get? name <;> rfl
  | repeatedValue =>
    simp only [take, map, takeNumbered_map]
    rcases takeNumbered blockId name s.values with _ | ⟨found, rest⟩
    · rfl
    simp only [Except.map, Prod.map, bind, Except.bind, repeatCount_map]
    rcases repeatCount blockId name declared found with _ | count
    · rfl
    simp only [pure, Except.pure, Portion.map, map, List.map_map, SortedMap.get?_mapValues]
    rfl
  | repeatedStatement =>
    have blocks (found : SortedMap Nat (List α)) (i : Nat) :
        ((found.get? i).map (List.map f)).getD [] = ((found.get? i).getD []).map f := by
      cases found.get? i <;> rfl
    simp only [take, map, takeNumbered_map]
    rcases takeNumbered blockId name s.statements with _ | ⟨found, rest⟩
    · rfl
    simp only [Except.map, Prod.map, bind, Except.bind, repeatCount_map]
    rcases repeatCount blockId name declared found with _ | count
    · rfl
    simp only [pure, Except.pure, Portion.map, map, List.map_map, SortedMap.get?_mapValues, blocks]
    rfl

/-! ## One row -/

/-- A row takes `portion` from `s` and leaves `s'`. -/
inductive Slots.Takes (declared : Option Nat) (s : Slots α) :
    FieldSpec → Portion α → Slots α → Prop where
  | literal {name internal text : String} (present : s.fields.get? name = some text) :
    s.Takes declared ⟨name, internal, .literal⟩ (.literal name text)
      { s with fields := s.fields.erase name }
  | value {name internal : String} :
    s.Takes declared ⟨name, internal, .value⟩ (.value name (s.values.get? name))
      { s with values := s.values.erase name }
  | statement {name internal : String} :
    s.Takes declared ⟨name, internal, .statement⟩
      (.statement name ((s.statements.get? name).getD []))
      { s with statements := s.statements.erase name }
  | optionalStatement {name internal : String} :
    s.Takes declared ⟨name, internal, .optionalStatement⟩
      (.optionalStatement name ((s.statements.get? name).getD []))
      { s with statements := s.statements.erase name }
  | repeatedValue {name internal : String} {found : SortedMap Nat α}
    {rest : SortedMap String α} {count : Nat} (split : Split name s.values found rest)
    (counts : Counts declared found count) :
    s.Takes declared ⟨name, internal, .repeatedValue⟩
      (.repeatedValue ((List.range count).map fun i => (name ++ toString i, found.get? i)))
      { s with values := rest }
  | repeatedStatement {name internal : String} {found : SortedMap Nat (List α)}
    {rest : SortedMap String (List α)} {count : Nat} (split : Split name s.statements found rest)
    (counts : Counts declared found count) :
    s.Takes declared ⟨name, internal, .repeatedStatement⟩
      (.repeatedStatement
        ((List.range count).map fun i => (name ++ toString i, (found.get? i).getD [])))
      { s with statements := rest }

/-- What a family takes: its members and how many there are. -/
theorem takeFamily_eq_ok_iff {γ : Type} {blockId family : String} {declared : Option Nat}
    {slots : SortedMap String α} (make : SortedMap Nat α → Nat → SortedMap String α → γ) {c : γ} :
    (do
      let (found, rest) ← takeNumbered blockId family slots
      let count ← repeatCount blockId family declared found
      return make found count rest : Except Error γ) = .ok c ↔
    ∃ found rest count, Split family slots found rest ∧ Counts declared found count ∧
      make found count rest = c := by
  simp only [Except.bind_eq_ok_iff, Except.pure_eq_ok_iff]
  refine ⟨fun h => ?_, fun h => ?_⟩
  · obtain ⟨⟨found, rest⟩, split, count, counts, h⟩ := h
    exact ⟨found, rest, count, takeNumbered_eq_ok_iff.1 split, repeatCount_eq_ok_iff.1 counts, h⟩
  · obtain ⟨found, rest, count, split, counts, h⟩ := h
    exact ⟨(found, rest), takeNumbered_eq_ok_iff.2 split, count, repeatCount_eq_ok_iff.2 counts, h⟩

/-- What a row takes, case by case. -/
theorem Slots.take_eq_ok_iff {blockId : String} {declared : Option Nat} {s s' : Slots α}
    {spec : FieldSpec} {portion : Portion α} :
    s.take blockId declared spec = .ok (portion, s') ↔ s.Takes declared spec portion s' := by
  obtain ⟨name, internal, mode⟩ := spec
  cases mode with
  | literal =>
    simp only [take]
    refine ⟨fun h => ?_, fun h => ?_⟩
    · split at h <;> cases h
      exact .literal ‹_›
    · obtain ⟨present⟩ := h
      rw [present]
  | value | statement | optionalStatement =>
    refine ⟨fun h => ?_, fun h => ?_⟩
    · cases h
      constructor
    · obtain ⟨⟩ := h
      rfl
  | repeatedValue =>
    refine (takeFamily_eq_ok_iff fun found count rest => (Portion.repeatedValue
      ((List.range count).map fun i => (name ++ toString i, found.get? i)),
        { s with values := rest })).trans ⟨?_, ?_⟩
    · rintro ⟨found, rest, count, split, counts, e⟩
      cases e
      exact .repeatedValue split counts
    · intro h
      cases h with
      | repeatedValue split counts => exact ⟨_, _, _, split, counts, rfl⟩
  | repeatedStatement =>
    refine (takeFamily_eq_ok_iff fun found count rest => (Portion.repeatedStatement
      ((List.range count).map fun i => (name ++ toString i, (found.get? i).getD [])),
        { s with statements := rest })).trans ⟨?_, ?_⟩
    · rintro ⟨found, rest, count, split, counts, e⟩
      cases e
      exact .repeatedStatement split counts
    · intro h
      cases h with
      | repeatedStatement split counts => exact ⟨_, _, _, split, counts, rfl⟩

/-! ## Whole tables -/

/-- What the rows of a table take one after the other, and the slots that are left. -/
def Slots.takeAll (blockId : String) (declared : Option Nat) :
    Slots α → List FieldSpec → Except Error (List (Portion α) × Slots α)
  | s, [] => .ok ([], s)
  | s, spec :: specs => do
    let (portion, s) ← s.take blockId declared spec
    let (portions, left) ← Slots.takeAll blockId declared s specs
    return (portion :: portions, left)

theorem Slots.takeAll_cons_eq_ok_iff {blockId : String} {declared : Option Nat} {s left : Slots α}
    {spec : FieldSpec} {specs : List FieldSpec} {portions : List (Portion α)} :
    s.takeAll blockId declared (spec :: specs) = .ok (portions, left) ↔
      ∃ portion s' others, s.take blockId declared spec = .ok (portion, s') ∧
        s'.takeAll blockId declared specs = .ok (others, left) ∧ portions = portion :: others := by
  simp only [takeAll, Except.bind_eq_ok_iff, Except.pure_eq_ok_iff, Prod.mk.injEq]
  refine ⟨fun h => ?_, fun h => ?_⟩
  · obtain ⟨⟨portion, s'⟩, first, ⟨others, left⟩, rest, rfl, rfl⟩ := h
    exact ⟨portion, s', others, first, rest, rfl⟩
  · obtain ⟨portion, s', others, first, rest, rfl⟩ := h
    exact ⟨(portion, s'), first, (others, left), rest, rfl, rfl⟩

theorem Slots.takeAll_append_eq_ok_iff {blockId : String} {declared : Option Nat}
    {s left : Slots α} {specs specs' : List FieldSpec} {portions : List (Portion α)} :
    s.takeAll blockId declared (specs ++ specs') = .ok (portions, left) ↔
      ∃ ps t qs, s.takeAll blockId declared specs = .ok (ps, t) ∧
        t.takeAll blockId declared specs' = .ok (qs, left) ∧ portions = ps ++ qs := by
  induction specs generalizing s portions with
  | nil =>
    refine ⟨fun h => ⟨[], s, portions, rfl, h, rfl⟩, fun h => ?_⟩
    obtain ⟨ps, t, qs, e, h, rfl⟩ := h
    cases e
    exact h
  | cons spec specs ih =>
    simp only [List.cons_append, takeAll_cons_eq_ok_iff, ih]
    refine ⟨fun h => ?_, fun h => ?_⟩
    · obtain ⟨p, s', _, first, ⟨ps, t, qs, earlier, later, rfl⟩, rfl⟩ := h
      exact ⟨p :: ps, t, qs, ⟨p, s', ps, first, earlier, rfl⟩, later, rfl⟩
    · obtain ⟨_, t, qs, ⟨p, s', ps, first, earlier, rfl⟩, later, rfl⟩ := h
      exact ⟨p, s', ps ++ qs, first, ⟨ps, t, qs, earlier, later, rfl⟩, rfl⟩

theorem Slots.takeAll_map (f : α → β) (blockId : String) (declared : Option Nat) (s : Slots α)
    (specs : List FieldSpec) :
    (s.map f).takeAll blockId declared specs =
      (s.takeAll blockId declared specs).map
        (Prod.map (List.map (Portion.map f)) (Slots.map f)) := by
  induction specs generalizing s with
  | nil => rfl
  | cons spec specs ih =>
    rw [takeAll, take_map, takeAll]
    rcases s.take blockId declared spec with _ | ⟨portion, s'⟩
    · rfl
    change ((s'.map f).takeAll blockId declared specs >>= _) = _
    rw [ih]
    change _ = Except.map _ (s'.takeAll blockId declared specs >>= _)
    rcases s'.takeAll blockId declared specs with _ | ⟨_, _⟩ <;> rfl

end Mapping

end BlockGraph

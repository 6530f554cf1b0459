import BlockGraph.Proofs.Node.Copy
import BlockGraph.Proofs.Rewrite.NormalForm

/-!
# Histories

Programs are made one after the other: read from documents, folded, copied, and copied with
findings attached. The ids of all of them come from one supply, which copies leave as it is. What an
operation used up stays used up when it fails.

* `History.after`: what any list of operations has made, from the first number on.
* `History.Orderly`: what every operation keeps. No id stands twice in a program, and every id was
  handed out.
* `History.Identifies`: what the ids of a program say about where its nodes come from.
* `History.identifies_after`: this holds after any list of operations.
-/

namespace BlockGraph

/-- The programs made so far, the oldest first, and what is left of the supply. -/
structure History where
  programs : List Program := []
  supply : Supply := {}

namespace History

/-- An operation that makes a program. Its source is told by the place in the history. -/
inductive Operation where
  | read (registry : KindRegistry) (d : Document)
  | fold (source : Nat)
  | copy (source : Nat)
  | annotate (findings : DiagnosticStore) (source : Nat)

/-- Makes a program. A failure makes none, and what it used up stays used up. -/
def add (h : History) (make : Make Program) : History :=
  let (result, supply) := make.run h.supply
  { programs := h.programs ++ result.toOption.toList, supply }

/-- Makes a program from one that was made before. Nothing happens without that one. -/
def derive (h : History) (source : Nat) (make : Program → Make Program) : History :=
  match h.programs[source]? with
  | some p => h.add (make p)
  | none => h

def step (h : History) : Operation → History
  | .read registry d => h.add (Program.ofDocument registry d)
  | .fold source => h.derive source fun p => Prod.fst <$> p.foldConstants.runFrom 0
  | .copy source => h.derive source Program.deepCopy
  | .annotate findings source => h.derive source findings.annotate

/-- What a list of operations has made, with every number unused at first. -/
def after (operations : List Operation) : History := operations.foldl step {}

theorem after_append (operations : List Operation) (o : Operation) :
    after (operations ++ [o]) = (after operations).step o := by
  rw [after, List.foldl_append]
  rfl

variable {h : History} {make : Make Program} {p q : Program} {t : Supply}

theorem add_of_ok (made : make.run h.supply = (.ok q, t)) :
    h.add make = ⟨h.programs ++ [q], t⟩ := by
  rw [add, made]
  rfl

theorem add_of_error {e : Error} (failed : make.run h.supply = (.error e, t)) :
    h.add make = ⟨h.programs, t⟩ := by
  rw [add, failed]
  show (⟨h.programs ++ [], t⟩ : History) = _
  rw [List.append_nil]

theorem derive_of_ok {source : Nat} {make : Program → Make Program}
    (found : h.programs[source]? = some p) (made : (make p).run h.supply = (.ok q, t)) :
    h.derive source make = ⟨h.programs ++ [q], t⟩ := by
  rw [derive, found]
  exact add_of_ok made

/-! ## What every operation keeps -/

/-- The ids of a program are distinct and were handed out, and its phrases can be built again, so
that it can be folded and copied. -/
structure Orderly (h : History) : Prop where
  distinct : ∀ p ∈ h.programs, p.ids.Nodup
  covered : ∀ p ∈ h.programs, h.supply.Covers p.ids
  whole : ∀ p ∈ h.programs, ∀ n ∈ p.walk, n.phrase.Rebuildable

namespace Orderly

/-- Numbers may be used up without a program. -/
theorem used (orderly : h.Orderly) (later : h.supply.next ≤ t.next) :
    Orderly ⟨h.programs, t⟩ where
  distinct := orderly.distinct
  covered p hp := (orderly.covered p hp).mono later
  whole := orderly.whole

theorem append (orderly : h.Orderly) (later : h.supply.next ≤ t.next) (distinct : q.ids.Nodup)
    (covered : t.Covers q.ids) (whole : ∀ n ∈ q.walk, n.phrase.Rebuildable) :
    Orderly ⟨h.programs ++ [q], t⟩ := by
  obtain ⟨before, shown, built⟩ := orderly.used later
  constructor <;> simp only [List.forall_mem_append, List.forall_mem_singleton]
  · exact ⟨before, distinct⟩
  · exact ⟨shown, covered⟩
  · exact ⟨built, whole⟩

/-- A copy has the ids of its source, whatever else is changed in the headers, and uses up none. -/
theorem append_mapHeaders (orderly : h.Orderly) (mem : p ∈ h.programs) {g : Header → Header}
    (same : ∀ header, (g header).id = header.id) :
    Orderly ⟨h.programs ++ [p.mapHeaders g], h.supply.afterEdition⟩ := by
  have later : h.supply.next ≤ h.supply.afterEdition.next := h.supply.next_afterEdition.ge
  apply orderly.append later
  · rw [p.ids_mapHeaders same]
    exact orderly.distinct p mem
  · rw [p.ids_mapHeaders same]
    exact (orderly.covered p mem).mono later
  · rw [Program.walk_mapHeaders, List.forall_mem_map]
    intro n hn
    rw [Node.phrase_mapHeaders, Phrase.rebuildable_map_iff]
    exact orderly.whole p mem n hn

/-- What keeps the history orderly for every program made before keeps it orderly for any source. -/
theorem derive {source : Nat} {make : Program → Make Program} (orderly : h.Orderly)
    (each : ∀ p ∈ h.programs, ∃ q t, (make p).run h.supply = (.ok q, t) ∧
      Orderly ⟨h.programs ++ [q], t⟩) : (h.derive source make).Orderly := by
  rcases found : h.programs[source]? with _ | p
  · rwa [History.derive, found]
  · obtain ⟨q, t, made, kept⟩ := each p (List.mem_of_getElem? found)
    rwa [derive_of_ok found made]

/-- Folding a program succeeds. -/
theorem exists_folds (orderly : h.Orderly) (mem : p ∈ h.programs) :
    ∃ q t, (Prod.fst <$> p.foldConstants.runFrom 0 : Make Program).run h.supply = (.ok q, t.2) ∧
      p.Folds (0, h.supply) q t := by
  obtain ⟨q, t, given, folds⟩ := Program.exists_folds_of_whole (orderly.whole p mem)
    (t := (0, h.supply)) (orderly.distinct p mem) (orderly.covered p mem)
  have run : (p.foldConstants.runFrom 0).run h.supply = (.ok (q, t.1), t.2) :=
    Rewriting.runFrom_eq_ok_iff.2 given
  refine ⟨q, t, ?_, folds⟩
  rw [map_eq_pure_bind, ExceptT.run_bind_stateM, run]
  rfl

/-- One operation keeps the history orderly. -/
theorem step (orderly : h.Orderly) (o : Operation) : (h.step o).Orderly := by
  cases o with
  | read registry d =>
    have later := Program.next_le_ofDocument registry d h.supply
    rw [History.step]
    rcases read : (Program.ofDocument registry d).run h.supply with ⟨e | q, t⟩ <;>
      rw [read] at later
    · rw [add_of_error read]
      exact orderly.used later
    · obtain ⟨-, distinct, covered⟩ := Program.ids_of_ofDocument read
      rw [add_of_ok read]
      exact orderly.append later distinct covered fun n hn =>
        (Program.regular_of_ofDocument read n hn).rebuildable
  | fold source =>
    refine orderly.derive fun p mem => ?_
    obtain ⟨q, t, made, folds⟩ := orderly.exists_folds mem
    exact ⟨q, t.2, made, orderly.append folds.later folds.distinct folds.covered
      (Program.rebuildable_of_content (orderly.whole p mem) folds.content)⟩
  | copy source =>
    refine orderly.derive fun p mem => ?_
    exact ⟨_, _, Program.deepCopy_run (orderly.whole p mem) h.supply,
      orderly.append_mapHeaders mem fun _ => rfl⟩
  | annotate findings source =>
    refine orderly.derive fun p mem => ?_
    exact ⟨_, _, findings.annotate_run (orderly.whole p mem) h.supply,
      orderly.append_mapHeaders mem fun _ => rfl⟩

end Orderly

theorem orderly_after (operations : List Operation) : (after operations).Orderly := by
  induction operations using List.reverseRecOn with
  | nil => exact ⟨List.forall_mem_nil _, List.forall_mem_nil _, List.forall_mem_nil _⟩
  | append_singleton operations o ih =>
    rw [after_append]
    exact ih.step o

/-! ## Where nodes come from -/

/-- No node had this id so far: its number was not handed out, and it is in no program. -/
def Fresh (h : History) (i : NodeId) : Prop :=
  h.supply.next ≤ i.number ∧ ∀ p ∈ h.programs, i ∉ p.ids

/-- What ids say at a time in a history, about the programs made so far and about what every
operation makes next. -/
structure Identifies (h : History) : Prop where
  /-- No two nodes of a program have the same id. -/
  distinct : ∀ p ∈ h.programs, p.ids.Nodup
  /-- All ids were handed out. They fit into a word as long as no more numbers were. -/
  covered : ∀ p ∈ h.programs, h.supply.Covers p.ids
  /-- The nodes of a program that is read have new ids. -/
  reading : ∀ registry d q t, (Program.ofDocument registry d).run h.supply = (.ok q, t) →
    (h.step (.read registry d)).programs = h.programs ++ [q] ∧ ∀ i ∈ q.ids, h.Fresh i
  /-- Folding succeeds, and every node of the folded program is one of the source, with all that is
  below it, or has a new id. -/
  folding : ∀ source p, h.programs[source]? = some p → ∃ q,
    (h.step (.fold source)).programs = h.programs ++ [q] ∧
      ∀ n ∈ q.walk, n ∈ p.walk ∨ h.Fresh n.id
  /-- Copying succeeds, and the copy has the same ids in the same order. -/
  copying : ∀ source p, h.programs[source]? = some p → ∃ q,
    (h.step (.copy source)).programs = h.programs ++ [q] ∧ q.ids = p.ids
  annotating : ∀ findings source p, h.programs[source]? = some p → ∃ q,
    (h.step (.annotate findings source)).programs = h.programs ++ [q] ∧ q.ids = p.ids

theorem Orderly.fresh (orderly : h.Orderly) {i : NodeId} (new : h.supply.next ≤ i.number) :
    h.Fresh i :=
  ⟨new, fun p hp mem => Nat.not_lt_of_le new (orderly.covered p hp i mem)⟩

/-- After any list of operations, ids tell the nodes of every program apart, and they tell which
nodes a folded program shares with its source. -/
theorem identifies_after (operations : List Operation) : (after operations).Identifies := by
  have orderly := orderly_after operations
  generalize after operations = h at orderly
  constructor
  case distinct => exact orderly.distinct
  case covered => exact orderly.covered
  case reading =>
    intro registry d q t read
    refine ⟨?_, fun i hi => orderly.fresh (Program.new_of_ofDocument read i hi)⟩
    rw [step, add_of_ok read]
  case folding =>
    intro source p found
    obtain ⟨q, t, made, folds⟩ := orderly.exists_folds (List.mem_of_getElem? found)
    refine ⟨q, ?_, fun n hn => (folds.origin n hn).imp_right orderly.fresh⟩
    rw [step, derive_of_ok found made]
  case copying =>
    intro source p found
    have whole := orderly.whole p (List.mem_of_getElem? found)
    refine ⟨_, ?_, p.ids_mapHeaders (g := Header.copied h.supply.nextEdition) fun _ => rfl⟩
    rw [step, derive_of_ok found (Program.deepCopy_run whole h.supply)]
  case annotating =>
    intro findings source p found
    have whole := orderly.whole p (List.mem_of_getElem? found)
    refine ⟨_, ?_, p.ids_mapHeaders (g := fun header =>
      (header.copied h.supply.nextEdition).annotated findings) fun _ => rfl⟩
    rw [step, derive_of_ok found (findings.annotate_run whole h.supply)]

/-- The product is read and folded, and the folded program is copied. -/
theorem identifies_product : ∃ q r,
    (after [.read .core product, .fold 0, .copy 1]).programs = [productProgram, q, r] ∧
      q.ids.Nodup ∧ r.ids = q.ids ∧
      ∀ n ∈ q.walk, n ∈ productProgram.walk ∨ (after [.read .core product]).Fresh n.id := by
  obtain ⟨t, read⟩ := exists_ofDocument_product
  have first := ((identifies_after []).reading .core product productProgram t read).1
  rw [← after_append] at first
  replace first : (after [.read .core product]).programs = [productProgram] := first
  obtain ⟨q, second, origin⟩ :=
    (identifies_after [.read .core product]).folding 0 productProgram (by rw [first]; rfl)
  rw [← after_append, first] at second
  replace second : (after [.read .core product, .fold 0]).programs = [productProgram, q] := second
  obtain ⟨r, third, same⟩ :=
    (identifies_after [.read .core product, .fold 0]).copying 1 q (by rw [second]; rfl)
  rw [← after_append, second] at third
  have distinct := (identifies_after [.read .core product, .fold 0]).distinct q (by simp [second])
  exact ⟨q, r, third, distinct, same, origin⟩

end History

end BlockGraph

import BlockGraph.Proofs.Mapping.Equivalence
import BlockGraph.Proofs.Mapping.RoundTrip
import BlockGraph.Proofs.Registry

/-!
# Reading after extensions

A registry is extended by calls that may be refused: a block type that is known keeps its kind.
Whatever calls were made, a document that was read before them is read after them, as the same
program.

* `KindRegistry.Extends`: every known block type has the same kind in another registry.
* `KindRegistry.extends_enrollAll`: calls, refused ones included, extend a registry.
* `Mapping.content_mono`: a block keeps its content in an extended registry.
* `Program.ofDocument_enrollAll`: a document is read as before.
-/

namespace BlockGraph

namespace KindRegistry

/-! ## Calls on a registry -/

/-- Adds an extension to a registry that is changed in place. -/
def enroll (spec : ExtensionSpec) : StateM KindRegistry (Except Error Unit) := do
  if (← get).contains spec.blockType then return .error (.duplicateKind spec.blockType)
  modify fun r => ⟨r.kinds.insert spec.blockType (.extension spec)⟩
  return .ok ()

/-- Calls one after the other: the answers, and the registry after them. -/
def enrollAll (specs : List ExtensionSpec) : StateM KindRegistry (List (Except Error Unit)) :=
  specs.mapM enroll

/-- A call says what `register` says, and it keeps the registry if it is refused. -/
theorem enroll_run (spec : ExtensionSpec) (r : KindRegistry) :
    (enroll spec).run r =
      match r.register spec with
      | .ok r' => (.ok (), r')
      | .error e => (.error e, r) := by
  by_cases known : r.contains spec.blockType = true <;> simp [enroll, register, known] <;> rfl

theorem enrollAll_cons (spec : ExtensionSpec) (specs : List ExtensionSpec) (r : KindRegistry) :
    (enrollAll (spec :: specs)).run r =
      let (answer, r') := (enroll spec).run r
      let (answers, last) := (enrollAll specs).run r'
      (answer :: answers, last) := by
  simp only [enrollAll, List.mapM_cons, StateT.run_bind]
  rfl

/-- Calls change a registry as `registerNew` does. -/
theorem enrollAll_run_snd (specs : List ExtensionSpec) (r : KindRegistry) :
    ((enrollAll specs).run r).2 = r.registerNew specs := by
  induction specs generalizing r with
  | nil => rfl
  | cons spec specs ih =>
    rw [enrollAll_cons, enroll_run, registerNew, List.foldl_cons]
    rcases r.register spec with e | r' <;> exact ih _

theorem enrollAll_append (earlier later : List ExtensionSpec) (r : KindRegistry) :
    ((enrollAll (earlier ++ later)).run r).2 =
      ((enrollAll later).run ((enrollAll earlier).run r).2).2 := by
  simp only [enrollAll_run_snd, registerNew, List.foldl_append]

/-- A call is refused if the block type is known, and the registry stays as it was; otherwise the
type gets the kind that was asked for. -/
theorem enroll_cases (spec : ExtensionSpec) (r : KindRegistry) :
    (∃ kind, r.lookup spec.blockType = some kind ∧
      (enroll spec).run r = (.error (.duplicateKind spec.blockType), r)) ∨
    (r.lookup spec.blockType = none ∧ ∃ r', (enroll spec).run r = (.ok (), r') ∧
      ∀ type, r'.lookup type =
        if type = spec.blockType then some (.extension spec) else r.lookup type) := by
  rw [enroll_run, register]
  by_cases known : r.contains spec.blockType = true
  · rw [if_pos known]
    obtain ⟨kind, found⟩ := SortedMap.exists_get?_of_mem (SortedMap.contains_iff.1 known)
    exact .inl ⟨kind, found, rfl⟩
  · rw [if_neg known]
    refine .inr ⟨?_, _, rfl, fun type => SortedMap.get?_insert _ _ _ _⟩
    exact SortedMap.get?_eq_none_iff.2 fun mem => known (SortedMap.contains_iff.2 mem)

/-! ## Extended registries -/

/-- What `r` knows, `r'` knows as the same. -/
def Extends (r r' : KindRegistry) : Prop :=
  ∀ type kind, r.lookup type = some kind → r'.lookup type = some kind

theorem Extends.refl (r : KindRegistry) : r.Extends r := fun _ _ known => known

theorem Extends.trans {r r' r'' : KindRegistry} (h : r.Extends r') (h' : r'.Extends r'') :
    r.Extends r'' :=
  fun type kind known => h' type kind (h type kind known)

/-- One call keeps the kinds of all types. -/
theorem extends_enroll (spec : ExtensionSpec) (r : KindRegistry) :
    r.Extends ((enroll spec).run r).2 := by
  rcases enroll_cases spec r with ⟨-, -, refused⟩ | ⟨new, r', added, lookups⟩
  · rw [refused]
    exact .refl r
  · rw [added]
    intro type kind known
    have other : type ≠ spec.blockType := by
      intro same
      rw [same, new] at known
      cases known
    rw [lookups, if_neg other]
    exact known

/-- Any number of calls keep the kinds of all types. -/
theorem extends_enrollAll (specs : List ExtensionSpec) (r : KindRegistry) :
    r.Extends ((enrollAll specs).run r).2 := by
  induction specs generalizing r with
  | nil => exact .refl r
  | cons spec specs ih =>
    rw [enrollAll_cons]
    exact (extends_enroll spec r).trans (ih _)

end KindRegistry

namespace Mapping

variable {r r' : KindRegistry}

/-! ## The content in an extended registry -/

theorem divide_mono {α : Type} (h : r.Extends r') {l : BlockLayer α} {kind : Kind}
    {portions : List (Portion α)} (divided : divide r l = .ok (kind, portions)) :
    divide r' l = .ok (kind, portions) := by
  rw [divide_eq_ok_iff] at divided ⊢
  obtain ⟨slots, declared, known, rest⟩ := divided
  exact ⟨slots, declared, h _ _ known, rest⟩

/-- A block keeps its content: every type that is looked up in it has the same kind as before. -/
theorem content_mono (h : r.Extends r') {b : Block} {n : Node} (read : content r b = .ok n) :
    content r' b = .ok n := by
  induction b using Block.induction generalizing n with
  | step l ih =>
    rw [content_eq_ok_iff] at read ⊢
    obtain ⟨named, portions, p, divided, filled, rest⟩ := read
    refine ⟨named, portions, p, divide_mono h divided, ?_, rest⟩
    refine Except.forall₂_imp_of_mem (fun q hq v here => ?_) filled
    have inside : ∀ b ∈ q.blocks, ∀ m, content r (id b) = .ok m → content r' (id b) = .ok m :=
      fun b hb m read => ih b (mem_children_of_divide divided hq hb) read
    simpa [Portion.map_id] using portionContent_mono inside (by simpa [Portion.map_id] using here)

theorem canvasContent_mono (h : r.Extends r') {c : Chain} {i : Instance}
    (read : canvasContent r c = .ok i) : canvasContent r' c = .ok i := by
  rw [canvasContent_eq_ok_iff] at read ⊢
  obtain ⟨body, read, e⟩ := read
  refine ⟨body, ?_, e⟩
  have inside : ∀ b ∈ c.blocks, ∀ m, content r (id b) = .ok m → content r' (id b) = .ok m :=
    fun b _ m read => content_mono h read
  simpa using chainContent_mono inside (by simpa using read)

end Mapping

/-! ## Documents -/

theorem Document.content_mono {r r' : KindRegistry} (h : r.Extends r') {d : Document} {q : Program}
    (read : d.content r = .ok q) : d.content r' = .ok q := by
  rw [content_eq_ok_iff] at read ⊢
  obtain ⟨version, is, instances, e⟩ := read
  exact ⟨version, is, Except.forall₂_imp_of_mem
    (fun c _ i read => Mapping.canvasContent_mono h read) instances, e⟩

/-- A document that is read with a registry is read with an extended one, as the same program. -/
theorem Program.ofDocument_of_extends {r r' : KindRegistry} (h : r.Extends r') {d : Document}
    {p : Program} {s s' : Supply} (read : (ofDocument r d).run s = (.ok p, s')) (t : Supply) :
    ∃ p' t', (ofDocument r' d).run t = (.ok p', t') ∧ p'.alike p = true := by
  obtain ⟨content, distinct⟩ := ofDocument_eq_ok_iff.1 ⟨p, s', read, rfl⟩
  obtain ⟨p', t', read', same⟩ :=
    (ofDocument_eq_ok_iff : _ ↔ _ ∧ _).2 ⟨Document.content_mono h content, distinct⟩
  refine ⟨p', t', read', ?_⟩
  exact (alike_iff_of_silent (silent_of_ofDocument read') (silent_of_ofDocument read)).2 same

/-- Calls change nothing that was there. Whenever a block type is known, the call that asks for it
is refused and leaves the registry as it was; a type that is known at some point keeps its kind to
the end. A document that was read before the calls is read after them, as the same program. -/
theorem Program.ofDocument_enrollAll (r : KindRegistry) (specs : List ExtensionSpec) :
    let after (made : List ExtensionSpec) := ((KindRegistry.enrollAll made).run r).2
    (∀ earlier spec later, specs = earlier ++ spec :: later →
      ∀ answer next, (KindRegistry.enroll spec).run (after earlier) = (answer, next) →
        next = after (earlier ++ [spec]) ∧
        (∀ type kind, (after earlier).lookup type = some kind →
          next.lookup type = some kind ∧ (after specs).lookup type = some kind) ∧
        ((∃ kind, (after earlier).lookup spec.blockType = some kind ∧
            answer = .error (.duplicateKind spec.blockType) ∧ next = after earlier) ∨
          (after earlier).lookup spec.blockType = none ∧ answer = .ok () ∧
            next.lookup spec.blockType = some (.extension spec))) ∧
    ∀ d p s s', (ofDocument r d).run s = (.ok p, s') →
      ∀ t, ∃ p' t', (ofDocument (after specs) d).run t = (.ok p', t') ∧ p'.alike p = true := by
  intro after
  constructor
  · intro earlier spec later e answer next called
    have this : next = ((KindRegistry.enroll spec).run (after earlier)).2 := by rw [called]
    have reached : next = after (earlier ++ [spec]) := by
      rw [this]
      exact (KindRegistry.enrollAll_append earlier [spec] r).symm
    have rest : (after earlier).Extends (after specs) := by
      simp only [after, e, KindRegistry.enrollAll_append earlier]
      exact KindRegistry.extends_enrollAll _ _
    refine ⟨reached, fun type kind known => ⟨?_, rest type kind known⟩, ?_⟩
    · rw [this]
      exact KindRegistry.extends_enroll spec _ type kind known
    · rcases KindRegistry.enroll_cases spec (after earlier) with
        ⟨kind, known, refused⟩ | ⟨new, r', added, lookups⟩
      · cases called.symm.trans refused
        exact .inl ⟨kind, known, rfl, rfl⟩
      · cases called.symm.trans added
        exact .inr ⟨new, rfl, by rw [lookups, if_pos rfl]⟩
  · intro d p s s' read t
    exact ofDocument_of_extends (KindRegistry.extends_enrollAll specs r) read t

/-- Another extension for the block type of `fork`, and one for a new type. -/
def forksAgain : List ExtensionSpec := [⟨"fork", .expression, []⟩, ⟨"join", .control, []⟩]

theorem Program.ofDocument_enrollAll_forked :
    let after := ((KindRegistry.enrollAll forksAgain).run forkRegistry).2
    after.lookup "fork" = some (.extension fork) ∧ after.contains "join" = true ∧
      ∃ p s' p' t', (ofDocument forkRegistry forked).run {} = (.ok p, s') ∧
        (ofDocument after forked).run {} = (.ok p', t') ∧ p'.alike p = true := by
  intro after
  obtain ⟨along, again⟩ := ofDocument_enrollAll forkRegistry forksAgain
  have first := along [] ⟨"fork", .expression, []⟩ [⟨"join", .control, []⟩] rfl _ _ rfl
  obtain ⟨p, s', read⟩ := exists_ofDocument_forked
  obtain ⟨p', t', read', same⟩ := again forked p {} s' read {}
  exact ⟨(first.2.1 "fork" (.extension fork) rfl).2, rfl, p, s', p', t', read, read', same⟩

end BlockGraph

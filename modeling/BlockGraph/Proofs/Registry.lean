import BlockGraph.Checking.Boards
import BlockGraph.Proofs.Except
import BlockGraph.Proofs.SortedMap

/-!
# Registries

A registry of kinds knows every kind under its own block type: this holds of the core kinds and
survives every extension (`KindRegistry.consistent_of_registerAll`). The registry of the built-in
platforms knows three of them (`PlatformRegistry.get_builtin_cases`).
-/

namespace BlockGraph.KindRegistry

/-- The block types of a registry are those of its kinds. -/
def Consistent (registry : KindRegistry) : Prop :=
  ∀ type kind, registry.lookup type = some kind → kind.blockType = some type

/-- The core registry knows core kinds only, under their block types. -/
theorem lookup_core {type : String} {kind : Kind} (known : core.lookup type = some kind) :
    kind ∈ Kind.coreBlockKinds ∧ kind.blockType = some type := by
  have mem := SortedMap.mem_entries_ofList (SortedMap.get?_eq_some_iff.1 known)
  obtain ⟨k, hk, e⟩ := List.mem_filterMap.1 mem
  obtain ⟨_, type, e⟩ := Option.map_eq_some_iff.1 e
  cases e
  exact ⟨hk, type⟩

theorem consistent_core : core.Consistent := fun _ _ known => (lookup_core known).2

theorem Consistent.register {registry registry' : KindRegistry} {spec : ExtensionSpec}
    (h : registry.Consistent) (added : registry.register spec = .ok registry') :
    registry'.Consistent := by
  rw [KindRegistry.register] at added
  split at added <;> cases added
  intro type kind known
  rw [lookup, SortedMap.get?_insert] at known
  split at known
  · next same =>
    cases known
    rw [same]
    rfl
  · exact h type kind known

theorem Consistent.registerAll {specs : List ExtensionSpec} {registry registry' : KindRegistry}
    (h : registry.Consistent) (added : registry.registerAll specs = .ok registry') :
    registry'.Consistent := by
  induction specs generalizing registry with
  | nil =>
    cases added
    exact h
  | cons spec specs ih =>
    obtain ⟨next, first, others⟩ := Except.bind_eq_ok_iff.1 added
    exact ih (h.register first) others

/-- The core registry stays consistent whatever is registered. -/
theorem consistent_of_registerAll {specs : List ExtensionSpec} {registry : KindRegistry}
    (h : core.registerAll specs = .ok registry) : registry.Consistent :=
  consistent_core.registerAll h

/-- A registry that was extended knows what it knew and the extensions. -/
theorem lookup_registerAll {specs : List ExtensionSpec} {registry registry' : KindRegistry}
    (added : registry.registerAll specs = .ok registry') {type : String} {kind : Kind}
    (known : registry'.lookup type = some kind) :
    registry.lookup type = some kind ∨ ∃ spec ∈ specs, kind = .extension spec := by
  induction specs generalizing registry with
  | nil =>
    cases added
    exact .inl known
  | cons spec specs ih =>
    obtain ⟨next, first, others⟩ := Except.bind_eq_ok_iff.1 added
    rcases ih others with before | ⟨spec', mem, same⟩
    · rw [KindRegistry.register] at first
      split at first <;> cases first
      rw [lookup, SortedMap.get?_insert] at before
      split at before
      · cases before
        exact .inr ⟨spec, List.mem_cons_self, rfl⟩
      · exact .inl before
    · exact .inr ⟨spec', List.mem_cons_of_mem _ mem, same⟩

/-- The extensions that a registry knows are those that were registered. -/
theorem mem_of_registerAll {specs : List ExtensionSpec} {registry : KindRegistry}
    (added : core.registerAll specs = .ok registry) {type : String} {spec : ExtensionSpec}
    (known : registry.lookup type = some (.extension spec)) : spec ∈ specs := by
  rcases lookup_registerAll added known with core | ⟨spec', mem, same⟩
  · have other : ∀ kind ∈ Kind.coreBlockKinds, ∀ spec, kind ≠ .extension spec := by
      simp [Kind.coreBlockKinds]
    exact absurd rfl (other _ (lookup_core core).1 spec)
  · cases same
    exact mem

end BlockGraph.KindRegistry

namespace BlockGraph.PlatformRegistry

/-- Every platform that is found is one of the three, and it is found under its own name. -/
theorem get_builtin_cases {name : String} {p : Platform} (known : builtin.get name = .ok p) :
    p.name = name ∧ (p = Boards.ev3 ∨ p = Boards.calliope ∨ p = Boards.nxt) := by
  rw [get] at known
  split at known <;> cases known
  have mem := SortedMap.mem_entries_ofList (SortedMap.get?_eq_some_iff.1 ‹_›)
  obtain ⟨q, among, e⟩ := List.mem_map.1 mem
  cases e
  exact ⟨rfl, by simpa only [List.mem_cons, List.not_mem_nil, or_false] using among⟩

end BlockGraph.PlatformRegistry

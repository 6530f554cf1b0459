import BlockGraph.Diagnostic.Store
import BlockGraph.Proofs.Node.Content
import BlockGraph.Proofs.Phrase

/-!
# Copies

A copy of a program differs from it in the headers of its nodes only, and so does a copy that
findings are attached to. Copying succeeds if every phrase can be built again from its slots.

* `Program.deepCopy_run`: what a copy is.
* `DiagnosticStore.annotate_run`: what a copy with findings is.
-/

namespace BlockGraph

/-! ## Copying -/

/-- The header of a node in a copy. -/
def Header.copied (edition : Nat) (h : Header) : Header := { h with edition, sealed := true }

/-- A tree whose phrases can be built again is copied. -/
theorem Node.deepCopy_eq_ok {n : Node} (whole : ∀ m ∈ n.walk, m.phrase.Rebuildable)
    (edition : Nat) : n.deepCopy edition = .ok (n.mapHeaders (Header.copied edition)) := by
  induction n using Node.induction with
  | step n ih =>
    rw [walk_eq, List.forall_mem_cons, List.forall_mem_flatMap] at whole
    let visited (c : Node) : Visited (Except Error Node) := ⟨c, c.deepCopy edition⟩
    have children : ∀ c ∈ (n.phrase.map visited).children,
        c.result = .ok (c.node.mapHeaders (Header.copied edition)) := by
      rw [Phrase.children_map, List.forall_mem_map]
      exact fun c hc => ih c hc (whole.2 c hc)
    have phrase := Phrase.mapChildren_eq_ok
      ((Phrase.rebuildable_map_iff visited n.phrase).2 whole.1) n.label children
    rw [deepCopy, recurse_eq, mapHeaders_eq]
    change ((n.phrase.map visited).mapChildren n.label (·.result) >>= _) = _
    rw [phrase, Phrase.map_map]
    rfl

theorem Program.mapBodies_run {p : Program} {f : Node → Except Error Node} {g : Node → Node}
    (each : ∀ i ∈ p.instances, f i.body = .ok (g i.body)) (s : Supply) :
    (p.mapBodies fun body => Make.ofExcept (f body)).run s =
      (.ok { p with instances := p.instances.map fun i => { i with body := g i.body } }, s) := by
  rw [mapBodies, ExceptT.run_bind_stateM,
    ExceptT.run_mapM_stateM (g := fun i => { i with body := g i.body }) fun i hi => ?_]
  · rfl
  · rw [ExceptT.run_bind_stateM, each i hi]
    rfl

/-- A program whose phrases can be built again is copied, as the next edition. No number of an id
is used up. -/
theorem Program.deepCopy_run {p : Program} (whole : ∀ n ∈ p.walk, n.phrase.Rebuildable)
    (s : Supply) :
    p.deepCopy.run s = (.ok (p.mapHeaders (Header.copied s.nextEdition)), s.afterEdition) := by
  rw [deepCopy, ExceptT.run_bind_stateM]
  refine mapBodies_run (g := Node.mapHeaders (Header.copied s.nextEdition)) (fun i hi => ?_) _
  exact Node.deepCopy_eq_ok (fun n hn => whole n (List.mem_flatMap.2 ⟨i, hi, hn⟩)) _

/-! ## Attaching findings -/

/-- The header of a node that the findings about it are attached to. -/
def Header.annotated (store : DiagnosticStore) (h : Header) : Header :=
  { h with diagnostics := h.diagnostics ++ store.forNode h.id }

theorem Node.foldl_addDiagnostic (ds : List Diagnostic) (n : Node) :
    ds.foldl (fun n d => n.addDiagnostic d) n =
      mk { n.header with diagnostics := n.diagnostics ++ ds } n.phrase := by
  induction ds generalizing n with
  | nil =>
    obtain ⟨h, p⟩ := n
    simp [Node.diagnostics]
  | cons d ds ih =>
    obtain ⟨h, p⟩ := n
    rw [List.foldl_cons, ih]
    simp [Node.diagnostics, addDiagnostic]

namespace DiagnosticStore

variable (store : DiagnosticStore)

theorem mapNodes_attach (p : Program) :
    p.mapNodes store.attach = p.mapHeaders (Header.annotated store) := by
  have attach : store.attach = fun n => .mk (Header.annotated store n.header) n.phrase :=
    funext fun n => n.foldl_addDiagnostic _
  rw [attach]
  rfl

/-- Findings are attached to a copy in which only the headers are changed. -/
theorem annotate_run {p : Program} (whole : ∀ n ∈ p.walk, n.phrase.Rebuildable) (s : Supply) :
    (store.annotate p).run s =
      (.ok (p.mapHeaders fun h => (h.copied s.nextEdition).annotated store), s.afterEdition) := by
  rw [annotate, ExceptT.run_bind_stateM, Program.deepCopy_run whole]
  change (Except.ok ((p.mapHeaders _).mapNodes store.attach), _) = _
  rw [mapNodes_attach, Program.mapHeaders_mapHeaders]

end DiagnosticStore

end BlockGraph

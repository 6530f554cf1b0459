import BlockGraph.Proofs.Checking.Inactive
import BlockGraph.Proofs.Mapping.Identity

/-!
# Changes that runs overlook

A rewriting of trees applies a change to every node, from the bottom up. If a run cannot tell single
nodes from what the change makes of them, it cannot tell the programs apart either. The arguments
about the tree and about the order of a run are made here; what is left for a given change is to
look at single nodes.

* `Platform.Overlooks`: a change of single nodes that a platform does not notice.
* `Platform.Overlooks.check_mapNodes`: checking a tree and checking the changed tree go in parallel.
* `Platform.Overlooks.gist_validate_mapNodes`: a run says the same of a program and of the changed
  one.
-/

namespace BlockGraph

namespace Node

/-! ## Other children -/

variable (n : Node) (g : Node → Node)

theorem number?_mk_map : (mk n.header (n.phrase.map g)).number? = n.number? := by
  unfold number?
  rw [phrase_mk]
  cases n.phrase <;> rfl

theorem text?_mk_map : (mk n.header (n.phrase.map g)).text? = n.text? := by
  unfold text?
  rw [phrase_mk]
  cases n.phrase <;> rfl

end Node

/-- A change of single nodes that does not show in a run on a platform which looks at no more of
the operands than `looks`. -/
structure Platform.Overlooks (platform : Platform) (looks : Looks) (f : Node → Node) : Prop where
  header : ∀ n, (f n).header = n.header
  missing : ∀ n, (f n).phrase.isEmptyExpr = n.phrase.isEmptyExpr
  number : looks.power = true ∨ looks.frequency = true → ∀ n, (f n).number? = n.number?
  text : looks.text = true → ∀ n, (f n).text? = n.text?
  /-- Only inactive statements come and go. -/
  statements : ∀ n, (f n).statements.filter Node.isActive = n.statements.filter Node.isActive
  define : ∀ n, Checker.defineIfMethod (f n) = Checker.defineIfMethod n
  start : ∀ n, (f n).kind = .mainTask ↔ n.kind = .mainTask
  check : ∀ n, Checker.check platform (f n) = Checker.check platform n

namespace Platform.Overlooks

open Checker CheckState Node

variable {platform : Platform} {looks : Looks} {f : Node → Node}
  (hidden : platform.Overlooks looks f)

include hidden

/-! ## Nodes -/

theorem header_mapNodes (n : Node) : (n.mapNodes f).header = n.header := by
  rw [mapNodes_eq, hidden.header, header_mk]

theorem blockId?_mapNodes (n : Node) : (n.mapNodes f).blockId? = n.blockId? :=
  congrArg Header.blockId (hidden.header_mapNodes n)

theorem isActive_mapNodes (n : Node) : (n.mapNodes f).isActive = n.isActive :=
  congrArg (·.attributes.isActive) (hidden.header_mapNodes n)

theorem missing_mapNodes (n : Node) :
    (n.mapNodes f).phrase.isEmptyExpr = n.phrase.isEmptyExpr := by
  rw [mapNodes_eq, hidden.missing, phrase_mk]
  cases n.phrase <;> rfl

theorem number?_mapNodes (looked : looks.power = true ∨ looks.frequency = true) (n : Node) :
    (n.mapNodes f).number? = n.number? := by
  rw [mapNodes_eq, hidden.number looked, number?_mk_map]

theorem text?_mapNodes (looked : looks.text = true) (n : Node) :
    (n.mapNodes f).text? = n.text? := by
  rw [mapNodes_eq, hidden.text looked, text?_mk_map]

/-- The operands that a platform looks at are the same for it. -/
theorem same_map (p : Phrase Node) : looks.Same p (p.map (mapNodes f)) := by
  cases p with
  | motorSetPower port power => exact fun looked => (hidden.number?_mapNodes (.inl looked) _).symm
  | showText text => exact fun looked => (hidden.text?_mapNodes looked _).symm
  | playTone frequency duration =>
    exact fun looked => (hidden.number?_mapNodes (.inr looked) _).symm
  | _ => trivial

/-- Checking a tree and checking the changed tree go in parallel. -/
theorem check_mapNodes (sees : platform.SeesOnly looks) (n : Node) :
    Parallel (Alike Eq) (Checker.check platform n) (Checker.check platform (n.mapNodes f)) := by
  induction n using Node.induction with
  | step n ih =>
    obtain ⟨h, p⟩ := n
    have left : (p.map fun c => (c, c.mapNodes f)).map Prod.fst = p :=
      p.map_map_cancel fun c => rfl
    have right : (p.map fun c => (c, c.mapNodes f)).map Prod.snd = p.map (mapNodes f) :=
      Phrase.map_map ..
    have asked : Parallel Collector.Alike (platform.ask (.mk h p) p)
        (platform.ask (.mk h (p.map (mapNodes f))) (p.map (mapNodes f))) := by
      have blocks := Parallel.ask sees (a := .mk h p) (b := .mk h (p.map (mapNodes f))) rfl
        (r := p.map fun c => (c, c.mapNodes f))
        (by rw [Phrase.children_map, List.forall_mem_map]
            exact fun c _ => (hidden.blockId?_mapNodes c).symm)
        (by rw [left, right]; exact hidden.same_map p)
      rwa [left, right] at blocks
    have twin : (Node.mk h p).Twin Eq (.mk h (p.map (mapNodes f))) :=
      ⟨rfl, rfl, (Phrase.kind_map _ p).symm⟩
    rw [mapNodes_eq, hidden.check]
    refine Parallel.congruence.check (Parallel.congruence_nodes biUnique_eq twin) left right rfl ?_
      (.collect asked)
    rw [Phrase.children_map, List.forall_mem_map]
    exact fun c hc => Parallel.congruence_children
      ⟨(hidden.blockId?_mapNodes c).symm, (hidden.missing_mapNodes c).symm, ih c hc⟩

/-! ## Chains on the canvas -/

theorem defineIfMethod_mapNodes (n : Node) :
    Parallel (Alike Eq) (defineIfMethod n) (defineIfMethod (n.mapNodes f)) := by
  rw [mapNodes_eq, hidden.define]
  unfold defineIfMethod
  rw [phrase_mk]
  cases n.phrase with
  | methodDef name body => exact .define rfl name
  | _ => exact .pure _

theorem checkIfStart_mapNodes (sees : platform.SeesOnly looks) (n : Node) :
    Parallel (Alike Eq) (checkIfStart platform n) (checkIfStart platform (n.mapNodes f)) := by
  have start : (n.mapNodes f).kind = .mainTask ↔ n.kind = .mainTask := by
    rw [mapNodes_eq, hidden.start, kind, phrase_mk, Phrase.kind_map, kind]
  rw [checkIfStart_eq, checkIfStart_eq]
  simp only [start]
  split
  · exact (hidden.check_mapNodes sees n).discard
  · exact .pure _

theorem statements_mapNodes (n : Node) : (n.mapNodes f).statements.filter isActive =
    (n.statements.filter isActive).map (mapNodes f) := by
  have active : isActive ∘ mapNodes f = isActive := funext hidden.isActive_mapNodes
  rw [mapNodes_eq, hidden.statements, statements_mk_map, List.filter_map, active]

theorem topLevel_mapNodes (p : Program) :
    topLevel (p.mapNodes f) = (topLevel p).map (mapNodes f) := by
  have each (i : Instance) := hidden.statements_mapNodes i.body
  unfold topLevel Program.mapNodes
  rw [List.filter_flatMap, List.filter_flatMap, List.flatMap_map, List.map_flatMap]
  exact List.flatMap_congr fun i _ => each i

/-! ## Runs -/

theorem run_mapNodes (sees : platform.SeesOnly looks) (p : Program) :
    Parallel (Alike Eq) (run platform p) (run platform (p.mapNodes f)) := by
  refine .run_of ?_ ?_
  · rw [hidden.topLevel_mapNodes, List.forall₂_map_right_iff, List.forall₂_same]
    exact fun n _ => ⟨hidden.defineIfMethod_mapNodes n, hidden.checkIfStart_mapNodes sees n⟩
  · unfold Program.mapNodes
    rw [List.forall₂_map_right_iff, List.forall₂_same]
    exact fun i _ => hidden.check_mapNodes sees i.body

/-- A run says the same of a program and of the changed one. -/
theorem gist_validate_mapNodes (sees : platform.SeesOnly looks) (p : Program)
    (config : HardwareConfig) :
    (platform.validate (p.mapNodes f) config).gist = (platform.validate p config).gist :=
  (Platform.gist_validate_of_parallel (hidden.run_mapNodes sees p) config).symm

end Platform.Overlooks

end BlockGraph

import BlockGraph.Proofs.Checking.Inactive
import BlockGraph.Proofs.Mapping.Identity

/-!
# Runs and the identity of nodes

Programs with the same content have outcomes that say the same, whatever ids their nodes have, as
long as no two nodes of a program share an id.

* `biUnique_zip`: two lists without repetitions pair their elements one to one.
* `Node.agree_of_plain`: nodes of the same content agree.
* `Platform.gist_validate_of_plain`: their programs have outcomes that say the same.
* `Program.gist_validate_of_alike`: the same for programs that are alike and built-in platforms.
-/

namespace BlockGraph

/-! ## Pairs of ids -/

/-- The elements of two lists without repetitions that have the same place are paired one to
one. -/
theorem biUnique_zip {α β : Type} {l : List α} {m : List β} (left : l.Nodup) (right : m.Nodup) :
    Relator.BiUnique fun a b => (a, b) ∈ l.zip m := by
  constructor
  · intro a b a' first second
    obtain ⟨i, hi, first⟩ := List.mem_iff_getElem.1 first
    obtain ⟨j, hj, second⟩ := List.mem_iff_getElem.1 second
    rw [List.getElem_zip, Prod.mk.injEq] at first second
    have place : i = j := (right.getElem_inj_iff).1 (first.2.trans second.2.symm)
    subst place
    exact first.1.symm.trans second.1
  · intro a b b' first second
    obtain ⟨i, hi, first⟩ := List.mem_iff_getElem.1 first
    obtain ⟨j, hj, second⟩ := List.mem_iff_getElem.1 second
    rw [List.getElem_zip, Prod.mk.injEq] at first second
    have place : i = j := (left.getElem_inj_iff).1 (first.1.trans second.1.symm)
    subst place
    exact first.2.symm.trans second.2

/-- Lists that are put together from parts of the same lengths are paired part by part. -/
theorem zip_subset_zip_flatMap {α β γ δ : Type} {l : List α} {m : List β} {f : α → List γ}
    {g : β → List δ} (lengths : List.Forall₂ (fun a b => (f a).length = (g b).length) l m)
    {a : α} {b : β} (mem : (a, b) ∈ l.zip m) :
    (f a).zip (g b) ⊆ (l.flatMap f).zip (m.flatMap g) := by
  induction lengths with
  | nil => cases mem
  | cons first _ ih =>
    rw [List.flatMap_cons, List.flatMap_cons, List.zip_append first]
    rw [List.zip_cons_cons, List.mem_cons] at mem
    intro c hc
    rcases mem with same | mem
    · cases same
      exact List.mem_append_left _ hc
    · exact List.mem_append_right _ (ih mem hc)

/-! ## Nodes -/

namespace Node

@[simp] theorem text?_plain (n : Node) : n.plain.text? = n.text? := by
  unfold text?
  rw [phrase_plain]
  cases n.phrase <;> rfl

theorem length_ids_of_plain {a b : Node} (same : a.plain = b.plain) :
    a.ids.length = b.ids.length := by
  have walk (n : Node) : n.plain.walk.length = n.ids.length := by
    rw [walk_plain, List.length_map, ids, List.length_map]
  rw [← walk a, ← walk b, same]

theorem forall₂_children_of_plain {a b : Node} (same : a.plain = b.plain) :
    List.Forall₂ (fun c d : Node => c.plain = d.plain) a.children b.children := by
  have children := congrArg Phrase.children (plain_eq_iff.1 same).2.2.2
  rw [Phrase.children_map, Phrase.children_map, ← List.forall₂_eq_eq_eq,
    List.forall₂_map_left_iff, List.forall₂_map_right_iff] at children
  exact children

section Paired

variable {R : NodeId → NodeId → Prop} {a b : Node}

/-- What is paired in two nodes of the same content is paired in their children. -/
theorem forall₂_paired_children (same : a.plain = b.plain)
    (paired : ∀ c ∈ a.ids.zip b.ids, R c.1 c.2) :
    List.Forall₂ (fun c d : Node => c.plain = d.plain ∧ ∀ i ∈ c.ids.zip d.ids, R i.1 i.2)
      a.children b.children := by
  have children := forall₂_children_of_plain same
  refine List.forall₂_iff_zip.2 ⟨children.length_eq, fun {c d} mem => ?_⟩
  refine ⟨(List.forall₂_iff_zip.1 children).2 mem, fun i hi => paired i ?_⟩
  rw [ids_eq, ids_eq, List.zip_cons_cons]
  refine List.mem_cons_of_mem _ (zip_subset_zip_flatMap ?_ mem hi)
  exact children.imp fun c d => length_ids_of_plain

/-- Nodes of the same content agree in all that a run looks at. -/
theorem agree_of_plain {looks : Looks} (same : a.plain = b.plain)
    (paired : ∀ c ∈ a.ids.zip b.ids, R c.1 c.2) : a.Agree looks R b := by
  induction a using Node.induction generalizing b with
  | step a ih =>
    obtain ⟨block, attributes, -, phrase⟩ := plain_eq_iff.1 same
    have children := forall₂_paired_children same paired
    have top : R a.id b.id := by
      rw [ids_eq, ids_eq] at paired
      exact paired _ List.mem_cons_self
    have shape := congrArg (Phrase.map fun _ => ()) phrase
    rw [Phrase.map_map, Phrase.map_map] at shape
    refine .kept top block (by rw [isActive, attributes, isActive]) shape (fun c hc => ?_) ?_
    · obtain ⟨same, paired⟩ := (List.forall₂_iff_zip.1 children).2 hc
      exact ih c.1 (List.of_mem_zip hc).1 same paired
    · obtain ⟨r, left, right⟩ := Phrase.exists_zip shape
      rw [← left, ← right] at phrase ⊢
      cases r with
      | motorSetPower port c =>
        intro _
        have operand := congrArg number? (Phrase.motorSetPower.inj phrase).2
        rwa [number?_plain, number?_plain] at operand
      | showText c =>
        intro _
        have operand := congrArg text? (Phrase.showText.inj phrase)
        rwa [text?_plain, text?_plain] at operand
      | playTone c d =>
        intro _
        have operand := congrArg number? (Phrase.playTone.inj phrase).1
        rwa [number?_plain, number?_plain] at operand
      | _ => trivial

theorem statements_eq (n : Node) :
    n.statements = if n.kind = .stmtList then n.children else [] := by
  unfold statements kind children
  cases n.phrase <;> rfl

theorem agree_statements_of_plain {looks : Looks} (same : a.plain = b.plain)
    (paired : ∀ c ∈ a.ids.zip b.ids, R c.1 c.2) :
    List.Forall₂ (Agree looks R) a.statements b.statements := by
  have kind : a.kind = b.kind := by
    rw [← kind_plain, same, kind_plain]
  rw [statements_eq, statements_eq, kind]
  split
  · exact (forall₂_paired_children same paired).imp fun c d h => agree_of_plain h.1 h.2
  · exact .nil

end Paired

end Node

/-! ## Programs -/

namespace Program

theorem forall₂_instances_of_plain {p q : Program} (same : p.plain = q.plain) :
    List.Forall₂ (fun i j : Instance => i.body.plain = j.body.plain) p.instances q.instances := by
  have instances := congrArg instances same
  change p.instances.map _ = q.instances.map _ at instances
  rw [← List.forall₂_eq_eq_eq, List.forall₂_map_left_iff, List.forall₂_map_right_iff] at instances
  exact instances.imp fun i j => congrArg Instance.body

/-- Programs of the same content agree in all that a run looks at. -/
theorem agree_of_plain {looks : Looks} {p q : Program} (same : p.plain = q.plain) :
    p.Agree looks (fun i j => (i, j) ∈ p.ids.zip q.ids) q := by
  have bodies := forall₂_instances_of_plain same
  refine List.forall₂_iff_zip.2 ⟨bodies.length_eq, fun {i j} mem => ?_⟩
  have content := (List.forall₂_iff_zip.1 bodies).2 mem
  have paired : ∀ c ∈ i.body.ids.zip j.body.ids, (c.1, c.2) ∈ p.ids.zip q.ids := by
    rw [ids_eq, ids_eq]
    intro c hc
    exact zip_subset_zip_flatMap (bodies.imp fun i j => Node.length_ids_of_plain) mem hc
  exact ⟨Node.agree_of_plain content paired, Node.agree_statements_of_plain content paired⟩

end Program

/-- Programs of the same content have outcomes that say the same. -/
theorem Platform.gist_validate_of_plain {platform : Platform} {looks : Looks}
    (sees : platform.SeesOnly looks) {p q : Program} (same : p.plain = q.plain)
    (left : p.ids.Nodup) (right : q.ids.Nodup) (config : HardwareConfig) :
    (platform.validate p config).gist = (platform.validate q config).gist :=
  gist_validate_eq sees (biUnique_zip left right) (Program.agree_of_plain same) config

/-- A run on a built-in platform says the same of programs that are alike: it depends neither on the
ids of nodes nor on the findings that they carry. -/
theorem Program.gist_validate_of_alike {p q : Program} (same : p.alike q = true)
    (left : p.ids.Nodup) (right : q.ids.Nodup) {robot : String} {platform : Platform}
    (known : PlatformRegistry.builtin.get robot = .ok platform) (config : HardwareConfig) :
    (platform.validate p config).gist = (platform.validate q config).gist := by
  have sees := Platform.seesOnly_of_builtin known
  exact Platform.gist_validate_of_plain sees (alike_iff.1 same) left right config

/-- A program that declares `x` and `y` and uses only `x`. Its nodes have the ids that `number`
gives them, and the block of `x` has the given findings. -/
def halfUsed (number : Nat → Nat) (findings : List Diagnostic) : Program :=
  let node (i : Nat) (p : Phrase Node) : Node := .mk { id := ⟨number i⟩, sealed := true } p
  let block (i : Nat) (id : String) (p : Phrase Node) : Node :=
    .mk { id := ⟨number i⟩, sealed := true, blockId := id } p
  let x : Node := .mk { id := ⟨number 2⟩, sealed := true, blockId := "b", diagnostics := findings }
    (.varDeclaration "x" .number (block 1 "c" (.numConst "1")))
  let y : Node := block 4 "d" (.varDeclaration "y" .number (block 3 "e" (.numConst "2")))
  { formatVersion := "3.1"
    instances := [⟨0, 0, node 9 (.stmtList [
      block 6 "a" (.mainTask false (node 5 (.stmtList [x, y]))),
      block 8 "f" (.waitTime (block 7 "g" (.varRef "x")))])⟩] }

/-- The warning about the unused variable stays the same if the ids are dealt out the other way
round. -/
theorem Program.gist_validate_halfUsed :
    let p := halfUsed id []
    let q := halfUsed (9 - ·) [{ severity := .info, code := .note, message := "seen" }]
    p.alike q = true ∧ p.ids.Nodup ∧ q.ids.Nodup ∧ p.ids ≠ q.ids ∧
      PlatformRegistry.builtin.get "nxt" = .ok Boards.nxt ∧
      (Boards.nxt.validate p { robot := "nxt" }).gist =
        (Boards.nxt.validate q { robot := "nxt" }).gist := by
  intro p q
  have same : p.alike q = true := by decide
  have left : p.ids.Nodup := by decide
  have right : q.ids.Nodup := by decide
  have known : PlatformRegistry.builtin.get "nxt" = .ok Boards.nxt := rfl
  refine ⟨same, left, right, by decide, known, ?_⟩
  exact gist_validate_of_alike same left right known _

end BlockGraph

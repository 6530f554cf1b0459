import BlockGraph.Proofs.Checking.Identity
import BlockGraph.Proofs.Checking.Overlooks

/-!
# Runs on programs without inactive statements

A disabled or detached statement is as good as deleted. Where a branch that may be missing loses
all its statements, the empty chain may stay or go as well.

* `Program.pruned`: a program without inactive statements.
* `Program.trimmed`: a program without empty chains where a chain may be missing.
* `Node.isActive_of_mem_pruned`: no chain of a pruned tree has an inactive statement.
* `Program.gist_validate_pruned`: a run says the same of a program and of what is left of it.
-/

namespace BlockGraph

/-! ## Deleting -/

namespace Node

/-- A chain without its inactive statements; any other node as it is. -/
def prune (n : Node) : Node :=
  match n.phrase with
  | .stmtList statements => mk n.header (.stmtList (statements.filter isActive))
  | _ => n

/-- A tree without the inactive statements of its chains. -/
def pruned : Node → Node := mapNodes prune

/-- Whether a node is a chain without statements. -/
def isEmptyChain (n : Node) : Bool :=
  match n.phrase with
  | .stmtList [] => true
  | _ => false

end Node

/-- A slot that holds no empty chain if it may hold none at all. -/
def SlotValue.trim : SlotValue Node → SlotValue Node
  | .optionalStatement chain => .optionalStatement (chain.filter fun c => !c.isEmptyChain)
  | v => v

/-- A node without the empty chains that may as well be missing. -/
def Node.trim (n : Node) : Node :=
  match n.phrase with
  | .ifElse conditions branches otherwise =>
    mk n.header (.ifElse conditions branches (otherwise.filter fun c => !c.isEmptyChain))
  | .extension spec slots => mk n.header (.extension spec (slots.map SlotValue.trim))
  | _ => n

namespace Program

/-- A program without the inactive statements of its chains, at any depth. -/
def pruned (p : Program) : Program := p.mapNodes Node.prune

/-- A program without the empty chains that may as well be missing. -/
def trimmed (p : Program) : Program := p.mapNodes Node.trim

end Program

namespace Node

theorem header_prune (n : Node) : n.prune.header = n.header := by
  unfold prune
  split <;> rfl

theorem statements_prune (n : Node) : n.prune.statements = n.statements.filter isActive := by
  unfold prune statements
  cases phrase : n.phrase <;> simp [phrase]

theorem children_prune (n : Node) : n.prune.children.Sublist n.children := by
  unfold prune children
  cases phrase : n.phrase <;> simp [phrase, Phrase.children]

theorem pruned_eq (n : Node) : n.pruned = prune (mk n.header (n.phrase.map pruned)) :=
  mapNodes_eq _ n

theorem isActive_pruned (n : Node) : n.pruned.isActive = n.isActive := by
  have header : n.pruned.header = n.header := by rw [pruned_eq, header_prune, header_mk]
  exact congrArg (·.attributes.isActive) header

/-- The active statements of a chain stay, in their order, and all others go. -/
theorem statements_pruned (n : Node) :
    n.pruned.statements = (n.statements.filter isActive).map pruned := by
  have active : isActive ∘ pruned = isActive := funext isActive_pruned
  rw [pruned_eq, statements_prune, statements_mk_map, List.filter_map, active]

/-- No chain has an inactive statement left. -/
theorem isActive_of_mem_pruned {n m c : Node} (chain : m ∈ n.pruned.walk)
    (statement : c ∈ m.statements) : c.isActive = true := by
  obtain ⟨k, -, rfl⟩ := exists_of_mem_walk_mapNodes (fun n => n.children_prune.subset) chain
  change c ∈ k.pruned.statements at statement
  rw [statements_pruned] at statement
  obtain ⟨b, kept, rfl⟩ := List.mem_map.1 statement
  rw [isActive_pruned]
  exact (List.mem_filter.1 kept).2

theorem header_trim (n : Node) : n.trim.header = n.header := by
  unfold trim
  split <;> rfl

theorem kind_trim (n : Node) : n.trim.kind = n.kind := by
  unfold trim kind
  cases phrase : n.phrase <;> simp [phrase, Phrase.kind]

theorem nodes_trim (v : SlotValue Node) : v.trim.nodes.Sublist v.nodes := by
  cases v with
  | optionalStatement chain =>
    cases chain with
    | none => exact List.Sublist.refl _
    | some c => cases empty : c.isEmptyChain <;> simp [SlotValue.trim, SlotValue.nodes, empty]
  | _ => exact List.Sublist.refl _

theorem children_trim (n : Node) : n.trim.children.Sublist n.children := by
  have slots (l : List (SlotValue Node)) :
      ((l.map SlotValue.trim).flatMap SlotValue.nodes).Sublist (l.flatMap SlotValue.nodes) := by
    rw [List.flatMap_map]
    exact List.Sublist.flatMap_right _ fun v _ => nodes_trim v
  unfold trim children
  cases phrase : n.phrase with
  | ifElse conditions branches otherwise =>
    exact slots [.repeated conditions, .repeated branches, .optionalStatement otherwise]
  | extension spec values => exact slots values
  | _ => rw [phrase]

end Node

/-! ## Checks -/

namespace Checker

variable {platform : Platform}

theorem body_of_inactive {n : Node} (inactive : n.isActive = false) :
    body (checked platform n) = pure () := by
  unfold body checked
  rw [check_eq, inactive]
  rfl

theorem body_of_isEmptyChain {n : Node} (empty : n.isEmptyChain = true) :
    body (checked platform n) = pure () := by
  unfold Node.isEmptyChain at empty
  split at empty
  · next phrase =>
    unfold body checked
    rw [check_eq, phrase]
    split <;> rfl
  · cases empty

theorem forM_body_filter (l : List Node) :
    ((l.filter Node.isActive).map (checked platform)).forM body =
      (l.map (checked platform)).forM body := by
  induction l with
  | nil => rfl
  | cons n l ih =>
    rcases active : n.isActive with _ | _
    · rw [List.filter_cons_of_neg (by simp [active]), ih]
      change _ = body (checked platform n) >>= fun _ => _
      rw [body_of_inactive active, pure_bind]
    · rw [List.filter_cons_of_pos active]
      exact congrArg (body (checked platform n) >>= ·) (funext fun _ => ih)

theorem forM_body_trim (chain : Option Node) :
    ((chain.filter fun c => !c.isEmptyChain).map (checked platform)).forM body =
      (chain.map (checked platform)).forM body := by
  cases chain with
  | none => rfl
  | some c =>
    rcases empty : c.isEmptyChain with _ | _
    · rw [Option.filter_some_pos (by simp [empty])]
    · rw [Option.filter_some_neg (by simp [empty])]
      exact (body_of_isEmptyChain empty).symm

theorem forM_body_nodes_trim (v : SlotValue Node) :
    (v.trim.nodes.map (checked platform)).forM body =
      (v.nodes.map (checked platform)).forM body := by
  cases v with
  | optionalStatement chain =>
    have toList (o : Option Node) :
        (o.toList.map (checked platform)).forM body = (o.map (checked platform)).forM body := by
      cases o <;> rfl
    exact (toList _).trans ((forM_body_trim chain).trans (toList chain).symm)
  | _ => rfl

theorem discard_acceptChildren_trim (platform : Platform) (spec : ExtensionSpec)
    (slots : List (SlotValue Node)) :
    discard (Node.acceptChildren
        ((Phrase.extension spec (slots.map SlotValue.trim)).map (checked platform))) =
      discard (Node.acceptChildren ((Phrase.extension spec slots).map (checked platform))) := by
  rw [discard_acceptChildren, discard_acceptChildren, Phrase.children_map, Phrase.children_map]
  change (((slots.map SlotValue.trim).flatMap SlotValue.nodes).map (checked platform)).forM body =
    ((slots.flatMap SlotValue.nodes).map (checked platform)).forM body
  have split (l m : List Child) : (l ++ m).forM body = (do l.forM body; m.forM body) :=
    List.forM_append
  induction slots with
  | nil => rfl
  | cons v slots ih =>
    rw [List.map_cons, List.flatMap_cons, List.flatMap_cons, List.map_append, List.map_append,
      split, split, forM_body_nodes_trim, ih]

end Checker

open Checker

/-- No platform tells a chain from its active statements. -/
theorem Platform.overlooks_prune (platform : Platform) (looks : Looks) :
    platform.Overlooks looks Node.prune where
  header := Node.header_prune
  missing n := by
    unfold Node.prune
    cases phrase : n.phrase <;> simp [phrase, Phrase.isEmptyExpr]
  number _ n := by
    unfold Node.prune Node.number?
    cases phrase : n.phrase <;> simp [phrase]
  text _ n := by
    unfold Node.prune Node.text?
    cases phrase : n.phrase <;> simp [phrase]
  statements n := by rw [Node.statements_prune, List.filter_filter]; simp only [Bool.and_self]
  define n := by
    unfold Node.prune defineIfMethod
    cases phrase : n.phrase <;> simp [phrase]
  start n := by
    unfold Node.prune Node.kind
    cases phrase : n.phrase <;> simp [phrase, Phrase.kind]
  check n := by
    obtain ⟨h, p⟩ := n
    cases p with
    | stmtList statements =>
      change check platform (.mk h (.stmtList (statements.filter Node.isActive))) = _
      rw [check_eq, check_eq]
      simp only [Node.phrase_mk, Phrase.map, handler, forM_body_filter]
      rfl
    | _ => rfl

theorem Phrase.extensionLiteral?_trim (spec : ExtensionSpec) (slots : List (SlotValue Node))
    (internal : String) : extensionLiteral? spec (slots.map SlotValue.trim) internal =
      extensionLiteral? spec slots internal :=
  extensionLiteral?_of_literals (fun v text => by cases v <;> simp [SlotValue.trim]) spec slots
    internal

/-- The checks of the built-in platforms look at no chains. -/
theorem Platform.checkExtension_trim {robot : String} {platform : Platform}
    (known : PlatformRegistry.builtin.get robot = .ok platform) (h : Header) (spec : ExtensionSpec)
    (slots : List (SlotValue Node)) :
    platform.checkExtension (.mk h (.extension spec (slots.map SlotValue.trim))) spec
        (slots.map SlotValue.trim) =
      platform.checkExtension (.mk h (.extension spec slots)) spec slots := by
  obtain ⟨-, rfl | rfl | rfl⟩ := PlatformRegistry.get_builtin_cases known
  · rfl
  · change Boards.checkLight _ spec _ = Boards.checkLight _ spec _
    unfold Boards.checkLight
    rw [Phrase.extensionLiteral?_trim]
    rfl
  · rfl

/-- No built-in platform tells an empty chain from a missing one. -/
theorem Platform.overlooks_trim {robot : String} {platform : Platform}
    (known : PlatformRegistry.builtin.get robot = .ok platform) (looks : Looks) :
    platform.Overlooks looks Node.trim where
  header := Node.header_trim
  missing n := by
    unfold Node.trim
    cases phrase : n.phrase <;> simp [phrase, Phrase.isEmptyExpr]
  number _ n := by
    unfold Node.trim Node.number?
    cases phrase : n.phrase <;> simp [phrase]
  text _ n := by
    unfold Node.trim Node.text?
    cases phrase : n.phrase <;> simp [phrase]
  statements n := by
    unfold Node.trim Node.statements
    cases phrase : n.phrase <;> simp [phrase]
  define n := by
    unfold Node.trim defineIfMethod
    cases phrase : n.phrase <;> simp [phrase]
  start n := by rw [Node.kind_trim]
  check n := by
    obtain ⟨h, p⟩ := n
    cases p with
    | ifElse conditions branches otherwise =>
      change check platform (.mk h (.ifElse conditions branches _)) = _
      rw [check_eq, check_eq]
      simp only [Node.phrase_mk, Phrase.map, handler, forM_body_trim]
      rfl
    | extension spec slots =>
      change check platform (.mk h (.extension spec (slots.map SlotValue.trim))) = _
      have children := discard_acceptChildren_trim platform spec slots
      have nodes (l : List (SlotValue Node)) :
          (l.map (SlotValue.map (checked platform))).map (SlotValue.map (·.node)) = l :=
        (Phrase.extension.inj ((Phrase.extension spec l).map_map_cancel fun _ => rfl)).2
      rw [check_eq, check_eq]
      simp only [Node.phrase_mk, Phrase.map, handler] at children ⊢
      rw [children, nodes, nodes, checkExtension_trim known]
      rfl
    | _ => rfl

/-! ## Programs -/

namespace Program

/-- A disabled or detached statement is as good as deleted: a run says the same of a program that
was read and of the program without such statements, and of all programs that are like the latter
but for empty chains that may as well be missing. -/
theorem gist_validate_pruned {registry : KindRegistry} {d : Document} {p : Program}
    {s s' : Supply} (read : (ofDocument registry d).run s = (.ok p, s')) {robot : String}
    {platform : Platform} (known : PlatformRegistry.builtin.get robot = .ok platform)
    (config : HardwareConfig) :
    (platform.validate p.pruned config).gist = (platform.validate p config).gist ∧
      ∀ q : Program, q.ids.Nodup → q.trimmed.alike p.pruned.trimmed = true →
        (platform.validate q config).gist = (platform.validate p config).gist := by
  have sees := Platform.seesOnly_of_builtin known
  have prune := (platform.overlooks_prune (Boards.looks robot)).gist_validate_mapNodes sees
  have trim := (Platform.overlooks_trim known (Boards.looks robot)).gist_validate_mapNodes sees
  have kept (q : Program) (distinct : q.ids.Nodup) : q.trimmed.ids.Nodup :=
    distinct.sublist (q.ids_mapNodes_sublist (fun n => congrArg Header.id n.header_trim)
      Node.children_trim)
  have distinct : p.pruned.ids.Nodup :=
    (ids_of_ofDocument read).2.1.sublist
      (p.ids_mapNodes_sublist (fun n => congrArg Header.id n.header_prune) Node.children_prune)
  refine ⟨prune p config, fun q distinct' same => ?_⟩
  calc (platform.validate q config).gist
    _ = (platform.validate q.trimmed config).gist := (trim q config).symm
    _ = (platform.validate p.pruned.trimmed config).gist :=
      Platform.gist_validate_of_plain sees (alike_iff.1 same) (kept q distinct')
        (kept p.pruned distinct) config
    _ = (platform.validate p.pruned config).gist := trim p.pruned config
    _ = (platform.validate p config).gist := prune p config

end Program

/-- A program with a disabled declaration that would repeat another, a branch in which the only
statement is detached, a disabled statement that uses no declared variable, and a disabled method
of the same name as another. -/
def cluttered : Document :=
  let number (id text : String) : Block :=
    .mk { id, type := "math_number", fields := [⟨"NUM", text⟩] }
  let pause (id : String) (attributes : Attributes) (duration : Block) : Block :=
    .mk { id, type := "robControls_wait_time", attributes, values := [⟨"WAIT", duration⟩] }
  let declare (id : String) (attributes : Attributes) (value : Block) : Block :=
    .mk { id, type := "robGlobalVariables_declare", attributes
          fields := [⟨"VAR", "x"⟩, ⟨"TYPE", "Number"⟩], values := [⟨"VALUE", value⟩] }
  let method (id : String) (attributes : Attributes) : Block :=
    .mk { id, type := "robProcedures_defnoreturn", attributes, fields := [⟨"NAME", "m"⟩] }
  { formatVersion := "3.1"
    instances := [
      { blocks := [
        .mk { id := "a", type := "robControls_start", fields := [⟨"DEBUG", "FALSE"⟩]
              statements := [⟨"ST", [declare "b" {} (number "c" "1"),
                declare "d" { disabled := true } (number "e" "2")]⟩] },
        .mk { id := "f", type := "controls_if", attributes.mutation := .ofList [("else", "1")]
              values := [⟨"IF0", .mk {
                id := "g", type := "logic_boolean", fields := [⟨"BOOL", "TRUE"⟩] }⟩]
              statements := [⟨"DO0", [pause "h" {} (number "i" "3")]⟩,
                ⟨"ELSE", [pause "j" { inTask := some false } (number "k" "4")]⟩] },
        pause "l" { disabled := true }
          (.mk { id := "m", type := "variables_get", fields := [⟨"VAR", "y"⟩] })] },
      { blocks := [method "n" { disabled := true }, method "o" {}] }] }

/-- Neither the clutter nor the empty branch that it leaves behind makes a difference. -/
theorem Program.gist_validate_cluttered :
    ∃ p s', (ofDocument .core cluttered).run {} = (.ok p, s') ∧
      p.pruned.nodeCount < p.nodeCount ∧ p.pruned.trimmed.nodeCount < p.pruned.nodeCount ∧
      PlatformRegistry.builtin.get "ev3" = .ok Boards.ev3 ∧
      (Boards.ev3.validate p.pruned { robot := "ev3" }).gist =
        (Boards.ev3.validate p { robot := "ev3" }).gist ∧
      (Boards.ev3.validate p.pruned.trimmed { robot := "ev3" }).gist =
        (Boards.ev3.validate p { robot := "ev3" }).gist := by
  have computed : ((ofDocument .core cluttered).run {}).1.toOption.any (fun p =>
      decide (p.pruned.nodeCount < p.nodeCount) &&
        decide (p.pruned.trimmed.nodeCount < p.pruned.nodeCount) &&
          decide p.pruned.trimmed.ids.Nodup &&
            p.pruned.trimmed.trimmed.alike p.pruned.trimmed) = true := by
    decide +kernel
  obtain ⟨p, s', read, computed⟩ := Except.exists_eq_ok_of_any_fst computed
  simp only [Bool.and_eq_true, decide_eq_true_eq, and_assoc] at computed
  obtain ⟨fewer, fewer', distinct, same⟩ := computed
  have known : PlatformRegistry.builtin.get "ev3" = .ok Boards.ev3 := rfl
  obtain ⟨pruned, like⟩ := gist_validate_pruned read known { robot := "ev3" }
  exact ⟨p, s', read, fewer, fewer', known, pruned, like p.pruned.trimmed distinct same⟩

end BlockGraph

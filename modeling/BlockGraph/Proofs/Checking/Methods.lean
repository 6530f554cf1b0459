import BlockGraph.Proofs.Checking.Canvas
import BlockGraph.Proofs.Checking.Hardware
import Mathlib.Data.List.Flatten

/-!
# Methods

A run defines the methods that are statements on the canvas, before it looks at any call. A method
that is inside another statement is checked like its chain: its name is not looked at, and calls do
not find it.

* `Facts.ListsMethods`: the methods among some nodes have different names, and these are known.
* `Checker.forM_defineIfMethod_clean`: what it takes to define methods without an error.
* `Program.methods_of_validate`: a run without errors knows the methods on the canvas, and all
  methods exactly if they are on the canvas.
-/

namespace BlockGraph

/-- Whether the methods among the nodes have names, all different, and the facts list exactly these
names. -/
structure Facts.ListsMethods (facts : Facts) (nodes : List Node) : Prop where
  distinct : (nodes.filterMap Node.methodName?).Nodup
  valid : ∀ name ∈ nodes.filterMap Node.methodName?, isIdentifier name = true
  noted : ∀ name, name ∈ facts.facts Feature.methodNames ↔ name ∈ nodes.filterMap Node.methodName?

theorem Node.methodName?_eq_some_iff {n : Node} {name : String} :
    n.methodName? = some name ↔ ∃ body, n.phrase = .methodDef name body := by
  unfold methodName?
  cases n.phrase <;> simp

theorem Node.isSome_methodName?_iff {n : Node} : n.methodName?.isSome ↔ n.kind = .methodDef := by
  unfold methodName? kind
  cases n.phrase <;> simp [Phrase.kind]

namespace Checker

variable {platform : Platform} {n : Node} {s : CheckState}

/-! ## Defining methods -/

theorem not_clean_error {code : DiagnosticCode} {message : String} :
    ((error n code message).run s).2.collector.store.hasErrors ≠ false := by
  intro clean
  have last := DiagnosticStore.hasErrors_eq_false_iff.1 clean
    { severity := .error, code, message, location := some n.location }
  refine last ?_ rfl
  change _ ∈ (s.collector.store.push n { severity := .error, code, message }).toList
  rw [DiagnosticStore.toList_push]
  exact List.mem_append_right _ List.mem_cons_self

theorem checkName_clean {name what : String}
    (clean : ((checkName n name what).run s).2.collector.store.hasErrors = false) :
    isIdentifier name = true ∧ ((checkName n name what).run s).2 = s := by
  unfold checkName at clean ⊢
  split at clean
  · next valid =>
    rw [if_pos valid]
    exact ⟨valid, rfl⟩
  · exact absurd clean not_clean_error

/-- A method is defined without an error if its name is one and is new. -/
theorem define_clean {name : String}
    (clean : ((define n name).run s).2.collector.store.hasErrors = false) :
    s.collector.store.hasErrors = false ∧ isIdentifier name = true ∧
      s.methods.contains name = false ∧ ((define n name).run s).2.methods = s.methods.add name := by
  let t := ((checkName n name "method").run s).2
  have parts : ((define n name).run s).2 =
      if t.methods.contains name then
        ((error n .duplicateMethod ("method '" ++ name ++ "' is defined more than once")).run t).2
      else { t with
        methods := t.methods.add name
        collector := { t.collector with
          facts := t.collector.facts.record Feature.methodNames name } } := by
    change ((if t.methods.contains name = true then _ else _ : Check Unit).run t).2 = _
    split <;> rfl
  rw [parts] at clean ⊢
  split at clean
  · exact absurd clean not_clean_error
  · next fresh =>
    have named : t.collector.store.hasErrors = false := clean
    obtain ⟨valid, same⟩ := checkName_clean named
    rw [if_neg fresh, show t = s from same]
    rw [show t = s from same] at clean fresh
    exact ⟨clean, valid, by simpa using fresh, rfl⟩

/-- Methods are defined without an error if their names are different and new. -/
theorem forM_defineIfMethod_clean {l : List Node}
    (clean : ((l.forM defineIfMethod).run s).2.collector.store.hasErrors = false) :
    s.collector.store.hasErrors = false ∧ (l.filterMap Node.methodName?).Nodup ∧
      ∀ name ∈ l.filterMap Node.methodName?,
        isIdentifier name = true ∧ s.methods.contains name = false := by
  induction l generalizing s with
  | nil => exact ⟨clean, .nil, by simp⟩
  | cons n l ih =>
    obtain ⟨first, distinct, others⟩ := ih (s := ((defineIfMethod n).run s).2) clean
    cases phrase : n.phrase with
    | methodDef name body =>
      have named : n.methodName? = some name := Node.methodName?_eq_some_iff.2 ⟨body, phrase⟩
      have step : defineIfMethod n = define n name := by unfold defineIfMethod; rw [phrase]
      rw [step] at first others
      obtain ⟨before, valid, fresh, methods⟩ := define_clean first
      rw [methods] at others
      -- the later names are new even after this one is added
      have later : ∀ other ∈ l.filterMap Node.methodName?,
          other ≠ name ∧ s.methods.contains other = false := fun other mem => by
        have absent := (others other mem).2
        rw [SortedMap.contains, SortedSet.add, SortedMap.get?_insert] at absent
        split at absent
        · cases absent
        · next differ => exact ⟨differ, absent⟩
      rw [List.filterMap_cons_some named, List.nodup_cons, List.forall_mem_cons]
      refine ⟨before, ⟨fun mem => (later name mem).1 rfl, distinct⟩, ⟨valid, fresh⟩, ?_⟩
      exact fun other mem => ⟨(others other mem).1, (later other mem).2⟩
    | _ =>
      have unnamed : n.methodName? = none := by rw [Node.methodName?, phrase]
      have step : defineIfMethod n = pure () := by unfold defineIfMethod; rw [phrase]
      rw [step] at first others
      rw [List.filterMap_cons_none unnamed]
      exact ⟨first, distinct, others⟩

/-! ## Methods on the canvas -/

theorem filter_isActive_sublist (l : List Node) :
    (l.filter Node.isActive).Sublist (l.flatMap Node.reached) := by
  induction l with
  | nil => exact .slnil
  | cons c l ih =>
    rw [List.filter_cons, List.flatMap_cons, Node.reached_eq]
    split
    · exact (ih.trans (List.sublist_append_right _ _)).cons_cons c
    · exact ih

/-- A pass over the chains comes to the statements on the canvas, in their order. -/
theorem topLevel_sublist {program : Program}
    (chains : ∀ i ∈ program.instances, i.body.isActive = true ∧
      ∃ statements, i.body.phrase = .stmtList statements) :
    (topLevel program).Sublist program.reached := by
  rw [topLevel, List.filter_flatMap]
  refine List.Sublist.flatMap_right _ fun i hi => ?_
  obtain ⟨active, statements, chain⟩ := chains i hi
  rw [Node.reached_eq, if_pos active, Instance.statements, Node.statements, Node.children, chain]
  exact (filter_isActive_sublist statements).cons _

end Checker

theorem Node.reached_sublist (n : Node) : n.reached.Sublist n.walk := by
  induction n using Node.induction with
  | step n ih =>
    rw [reached_eq, walk_eq]
    split
    · exact (List.Sublist.flatMap_right _ ih).cons_cons n
    · exact List.nil_sublist _

theorem Program.reached_sublist (p : Program) : p.reached.Sublist p.walk :=
  List.Sublist.flatMap_right _ fun i _ => i.body.reached_sublist

/-- Only methods have names of methods. -/
theorem filterMap_methodName? (l : List Node) :
    (l.filter (·.kind = .methodDef)).filterMap Node.methodName? = l.filterMap Node.methodName? := by
  rw [List.filterMap_filter]
  refine List.filterMap_congr fun n _ => ?_
  unfold Node.methodName? Node.kind
  cases n.phrase <;> rfl

/-- The facts list the methods among more nodes exactly if there are no other methods among
these. -/
theorem Facts.ListsMethods.iff_of_sublist {facts : Facts} {nodes more : List Node}
    (h : facts.ListsMethods nodes) (part : nodes.Sublist more) (distinct : more.Nodup) :
    facts.ListsMethods more ↔ ∀ n ∈ more, n.kind = .methodDef → n ∈ nodes := by
  constructor
  · intro all n hn method
    obtain ⟨name, named⟩ := Option.isSome_iff_exists.1 (Node.isSome_methodName?_iff.2 method)
    have known := (all.noted name).2 (List.mem_filterMap.2 ⟨n, hn, named⟩)
    obtain ⟨m, hm, same⟩ := List.mem_filterMap.1 ((h.noted name).1 known)
    by_contra other
    have apart : m ≠ n := fun e => other (e ▸ hm)
    have names := List.pairwise_filterMap.1 all.distinct
    have : Std.Symm fun a b : Node => ∀ x, a.methodName? = some x →
        ∀ y, b.methodName? = some y → x ≠ y := ⟨fun a b h x hx y hy => (h y hy x hx).symm⟩
    exact names.forall (part.subset hm) hn apart name same name named rfl
  · intro all
    have methods : (more.filter (·.kind = .methodDef)).Perm (nodes.filter (·.kind = .methodDef)) := by
      refine (List.perm_ext_iff_of_nodup (distinct.filter _) ((distinct.sublist part).filter _)).2
        fun n => ?_
      simp only [List.mem_filter, decide_eq_true_eq]
      exact ⟨fun h => ⟨all n h.1 h.2, h.2⟩, fun h => ⟨part.subset h.1, h.2⟩⟩
    have names := methods.filterMap Node.methodName?
    rw [filterMap_methodName?, filterMap_methodName?] at names
    exact ⟨names.nodup_iff.2 h.distinct, fun name mem => h.valid name (names.mem_iff.1 mem),
      fun name => (h.noted name).trans names.mem_iff.symm⟩

/-- A run without errors knows exactly the methods on the canvas, and their names are different. It
knows all methods that a pass reaches exactly if they are on the canvas. A call that is examined
finds its method; only inside start blocks that are no statements on the canvas are there calls
which are not examined. -/
theorem Program.methods_of_validate {registry : KindRegistry} {d : Document} {program : Program}
    {s s' : Supply} (read : (ofDocument registry d).run s = (.ok program, s'))
    {config : HardwareConfig} {platform : Platform}
    (known : PlatformRegistry.builtin.get config.robot = .ok platform)
    {outcome : ValidationOutcome} (valid : validate program config = .ok outcome)
    (clean : outcome.hasErrors = false) :
    outcome.facts.ListsMethods (Checker.topLevel program) ∧
      (outcome.facts.ListsMethods program.reached ↔
        ∀ n ∈ program.reached, n.kind = .methodDef → n ∈ Checker.topLevel program) ∧
      ∀ n ∈ program.reached, ∀ name, n.phrase = .methodCall name →
        (n ∈ Checker.examined program → name ∈ outcome.facts.facts Feature.methodNames) ∧
        (n ∈ Checker.examined program ∨ ∃ m ∈ program.reached,
          m.kind = .mainTask ∧ m ∉ Checker.topLevel program ∧ n ∈ m.reached) := by
  obtain rfl : outcome = platform.validate program config := by
    rw [validate, PlatformRegistry.validate, known] at valid
    exact (Except.ok.inj valid).symm
  have orderly := Boards.orderly_of_builtin known fun _ => True
  have admits : ∀ n ∈ program.walk,
      Frame.Admits ⟨platform.board, Boards.displayFact platform, fun _ => True⟩ n := fun n hn =>
    ⟨(regular_of_ofDocument read n hn).paired, fun _ => trivial, fun _ _ _ => trivial⟩
  have gains := Checker.gains_run orderly admits { config }
  have chains := chain_of_ofDocument read
  have canvas := Checker.topLevel_sublist chains
  have lists : (platform.validate program config).facts.ListsMethods
      (Checker.topLevel program) := by
    have defined := Checker.findings_methods_subset orderly admits { config }
    obtain ⟨-, different, names⟩ := Checker.forM_defineIfMethod_clean
      (DiagnosticStore.hasErrors_eq_false_iff.2 fun d hd =>
        DiagnosticStore.hasErrors_eq_false_iff.1 clean d (defined hd))
    refine ⟨different, fun name mem => (names name mem).1, fun name => ?_⟩
    rw [(accounts_of_ofDocument read known config).methods, List.mem_filterMap]
    simp only [Node.methodName?_eq_some_iff]
  have distinct : program.reached.Nodup :=
    (ids_of_ofDocument read).2.1.of_map.sublist program.reached_sublist
  refine ⟨lists, lists.iff_of_sublist canvas distinct, fun n hn name call => ⟨fun examined => ?_,
    mem_examined_or hn⟩⟩
  have does := Checker.does_of_clean gains clean examined
  exact ((gains.answered n does).called name (by rw [call]; rfl)).resolve_right
    (Checker.not_blames_of_clean clean n)

/-- A method with another one of the same name inside, and a start block that calls a method which
there is not. -/
def echo : Document where
  formatVersion := "3.1"
  instances := [{ blocks := [.mk {
    id := "a", type := "robProcedures_defnoreturn", fields := [⟨"NAME", "outer"⟩]
    statements := [⟨"STACK", [
      .mk { id := "b", type := "robProcedures_defnoreturn", fields := [⟨"NAME", "outer"⟩] },
      .mk {
        id := "c", type := "robControls_start", fields := [⟨"DEBUG", "FALSE"⟩]
        statements := [⟨"ST", [.mk {
          id := "d", type := "robProcedures_callnoreturn",
          fields := [⟨"NAME", "ghost"⟩] }]⟩] }]⟩] }] }]

theorem exists_validate_echo :
    ∃ p s' outcome, (Program.ofDocument .core echo).run {} = (.ok p, s') ∧
      validate p { robot := "ev3" } = .ok outcome ∧ outcome.hasErrors = false ∧
        ¬ (p.reached.filterMap Node.methodName?).Nodup ∧
          ∃ n ∈ p.reached, n.phrase.called? = some "ghost" ∧
            "ghost" ∉ outcome.facts.facts Feature.methodNames := by
  have computed : ((Program.ofDocument .core echo).run {}).1.toOption.any (fun p =>
      (validate p { robot := "ev3" }).toOption.any fun outcome => !outcome.hasErrors &&
        !decide (p.reached.filterMap Node.methodName?).Nodup &&
          p.reached.any fun n => n.phrase.called? = some "ghost" &&
            !decide ("ghost" ∈ outcome.facts.facts Feature.methodNames)) = true := by
    decide +kernel
  obtain ⟨p, s', read, computed⟩ := Except.exists_eq_ok_of_any_fst computed
  obtain ⟨outcome, valid, computed⟩ := Except.exists_eq_ok_of_any computed
  simp only [Bool.and_eq_true, Bool.not_eq_true', List.any_eq_true, decide_eq_true_eq,
    decide_eq_false_iff_not] at computed
  exact ⟨p, s', outcome, read, valid, computed.1.1, computed.1.2, computed.2⟩

theorem Program.methods_echo :
    ∃ p s' outcome, (ofDocument .core echo).run {} = (.ok p, s') ∧
      validate p { robot := "ev3" } = .ok outcome ∧
        outcome.facts.ListsMethods (Checker.topLevel p) ∧
          (outcome.facts.ListsMethods p.reached ↔
            ∀ n ∈ p.reached, n.kind = .methodDef → n ∈ Checker.topLevel p) ∧
          ∀ n ∈ p.reached, ∀ name, n.phrase = .methodCall name →
            (n ∈ Checker.examined p → name ∈ outcome.facts.facts Feature.methodNames) ∧
            (n ∈ Checker.examined p ∨ ∃ m ∈ p.reached,
              m.kind = .mainTask ∧ m ∉ Checker.topLevel p ∧ n ∈ m.reached) := by
  obtain ⟨p, s', outcome, read, valid, clean, -⟩ := exists_validate_echo
  have known : PlatformRegistry.builtin.get ({ robot := "ev3" } : HardwareConfig).robot =
    .ok Boards.ev3 := rfl
  exact ⟨p, s', outcome, read, valid, methods_of_validate read known valid clean⟩

/-- A run without errors can leave two methods of one name and a call of no method. -/
theorem Program.unlisted_echo :
    ∃ platform p s' outcome, PlatformRegistry.builtin.get "ev3" = .ok platform ∧
      (ofDocument .core echo).run {} = (.ok p, s') ∧
      validate p { robot := "ev3" } = .ok outcome ∧ outcome.hasErrors = false ∧
        ¬ outcome.facts.ListsMethods p.reached ∧
          ∃ n ∈ p.reached, n.phrase = .methodCall "ghost" ∧
            "ghost" ∉ outcome.facts.facts Feature.methodNames := by
  obtain ⟨p, s', outcome, read, valid, clean, repeated, n, hn, called, unknown⟩ :=
    exists_validate_echo
  refine ⟨Boards.ev3, p, s', outcome, rfl, read, valid, clean,
    fun lists => repeated lists.distinct, n, hn, ?_, unknown⟩
  unfold Phrase.called? at called
  split at called
  · next name phrase =>
    cases called
    exact phrase
  · cases called

end BlockGraph

import BlockGraph.Node.Constant
import BlockGraph.Node.Life
import BlockGraph.Program
import Mathlib.Data.List.Nodup

/-!
# The content of nodes

Two readings of a document give programs that differ in the headers of their nodes only.
`Node.mapHeaders` changes the headers in a whole tree; `Node.bare` so removes what makes out the
identity of a node and of all nodes below it.

* `Phrase.ext_children`: a phrase is determined by its shape and its children.
* `Phrase.exists_zip`: phrases of one shape can be gone through side by side.
* `Node.mapHeaders_mapHeaders`: one change of the headers after another.
* `Node.alike_iff`: nodes are alike if the same remains of them without their findings.
-/

namespace BlockGraph

namespace Phrase

variable {α : Type}

theorem ext_slots {v w : List (SlotValue α)}
    (shape : v.map (SlotValue.map fun _ => ()) = w.map (SlotValue.map fun _ => ()))
    (nodes : v.flatMap SlotValue.nodes = w.flatMap SlotValue.nodes) : v = w := by
  induction v generalizing w with
  | nil => simpa using shape.symm
  | cons a v ih =>
    obtain ⟨b, w, rfl⟩ := List.exists_cons_of_ne_nil (l := w) (by rintro rfl; simp at shape)
    simp only [List.map_cons, List.cons.injEq, List.flatMap_cons] at shape nodes
    have length : a.nodes.length = b.nodes.length := by
      simpa using congrArg (fun s => s.nodes.length) shape.1
    obtain ⟨first, others⟩ := List.append_inj nodes length
    rw [ih shape.2 others]
    suffices a = b by rw [this]
    cases a <;> cases b <;> simp_all [SlotValue.map, SlotValue.nodes]
    case optionalStatement.optionalStatement m n => cases m <;> cases n <;> simp_all

/-- A phrase is determined by its shape and its children. -/
theorem ext_children {p q : Phrase α} (shape : p.map (fun _ => ()) = q.map fun _ => ())
    (children : p.children = q.children) : p = q := by
  have kind : p.kind = q.kind := by simpa using congrArg Phrase.kind shape
  have slots :
      p.slots.map (SlotValue.map fun _ => ()) = q.slots.map (SlotValue.map fun _ => ()) := by
    simpa using congrArg Phrase.slots shape
  cases p <;> cases q <;> cases kind
  case stmtList => exact congrArg stmtList children
  all_goals
    have := ext_slots slots children
    simp_all [Phrase.slots, Phrase.map]

theorem map_congr_children {β : Type} {f g : α → β} {p : Phrase α}
    (h : ∀ c ∈ p.children, f c = g c) : p.map f = p.map g := by
  refine ext_children (by rw [map_map, map_map]; rfl) ?_
  rw [children_map, children_map]
  exact List.map_congr_left h

theorem map_eq_self_iff {f : α → α} {p : Phrase α} :
    p.map f = p ↔ ∀ c ∈ p.children, f c = c := by
  constructor
  · intro same
    have children := congrArg Phrase.children same
    rw [children_map] at children
    exact List.map_inj_left.1 (children.trans (List.map_id' _).symm)
  · intro h
    exact (map_congr_children h).trans p.map_id

theorem exists_of_map_eq_stmtList {β : Type} {f : α → β} {p : Phrase α} {bs : List β}
    (h : p.map f = .stmtList bs) : ∃ cs, p = .stmtList cs ∧ cs.map f = bs := by
  cases p <;> cases h
  exact ⟨_, rfl, rfl⟩

section Zip

variable {β : Type}

theorem exists_zip_list {l : List α} {m : List β}
    (shape : l.map (fun _ => ()) = m.map fun _ => ()) :
    ∃ r : List (α × β), r.map Prod.fst = l ∧ r.map Prod.snd = m := by
  have length : l.length = m.length := by simpa using congrArg List.length shape
  exact ⟨l.zip m, List.map_fst_zip (Nat.le_of_eq length),
    List.map_snd_zip (Nat.le_of_eq length.symm)⟩

theorem exists_zip_option {n : Option α} {m : Option β}
    (shape : n.map (fun _ => ()) = m.map fun _ => ()) :
    ∃ r : Option (α × β), r.map Prod.fst = n ∧ r.map Prod.snd = m := by
  cases n <;> cases m <;> cases shape
  · exact ⟨none, rfl, rfl⟩
  · exact ⟨some (_, _), rfl, rfl⟩

theorem exists_zip_slot {v : SlotValue α} {w : SlotValue β}
    (shape : v.map (fun _ => ()) = w.map fun _ => ()) :
    ∃ r : SlotValue (α × β), r.map Prod.fst = v ∧ r.map Prod.snd = w := by
  cases v <;> cases w <;> simp only [SlotValue.map, reduceCtorEq, SlotValue.literal.injEq,
    SlotValue.optionalStatement.injEq, SlotValue.repeated.injEq] at shape
  case literal.literal text _ => exact ⟨.literal text, rfl, congrArg _ shape⟩
  case value.value n m => exact ⟨.value (n, m), rfl, rfl⟩
  case statement.statement n m => exact ⟨.statement (n, m), rfl, rfl⟩
  case optionalStatement.optionalStatement =>
    obtain ⟨r, rfl, rfl⟩ := exists_zip_option shape
    exact ⟨.optionalStatement r, rfl, rfl⟩
  case repeated.repeated =>
    obtain ⟨r, rfl, rfl⟩ := exists_zip_list shape
    exact ⟨.repeated r, rfl, rfl⟩

theorem exists_zip_slots {v : List (SlotValue α)} {w : List (SlotValue β)}
    (shape : v.map (SlotValue.map fun _ => ()) = w.map (SlotValue.map fun _ => ())) :
    ∃ r : List (SlotValue (α × β)),
      r.map (SlotValue.map Prod.fst) = v ∧ r.map (SlotValue.map Prod.snd) = w := by
  induction v generalizing w with
  | nil => exact ⟨[], rfl, (List.map_eq_nil_iff.1 shape.symm).symm⟩
  | cons a v ih =>
    cases w with
    | nil => cases shape
    | cons b w =>
      rw [List.map_cons, List.map_cons, List.cons.injEq] at shape
      obtain ⟨first, rfl, rfl⟩ := exists_zip_slot shape.1
      obtain ⟨others, rfl, rfl⟩ := ih shape.2
      exact ⟨first :: others, rfl, rfl⟩

/-- Phrases of one shape are the two sides of a phrase of pairs. -/
theorem exists_zip {p : Phrase α} {q : Phrase β}
    (shape : p.map (fun _ => ()) = q.map fun _ => ()) :
    ∃ r : Phrase (α × β), r.map Prod.fst = p ∧ r.map Prod.snd = q := by
  cases p with
  | stmtList statements =>
    cases q <;> simp only [Phrase.map, reduceCtorEq, stmtList.injEq] at shape
    obtain ⟨r, rfl, rfl⟩ := exists_zip_list shape
    exact ⟨.stmtList r, rfl, rfl⟩
  | ifElse conditions branches otherwise =>
    cases q <;> simp only [Phrase.map, reduceCtorEq, ifElse.injEq] at shape
    obtain ⟨c, rfl, rfl⟩ := exists_zip_list shape.1
    obtain ⟨b, rfl, rfl⟩ := exists_zip_list shape.2.1
    obtain ⟨o, rfl, rfl⟩ := exists_zip_option shape.2.2
    exact ⟨.ifElse c b o, rfl, rfl⟩
  | extension spec slots =>
    cases q <;> simp only [Phrase.map, reduceCtorEq, extension.injEq] at shape
    obtain ⟨rfl, shape⟩ := shape
    obtain ⟨r, rfl, rfl⟩ := exists_zip_slots shape
    exact ⟨.extension spec r, rfl, rfl⟩
  | mainTask debug n =>
    cases q <;> cases shape
    next m => exact ⟨.mainTask debug (n, m), rfl, rfl⟩
  | varDeclaration name type n =>
    cases q <;> cases shape
    next m => exact ⟨.varDeclaration name type (n, m), rfl, rfl⟩
  | assign name n =>
    cases q <;> cases shape
    next m => exact ⟨.assign name (n, m), rfl, rfl⟩
  | waitTime n =>
    cases q <;> cases shape
    next m => exact ⟨.waitTime (n, m), rfl, rfl⟩
  | methodDef name n =>
    cases q <;> cases shape
    next m => exact ⟨.methodDef name (n, m), rfl, rfl⟩
  | negate n =>
    cases q <;> cases shape
    next m => exact ⟨.negate (n, m), rfl, rfl⟩
  | motorSetPower port n =>
    cases q <;> cases shape
    next m => exact ⟨.motorSetPower port (n, m), rfl, rfl⟩
  | showText n =>
    cases q <;> cases shape
    next m => exact ⟨.showText (n, m), rfl, rfl⟩
  | repeatTimes n₁ n₂ =>
    cases q <;> cases shape
    next m₁ m₂ => exact ⟨.repeatTimes (n₁, m₁) (n₂, m₂), rfl, rfl⟩
  | whileUntil mode n₁ n₂ =>
    cases q <;> cases shape
    next m₁ m₂ => exact ⟨.whileUntil mode (n₁, m₁) (n₂, m₂), rfl, rfl⟩
  | arithmetic op n₁ n₂ =>
    cases q <;> cases shape
    next m₁ m₂ => exact ⟨.arithmetic op (n₁, m₁) (n₂, m₂), rfl, rfl⟩
  | compare op n₁ n₂ =>
    cases q <;> cases shape
    next m₁ m₂ => exact ⟨.compare op (n₁, m₁) (n₂, m₂), rfl, rfl⟩
  | logic op n₁ n₂ =>
    cases q <;> cases shape
    next m₁ m₂ => exact ⟨.logic op (n₁, m₁) (n₂, m₂), rfl, rfl⟩
  | playTone n₁ n₂ =>
    cases q <;> cases shape
    next m₁ m₂ => exact ⟨.playTone (n₁, m₁) (n₂, m₂), rfl, rfl⟩
  | forLoop var n₁ n₂ n₃ n₄ =>
    cases q <;> cases shape
    next m₁ m₂ m₃ m₄ => exact ⟨.forLoop var (n₁, m₁) (n₂, m₂) (n₃, m₃) (n₄, m₄), rfl, rfl⟩
  | flowControl flow =>
    cases q <;> cases shape
    exact ⟨.flowControl flow, rfl, rfl⟩
  | methodCall name =>
    cases q <;> cases shape
    exact ⟨.methodCall name, rfl, rfl⟩
  | numConst text =>
    cases q <;> cases shape
    exact ⟨.numConst text, rfl, rfl⟩
  | boolConst value =>
    cases q <;> cases shape
    exact ⟨.boolConst value, rfl, rfl⟩
  | stringConst text =>
    cases q <;> cases shape
    exact ⟨.stringConst text, rfl, rfl⟩
  | varRef name =>
    cases q <;> cases shape
    exact ⟨.varRef name, rfl, rfl⟩
  | emptyExpr =>
    cases q <;> cases shape
    exact ⟨.emptyExpr, rfl, rfl⟩
  | motorStop port =>
    cases q <;> cases shape
    exact ⟨.motorStop port, rfl, rfl⟩
  | sensorSample sensor port =>
    cases q <;> cases shape
    exact ⟨.sensorSample sensor port, rfl, rfl⟩

/-- Phrases with one image can be gone through side by side. -/
theorem exists_zip_of_map_eq {γ : Type} {f : α → γ} {g : β → γ} {p : Phrase α} {q : Phrase β}
    (same : p.map f = q.map g) : ∃ r : Phrase (α × β), r.map Prod.fst = p ∧ r.map Prod.snd = q ∧
      ∀ c ∈ r.children, f c.1 = g c.2 := by
  have shape := congrArg (Phrase.map fun _ => ()) same
  rw [map_map, map_map] at shape
  obtain ⟨r, rfl, rfl⟩ := exists_zip shape
  refine ⟨r, rfl, rfl, ?_⟩
  have inside := congrArg Phrase.children same
  rw [map_map, map_map, children_map, children_map] at inside
  exact List.map_inj_left.1 inside

end Zip

end Phrase

namespace Node

theorem mapNodes_eq (f : Node → Node) (n : Node) :
    n.mapNodes f = f (mk n.header (n.phrase.map (mapNodes f))) := by
  rw [mapNodes, recurse_eq, Phrase.map_map]
  rfl

theorem statements_mk_map (n : Node) (f : Node → Node) :
    (mk n.header (n.phrase.map f)).statements = n.statements.map f := by
  unfold statements
  rw [phrase_mk]
  cases n.phrase <;> rfl

theorem mem_walk_self (n : Node) : n ∈ n.walk := by
  rw [walk_eq]
  exact List.mem_cons_self

/-- What is below a node is below everything above it. -/
theorem walk_subset {m n : Node} (h : m ∈ n.walk) : m.walk ⊆ n.walk := by
  induction n using Node.induction with
  | step n ih =>
    intro k hk
    rw [walk_eq] at h ⊢
    rcases List.mem_cons.1 h with rfl | h
    · rwa [← walk_eq]
    · obtain ⟨c, hc, h⟩ := List.mem_flatMap.1 h
      exact List.mem_cons_of_mem _ (List.mem_flatMap.2 ⟨c, hc, ih c hc h hk⟩)

/-- The nodes of a changed tree come from nodes of the tree, if no change makes up children. -/
theorem exists_of_mem_walk_mapNodes {f : Node → Node} {m n : Node}
    (below : ∀ n, (f n).children ⊆ n.children) (mem : m ∈ (n.mapNodes f).walk) :
    ∃ k ∈ n.walk, k.mapNodes f = m := by
  induction n using Node.induction with
  | step n ih =>
    rw [walk_eq, List.mem_cons, List.mem_flatMap] at mem
    rcases mem with rfl | ⟨c, hc, mem⟩
    · exact ⟨n, n.mem_walk_self, rfl⟩
    · rw [mapNodes_eq] at hc
      have hc := below _ hc
      rw [children, phrase_mk, Phrase.children_map] at hc
      obtain ⟨b, hb, rfl⟩ := List.mem_map.1 hc
      obtain ⟨k, hk, same⟩ := ih b hb mem
      rw [walk_eq]
      exact ⟨k, List.mem_cons_of_mem _ (List.mem_flatMap.2 ⟨b, hb, hk⟩), same⟩

/-! ## Headers -/

/-- The subtree with `g` applied to every header. -/
def mapHeaders (g : Header → Header) : Node → Node := mapNodes fun n => mk (g n.header) n.phrase

section MapHeaders

variable (g : Header → Header) (n : Node)

theorem mapHeaders_mk (h : Header) (p : Phrase Node) :
    (mk h p).mapHeaders g = mk (g h) (p.map (mapHeaders g)) := mapNodes_eq _ _

theorem mapHeaders_eq : n.mapHeaders g = mk (g n.header) (n.phrase.map (mapHeaders g)) :=
  mapNodes_eq _ _

@[simp] theorem phrase_mapHeaders : (n.mapHeaders g).phrase = n.phrase.map (mapHeaders g) := by
  rw [mapHeaders_eq, phrase_mk]

@[simp] theorem header_mapHeaders : (n.mapHeaders g).header = g n.header := by
  rw [mapHeaders_eq, header_mk]

@[simp] theorem kind_mapHeaders : (n.mapHeaders g).kind = n.kind := by simp [kind]

@[simp] theorem children_mapHeaders :
    (n.mapHeaders g).children = n.children.map (mapHeaders g) := by
  simp [children]

@[simp] theorem statements_mapHeaders :
    (n.mapHeaders g).statements = n.statements.map (mapHeaders g) := by
  unfold statements
  rw [phrase_mapHeaders]
  cases n.phrase <;> rfl

@[simp] theorem walk_mapHeaders : (n.mapHeaders g).walk = n.walk.map (mapHeaders g) := by
  induction n using Node.induction with
  | step n ih =>
    rw [walk_eq, walk_eq, children_mapHeaders, List.flatMap_map, List.map_cons, List.map_flatMap]
    rw [List.flatMap_congr ih]

theorem mapHeaders_mapHeaders (g' : Header → Header) :
    (n.mapHeaders g).mapHeaders g' = n.mapHeaders fun h => g' (g h) := by
  induction n using Node.induction with
  | step n ih =>
    rw [mapHeaders_eq, mapHeaders_eq (fun h => g' (g h)), phrase_mapHeaders, header_mapHeaders,
      Phrase.map_map]
    exact congrArg (mk _) (Phrase.map_congr_children ih)

theorem mapHeaders_id : n.mapHeaders (fun h => h) = n := by
  induction n using Node.induction with
  | step n ih => rw [mapHeaders_eq, Phrase.map_eq_self_iff.2 ih, mk_header_phrase]

variable {g n}

theorem mapHeaders_congr {g' : Header → Header} (h : ∀ m ∈ n.walk, g m.header = g' m.header) :
    n.mapHeaders g = n.mapHeaders g' := by
  induction n using Node.induction with
  | step n ih =>
    rw [walk_eq, List.forall_mem_cons, List.forall_mem_flatMap] at h
    rw [mapHeaders_eq, mapHeaders_eq, h.1,
      Phrase.map_congr_children fun c hc => ih c hc (h.2 c hc)]

end MapHeaders

/-! ## Identity and findings -/

/-- A node without its identity. -/
def bare : Node → Node :=
  mapNodes fun n => mk { n.header with id := ⟨0⟩, edition := 0, sealed := false } n.phrase

theorem bare_eq :
    bare = mapHeaders fun h => { h with id := ⟨0⟩, edition := 0, sealed := false } := rfl

theorem bare_mk (h : Header) (p : Phrase Node) :
    (mk h p).bare = mk { h with id := ⟨0⟩, edition := 0, sealed := false } (p.map bare) := by
  rw [bare_eq, mapHeaders_mk]

@[simp] theorem phrase_bare (n : Node) : n.bare.phrase = n.phrase.map bare := by
  rw [bare_eq, phrase_mapHeaders]

@[simp] theorem header_bare (n : Node) :
    n.bare.header = { n.header with id := ⟨0⟩, edition := 0, sealed := false } := by
  rw [bare_eq, header_mapHeaders]

@[simp] theorem blockId?_bare (n : Node) : n.bare.blockId? = n.blockId? := by simp [blockId?]
@[simp] theorem attributes_bare (n : Node) : n.bare.attributes = n.attributes := by
  simp [attributes]
@[simp] theorem comment?_bare (n : Node) : n.bare.comment? = n.comment? := by simp [comment?]
@[simp] theorem diagnostics_bare (n : Node) : n.bare.diagnostics = n.diagnostics := by
  simp [diagnostics]
@[simp] theorem kind_bare (n : Node) : n.bare.kind = n.kind := by simp [kind]
@[simp] theorem children_bare (n : Node) : n.bare.children = n.children.map bare := by
  simp [children]

@[simp] theorem statements_bare (n : Node) : n.bare.statements = n.statements.map bare := by
  rw [bare_eq, statements_mapHeaders]

@[simp] theorem walk_bare (n : Node) : n.bare.walk = n.walk.map bare := by
  rw [bare_eq, walk_mapHeaders]

/-- A node without its identity and its findings. -/
def plain : Node → Node :=
  mapNodes fun n =>
    mk { id := ⟨0⟩, blockId := n.blockId?, attributes := n.attributes, comment := n.comment? }
      n.phrase

theorem plain_eq : plain = mapHeaders fun h =>
    { id := ⟨0⟩, blockId := h.blockId, attributes := h.attributes, comment := h.comment } := rfl

theorem plain_mk (h : Header) (p : Phrase Node) : (mk h p).plain =
    mk { id := ⟨0⟩, blockId := h.blockId, attributes := h.attributes, comment := h.comment }
      (p.map plain) := by
  rw [plain_eq, mapHeaders_mk]

@[simp] theorem phrase_plain (n : Node) : n.plain.phrase = n.phrase.map plain := by
  rw [plain_eq, phrase_mapHeaders]

@[simp] theorem blockId?_plain (n : Node) : n.plain.blockId? = n.blockId? := by
  rw [blockId?, plain_eq, header_mapHeaders]
  rfl

@[simp] theorem kind_plain (n : Node) : n.plain.kind = n.kind := by simp [kind]

@[simp] theorem children_plain (n : Node) : n.plain.children = n.children.map plain := by
  simp [children]

@[simp] theorem statements_plain (n : Node) : n.plain.statements = n.statements.map plain := by
  rw [plain_eq, statements_mapHeaders]

@[simp] theorem walk_plain (n : Node) : n.plain.walk = n.walk.map plain := by
  rw [plain_eq, walk_mapHeaders]

@[simp] theorem number?_plain (n : Node) : n.plain.number? = n.number? := by
  unfold number?
  rw [phrase_plain]
  cases n.phrase <;> rfl

@[simp] theorem boolean?_plain (n : Node) : n.plain.boolean? = n.boolean? := by
  unfold boolean?
  rw [phrase_plain]
  cases n.phrase <;> rfl

theorem plain_eq_iff {a b : Node} : a.plain = b.plain ↔
    a.blockId? = b.blockId? ∧ a.attributes = b.attributes ∧ a.comment? = b.comment? ∧
      a.phrase.map plain = b.phrase.map plain := by
  obtain ⟨⟨_, _, _, blockId, attributes, comment, diagnostics⟩, p⟩ := a
  obtain ⟨⟨_, _, _, blockId', attributes', comment', diagnostics'⟩, q⟩ := b
  simp [plain_mk, blockId?, Node.attributes, comment?, and_assoc]

/-- Only findings make the difference. -/
theorem plain_of_silent {n : Node} (h : ∀ m ∈ n.walk, m.diagnostics = []) : n.plain = n.bare := by
  rw [plain_eq, bare_eq]
  refine mapHeaders_congr fun m hm => ?_
  obtain ⟨⟨id, edition, isSealed, blockId, attributes, comment, diagnostics⟩, p⟩ := m
  obtain rfl : diagnostics = [] := h _ hm
  rfl

/-! ## Constants -/

end Node

namespace Phrase

variable {α : Type} {p : Phrase α}

/-- Whether a phrase is a constant number or truth value. -/
def isConstant : Phrase α → Bool
  | numConst _ | boolConst _ => true
  | _ => false

theorem children_of_isConstant (h : p.isConstant = true) : p.children = [] := by
  cases p <;> first | rfl | cases h

theorem isEmptyExpr_of_isConstant (h : p.isConstant = true) : p.isEmptyExpr = false := by
  cases p <;> first | rfl | cases h

end Phrase

namespace Node

theorem isConstant_of_number? {n : Node} {x : Float} (h : n.number? = some x) :
    n.phrase.isConstant = true := by
  unfold number? at h
  cases phrase : n.phrase <;> rw [phrase] at h <;> first | rfl | cases h

theorem isConstant_of_boolean? {n : Node} {b : Bool} (h : n.boolean? = some b) :
    n.phrase.isConstant = true := by
  unfold boolean? at h
  cases phrase : n.phrase <;> rw [phrase] at h <;> first | rfl | cases h

theorem isEmptyExpr_of_number? {n : Node} {x : Float} (h : n.number? = some x) :
    n.phrase.isEmptyExpr = false :=
  Phrase.isEmptyExpr_of_isConstant (isConstant_of_number? h)

theorem isEmptyExpr_of_boolean? {n : Node} {b : Bool} (h : n.boolean? = some b) :
    n.phrase.isEmptyExpr = false :=
  Phrase.isEmptyExpr_of_isConstant (isConstant_of_boolean? h)

/-! ## Likeness -/

theorem alike_eq (a b : Node) : a.alike b = (a.blockId? == b.blockId? &&
    a.attributes == b.attributes && a.comment? == b.comment? &&
      a.phrase.map (fun _ => ()) == b.phrase.map (fun _ => ()) &&
      (a.children.zip b.children).all fun c => c.1.alike c.2) := by
  rw [alike, recurse_eq]
  simp only [Phrase.map_map, Phrase.children_map, List.zip_map_left, List.all_map]
  rfl

theorem all_zip_alike {l m : List Node} (length : l.length = m.length)
    (agree : ∀ a ∈ l, ∀ b, a.alike b = true ↔ a.plain = b.plain) :
    ((l.zip m).all fun c => c.1.alike c.2) = true ↔ l.map plain = m.map plain := by
  induction l generalizing m with
  | nil =>
    cases m with
    | nil => simp
    | cons b m => simp at length
  | cons a l ih =>
    cases m with
    | nil => simp at length
    | cons b m =>
      rw [List.zip_cons_cons, List.all_cons, Bool.and_eq_true, List.map_cons, List.map_cons,
        List.cons.injEq, agree a List.mem_cons_self b,
        ih (by simpa using length) fun a ha => agree a (List.mem_cons_of_mem _ ha)]

/-- Nodes are alike if the same remains of them without their findings. -/
theorem alike_iff {a b : Node} : a.alike b = true ↔ a.plain = b.plain := by
  induction a using Node.induction generalizing b with
  | step a ih =>
    have children (c : Node) (hc : c ∈ a.children) (d : Node) :
        c.alike d = true ↔ c.plain = d.plain := ih c hc
    rw [alike_eq, plain_eq_iff]
    simp only [Bool.and_eq_true, beq_iff_eq, and_assoc]
    refine and_congr_right fun _ => and_congr_right fun _ => and_congr_right fun _ => ?_
    refine ⟨fun h => ?_, fun same => ?_⟩
    · obtain ⟨shape, all⟩ := h
      have length : a.children.length = b.children.length := by
        simpa [Node.children] using congrArg (fun p => p.children.length) shape
      refine Phrase.ext_children (by simpa [Function.comp_def] using shape) ?_
      rw [Phrase.children_map, Phrase.children_map]
      exact (all_zip_alike length children).1 all
    · have shape := congrArg (Phrase.map fun _ => ()) same
      have inside := congrArg Phrase.children same
      rw [Phrase.map_map, Phrase.map_map] at shape
      rw [Phrase.children_map, Phrase.children_map] at inside
      have length : a.children.length = b.children.length := by
        simpa [Node.children] using congrArg List.length inside
      exact ⟨shape, (all_zip_alike length children).2 inside⟩

/-! ## Blocks -/

/-- The ids of the blocks in a subtree, parents first. -/
def blockIds (n : Node) : List String := n.walk.filterMap blockId?

theorem blockIds_eq (n : Node) :
    n.blockIds = n.blockId?.toList ++ n.children.flatMap blockIds := by
  rw [blockIds, walk_eq, List.filterMap_cons, List.filterMap_flatMap]
  cases n.blockId? <;> rfl

end Node

/-! ## Programs -/

namespace Program

theorem body_walk_subset {p : Program} {i : Instance} (hi : i ∈ p.instances) :
    i.body.walk ⊆ p.walk := fun _ h => List.mem_flatMap.2 ⟨i, hi, h⟩

theorem walk_subset {p : Program} {n : Node} (h : n ∈ p.walk) : n.walk ⊆ p.walk := by
  obtain ⟨i, hi, h⟩ := List.mem_flatMap.1 h
  exact List.Subset.trans (Node.walk_subset h) (body_walk_subset hi)

/-- A program with `g` applied to the header of every node. -/
def mapHeaders (g : Header → Header) (p : Program) : Program :=
  { p with instances := p.instances.map fun i => { i with body := i.body.mapHeaders g } }

@[simp] theorem walk_mapHeaders (g : Header → Header) (p : Program) :
    (p.mapHeaders g).walk = p.walk.map (Node.mapHeaders g) := by
  simp [walk, mapHeaders, List.flatMap_map, List.map_flatMap]

theorem mapHeaders_id (p : Program) : p.mapHeaders (fun h => h) = p := by
  simp [mapHeaders, Node.mapHeaders_id]

theorem mapHeaders_mapHeaders (g g' : Header → Header) (p : Program) :
    (p.mapHeaders g).mapHeaders g' = p.mapHeaders fun h => g' (g h) := by
  simp [mapHeaders, Node.mapHeaders_mapHeaders]

/-- A program without the identity of its nodes. -/
def bare (p : Program) : Program :=
  { p with instances := p.instances.map fun i => { i with body := i.body.bare } }

theorem bare_eq (p : Program) : p.bare =
    p.mapHeaders fun h => { h with id := ⟨0⟩, edition := 0, sealed := false } := rfl

@[simp] theorem walk_bare (p : Program) : p.bare.walk = p.walk.map Node.bare := by
  rw [bare_eq, walk_mapHeaders, Node.bare_eq]

/-- The ids of all blocks, chain after chain. -/
def blockIds (p : Program) : List String := p.instances.flatMap (·.body.blockIds)

theorem blockIds_eq (p : Program) : p.blockIds = p.walk.filterMap Node.blockId? := by
  rw [walk, List.filterMap_flatMap]
  rfl

theorem blockIds_bare (p : Program) : p.bare.blockIds = p.blockIds := by
  simp [blockIds_eq, List.filterMap_map]

/-- If the ids of blocks are distinct, they tell the nodes of blocks apart. -/
theorem eq_of_blockId? {p : Program} (distinct : p.blockIds.Nodup) {m n : Node} (hm : m ∈ p.walk)
    (hn : n ∈ p.walk) {id : String} (h : m.blockId? = some id) (h' : n.blockId? = some id) :
    m = n := by
  have blocks := distinct.map (f := some) fun _ _ => Option.some.inj
  rw [blockIds_eq, List.map_filterMap_some_eq_filter_map_isSome, List.filter_map] at blocks
  refine List.inj_on_of_nodup_map blocks (List.mem_filter.2 ⟨hm, ?_⟩)
    (List.mem_filter.2 ⟨hn, ?_⟩) (h.trans h'.symm)
  · simp [h]
  · simp [h']

/-- A program without the identity of its nodes and without findings. -/
def plain (p : Program) : Program :=
  { p with instances := p.instances.map fun i => { i with body := i.body.plain } }

theorem plain_eq (p : Program) : p.plain = p.mapHeaders fun h =>
    { id := ⟨0⟩, blockId := h.blockId, attributes := h.attributes, comment := h.comment } := rfl

theorem plain_bare (p : Program) : p.bare.plain = p.plain := by
  rw [plain_eq, bare_eq, mapHeaders_mapHeaders, plain_eq]

theorem plain_plain (p : Program) : p.plain.plain = p.plain := by
  rw [plain_eq, plain_eq, mapHeaders_mapHeaders]

/-- Programs are alike if the same remains of them without their findings. -/
theorem alike_iff {p q : Program} : p.alike q = true ↔ p.plain = q.plain := by
  obtain ⟨version, description, tags, is⟩ := p
  obtain ⟨version', description', tags', js⟩ := q
  simp only [alike, plain, Bool.and_eq_true, beq_iff_eq, mk.injEq, and_assoc]
  refine and_congr_right fun _ => and_congr_right fun _ => and_congr_right fun _ => ?_
  induction is generalizing js with
  | nil => cases js <;> simp
  | cons i is ih =>
    cases js with
    | nil => simp
    | cons j js =>
      have rest := ih js
      obtain ⟨x, y, body⟩ := i
      obtain ⟨x', y', body'⟩ := j
      simp only [List.length_cons, Nat.add_right_cancel_iff, List.zip_cons_cons, List.all_cons,
        Bool.and_eq_true, beq_iff_eq, Node.alike_iff, List.map_cons, List.cons.injEq,
        Instance.mk.injEq, ← rest]
      tauto

theorem plain_of_silent {p : Program} (h : ∀ n ∈ p.walk, n.diagnostics = []) :
    p.plain = p.bare := by
  rw [plain, bare]
  refine congrArg (fun instances => { p with instances }) (List.map_congr_left fun i hi => ?_)
  rw [Node.plain_of_silent fun m hm => h m (List.mem_flatMap.2 ⟨i, hi, hm⟩)]

/-- Programs without findings are alike if the same remains of them. -/
theorem alike_iff_of_silent {p q : Program} (hp : ∀ n ∈ p.walk, n.diagnostics = [])
    (hq : ∀ n ∈ q.walk, n.diagnostics = []) : p.alike q = true ↔ p.bare = q.bare := by
  rw [alike_iff, plain_of_silent hp, plain_of_silent hq]

end Program

end BlockGraph

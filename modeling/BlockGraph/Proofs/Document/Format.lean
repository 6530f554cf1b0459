import BlockGraph.Document.Equality
import BlockGraph.Document.Format
import BlockGraph.Proofs.Json.Printing
import BlockGraph.Proofs.Json.Record

/-!
# Reading what was written of a document

Every record is written without the fields that have their default value, and a field that is not
given has its default value after reading. For every record `restrict p` keeps the fields whose
names satisfy `p` and has defaults for the others.

* `Document.ofJson_toJson`: a document is read back from its JSON value.
* `Document.read_write`: it is read back from its text, unless it nests too deep.
-/

namespace BlockGraph

open Json

/-! ## Members -/

section Members

variable {name n : String} {v : Json} {m : String × Json}

theorem mem_unlessDefault {isDefault : Bool} :
    m ∈ unlessDefault name isDefault v ↔ isDefault = false ∧ m = (name, v) := by
  cases isDefault <;> simp [unlessDefault]

theorem mem_ifPresent {α : Type} {f : α → Json} {o : Option α} :
    m ∈ ifPresent name (o.map f) ↔ ∃ a, o = some a ∧ m = (name, f a) := by
  cases o <;> simp [ifPresent]

theorem sublist_unlessDefault (name : String) (isDefault : Bool) (v : Json) :
    ((unlessDefault name isDefault v).map Prod.fst).Sublist [name] := by
  cases isDefault
  · exact .refl _
  · exact List.nil_sublist _

theorem sublist_ifPresent (name : String) (v : Option Json) :
    ((ifPresent name v).map Prod.fst).Sublist [name] := by
  cases v
  · exact List.nil_sublist _
  · exact .refl _

theorem contains_unlessDefault {isDefault : Bool} :
    ((unlessDefault name isDefault v).map Prod.fst).contains n = (!isDefault && n == name) := by
  cases isDefault
  · change (n == name || false) = (true && n == name)
    rw [Bool.or_false, Bool.true_and]
  · rfl

theorem contains_ifPresent {α : Type} {f : α → Json} {o : Option α} :
    ((ifPresent name (o.map f)).map Prod.fst).contains n = (o.isSome && n == name) := by
  cases o
  · rfl
  · change (n == name || false) = (true && n == name)
    rw [Bool.or_false, Bool.true_and]

/-- A value that may be missing and is given only if it is not. -/
theorem given_option {α : Type} (o : Option α) : (if o.isSome = true then o else none) = o := by
  cases o <;> rfl

/-- A list that is given only if it is not empty. -/
theorem given_list {α : Type} (l : List α) : (if l = [] then [] else l) = l := by
  cases l <;> rfl

theorem given_text (s : String) : (if s = "" then "" else s) = s := by
  split
  · next h => exact h.symm
  · rfl

theorem given_map (m : SortedMap String String) :
    (if m.isEmpty = false then m else .empty) = m := by
  split
  · rfl
  · next h =>
    rw [Bool.not_eq_false] at h
    exact (SortedMap.ext_entries (List.isEmpty_iff.1 h)).symm

end Members

/-! ## Records without blocks -/

def Comment.restrict (c : Comment) (p : String → Bool) : Comment where
  text := if p "text" then c.text else ""
  pinned := if p "pinned" then c.pinned else false
  width := if p "w" then c.width else none
  height := if p "h" then c.height else none

theorem Comment.ofJson_toJson (c : Comment) : ofJson c.toJson = .ok c := by
  refine readRecord_members c.restrict (by decide) ?fields ?given rfl ?all ?one
  case fields =>
    simp only [List.map_append]
    exact (((List.Sublist.refl _).append (sublist_unlessDefault _ _ _)).append
      (sublist_ifPresent _ _)).append (sublist_ifPresent _ _)
  case given => simp [Layouts.comment]
  case all =>
    simp only [restrict, List.map_append, List.contains_append, contains_unlessDefault,
      contains_ifPresent]
    simp [given_option]
  case one =>
    intro p m h
    have member := h
    simp only [List.mem_append, List.mem_singleton, mem_unlessDefault, mem_ifPresent] at member
    have number (w : UInt32) : readOptional readUInt32 (.int w.toNat) = .ok (some w) :=
      readOptional_of_ne_null (by nofun) (readUInt32_int w)
    rcases member with ((rfl | ⟨-, rfl⟩) | ⟨w, width, rfl⟩) | ⟨w, height, rfl⟩
    · rfl
    · rfl
    · exact Except.bind_eq_ok_iff.2 ⟨c.width, by rw [number, width], rfl⟩
    · exact Except.bind_eq_ok_iff.2 ⟨c.height, by rw [number, height], rfl⟩

def FieldSlot.restrict (s : FieldSlot) (p : String → Bool) : FieldSlot where
  name := if p "name" then s.name else ""
  value := if p "value" then s.value else ""

theorem FieldSlot.ofJson_toJson (s : FieldSlot) : ofJson s.toJson = .ok s := by
  refine readRecord_members s.restrict (by decide) (.refl _) (by simp [Layouts.field]) rfl rfl
    fun p m h => ?_
  have member := h
  simp only [List.mem_cons, List.not_mem_nil, or_false] at member
  rcases member with rfl | rfl <;> rfl

def Annotation.restrict (a : Annotation) (p : String → Bool) : Annotation where
  severity := if p "severity" then a.severity else ""
  code := if p "code" then a.code else ""
  message := if p "message" then a.message else ""

theorem Annotation.ofJson_toJson (a : Annotation) : ofJson a.toJson = .ok a := by
  refine readRecord_members a.restrict (by decide) (.refl _) (by simp [Layouts.annotation]) rfl rfl
    fun p m h => ?_
  have member := h
  simp only [List.mem_cons, List.not_mem_nil, or_false] at member
  rcases member with rfl | rfl | rfl <;> rfl

/-! ## Blocks -/

/-- A named block as it is written. -/
def ValueSlot.toJson (s : ValueSlot Block) : Json :=
  .obj [("name", .str s.name), ("block", s.block.toJson)]

/-- A named chain as it is written. -/
def StatementSlot.toJson (s : StatementSlot Block) : Json :=
  .obj [("name", .str s.name), ("blocks", .arr (s.blocks.map Block.toJson))]

/-- The members that are written for a block. -/
def BlockLayer.toMembers (l : BlockLayer Block) : List (String × Json) :=
  [("id", .str l.id), ("type", .str l.type)] ++
    l.attributes.toMembers ++
    ifPresent "comment" (l.comment.map Comment.toJson) ++
    unlessEmpty "fields" (l.fields.map FieldSlot.toJson) ++
    unlessEmpty "values" (l.values.map ValueSlot.toJson) ++
    unlessEmpty "statements" (l.statements.map StatementSlot.toJson) ++
    unlessEmpty "annotations" (l.annotations.map Annotation.toJson)

theorem Block.toJson_mk (l : BlockLayer Block) : (mk l).toJson = .obj l.toMembers := by
  rw [toJson, recurse_mk]
  simp only [BlockLayer.map, BlockLayer.toMembers, List.map_map, ValueSlot.map,
    StatementSlot.map, Function.comp_def]
  rfl

def ValueSlot.restrict (s : ValueSlot Block) (p : String → Bool) : ValueSlot Block where
  name := if p "name" then s.name else ""
  block := if p "block" then s.block else .mk {}

theorem ValueSlot.ofJson_toJson {s : ValueSlot Block}
    {read : (b : Json) → b ∈ s.toJson.children → Shaped Block}
    (block : ∀ h, read s.block.toJson h = .ok s.block) : ofJson s.toJson read = .ok s := by
  refine readRecord_members s.restrict (by decide) (.refl _) (by simp [Layouts.value]) rfl rfl
    fun p m h => ?_
  have member := h
  simp only [List.mem_cons, List.not_mem_nil, or_false] at member
  rcases member with rfl | rfl
  · rfl
  · exact Except.bind_eq_ok_iff.2 ⟨_, block _, rfl⟩

def StatementSlot.restrict (s : StatementSlot Block) (p : String → Bool) :
    StatementSlot Block where
  name := if p "name" then s.name else ""
  blocks := if p "blocks" then s.blocks else []

theorem StatementSlot.ofJson_toJson {s : StatementSlot Block}
    {read : (bs : Json) → bs ∈ s.toJson.children → Shaped (List Block)}
    (blocks : ∀ h, read (.arr (s.blocks.map Block.toJson)) h = .ok s.blocks) :
    ofJson s.toJson read = .ok s := by
  refine readRecord_members s.restrict (by decide) (.refl _) (by simp [Layouts.statement]) rfl rfl
    fun p m h => ?_
  have member := h
  simp only [List.mem_cons, List.not_mem_nil, or_false] at member
  rcases member with rfl | rfl
  · rfl
  · exact Except.bind_eq_ok_iff.2 ⟨_, blocks _, rfl⟩

def Attributes.restrict (a : Attributes) (p : String → Bool) : Attributes where
  disabled := if p "disabled" then a.disabled else false
  collapsed := if p "collapsed" then a.collapsed else false
  inline := if p "inline" then a.inline else false
  deletable := if p "deletable" then a.deletable else true
  movable := if p "movable" then a.movable else true
  editable := if p "editable" then a.editable else true
  inTask := if p "inTask" then a.inTask else none
  mutation := if p "mutation" then a.mutation else .empty

def BlockLayer.restrict (l : BlockLayer Block) (p : String → Bool) : BlockLayer Block where
  id := if p "id" then l.id else ""
  type := if p "type" then l.type else ""
  attributes := l.attributes.restrict p
  comment := if p "comment" then l.comment else none
  fields := if p "fields" then l.fields else []
  values := if p "values" then l.values else []
  statements := if p "statements" then l.statements else []
  annotations := if p "annotations" then l.annotations else []

theorem Attributes.sublist_toMembers (a : Attributes) : (a.toMembers.map Prod.fst).Sublist
    ["disabled", "collapsed", "inline", "deletable", "movable", "editable", "inTask",
      "mutation"] := by
  unfold toMembers
  simp only [List.map_append]
  have flags := (((((sublist_unlessDefault "disabled" (!a.disabled) (.bool a.disabled)).append
    (sublist_unlessDefault "collapsed" (!a.collapsed) (.bool a.collapsed))).append
    (sublist_unlessDefault "inline" (!a.inline) (.bool a.inline))).append
    (sublist_unlessDefault "deletable" a.deletable (.bool a.deletable))).append
    (sublist_unlessDefault "movable" a.movable (.bool a.movable))).append
    (sublist_unlessDefault "editable" a.editable (.bool a.editable))
  exact (flags.append (sublist_ifPresent _ _)).append (sublist_unlessDefault _ _ _)

theorem BlockLayer.sublist_toMembers (l : BlockLayer Block) :
    (l.toMembers.map Prod.fst).Sublist Layouts.block.names := by
  unfold toMembers
  simp only [List.map_append]
  have front := ((List.Sublist.refl ["id", "type"]).append l.attributes.sublist_toMembers).append
    (sublist_ifPresent "comment" (l.comment.map Comment.toJson))
  exact (((front.append (sublist_unlessDefault _ _ _)).append (sublist_unlessDefault _ _ _)).append
    (sublist_unlessDefault _ _ _)).append (sublist_unlessDefault _ _ _)

/-- The members of a block are enough to tell it. -/
theorem BlockLayer.restrict_toMembers (l : BlockLayer Block) :
    l.restrict (fun n => (l.toMembers.map Prod.fst).contains n) = l := by
  unfold toMembers Attributes.toMembers restrict Attributes.restrict unlessEmpty
  simp only [List.map_append, List.contains_append, contains_unlessDefault, contains_ifPresent]
  simp [given_option, given_list, given_map]

theorem Block.ofJson_toJson (b : Block) : ofJson b.toJson = .ok b := by
  induction b using Block.induction with
  | step l ih =>
    rw [toJson_mk, ofJson]
    refine Except.bind_eq_ok_iff.2 ⟨l, ?_, rfl⟩
    refine readRecord_members l.restrict (by decide) l.sublist_toMembers ?given rfl
      l.restrict_toMembers fun p m h => ?one
    case given => simp [Layouts.block, BlockLayer.toMembers]
    case one =>
      have member := h
      unfold BlockLayer.toMembers Attributes.toMembers unlessEmpty at member
      simp only [List.mem_append, List.mem_cons, List.not_mem_nil, or_false, mem_unlessDefault,
        mem_ifPresent] at member
      rcases member with ((((((rfl | rfl) | (((((((flag | flag) | flag) | flag) | flag) | flag) |
        ⟨task, given, rfl⟩) | ⟨-, rfl⟩)) | ⟨comment, given, rfl⟩) | ⟨-, rfl⟩) | ⟨-, rfl⟩) |
        ⟨-, rfl⟩) | ⟨-, rfl⟩
      · rfl
      · rfl
      iterate 6
        · obtain ⟨-, rfl⟩ := flag
          rfl
      · have read : readOptional readBool (.bool task) = .ok (some task) := rfl
        exact Except.bind_eq_ok_iff.2 ⟨l.attributes.inTask, by rw [read, given], rfl⟩
      · exact Except.bind_eq_ok_iff.2 ⟨_, readTextMap_obj l.attributes.mutation, rfl⟩
      · have read : readOptional Comment.ofJson comment.toJson = .ok (some comment) :=
          readOptional_of_ne_null (by nofun) comment.ofJson_toJson
        exact Except.bind_eq_ok_iff.2 ⟨l.comment, by rw [read, given], rfl⟩
      · exact Except.bind_eq_ok_iff.2
          ⟨l.fields, readList_map fun f _ _ => f.ofJson_toJson, rfl⟩
      · refine Except.bind_eq_ok_iff.2 ⟨l.values, readList_map fun s hs _ => ?_, rfl⟩
        have inside : s.block ∈ l.children := List.mem_append_left _ (List.mem_map_of_mem hs)
        exact ValueSlot.ofJson_toJson fun _ => ih s.block inside
      · refine Except.bind_eq_ok_iff.2 ⟨l.statements, readList_map fun s hs _ => ?_, rfl⟩
        refine StatementSlot.ofJson_toJson fun _ => readList_map fun b hb _ => ?_
        exact ih b (List.mem_append_right _ (List.mem_flatMap.2 ⟨s, hs, hb⟩))
      · exact Except.bind_eq_ok_iff.2
          ⟨l.annotations, readList_map fun a _ _ => a.ofJson_toJson, rfl⟩

/-! ## Documents -/

def Chain.restrict (c : Chain) (p : String → Bool) : Chain where
  x := if p "x" then c.x else 0
  y := if p "y" then c.y else 0
  blocks := if p "blocks" then c.blocks else []

theorem Chain.ofJson_toJson (c : Chain) : ofJson c.toJson = .ok c := by
  refine readRecord_members c.restrict (by decide) (.refl _) (by simp [Layouts.chain]) rfl rfl
    fun p m h => ?_
  have member := h
  simp only [List.mem_cons, List.not_mem_nil, or_false] at member
  rcases member with rfl | rfl | rfl
  · exact Except.bind_eq_ok_iff.2 ⟨c.x, readInt64_int c.x, rfl⟩
  · exact Except.bind_eq_ok_iff.2 ⟨c.y, readInt64_int c.y, rfl⟩
  · exact Except.bind_eq_ok_iff.2 ⟨c.blocks, readList_map fun b _ _ => b.ofJson_toJson, rfl⟩

def Document.restrict (d : Document) (p : String → Bool) : Document where
  formatVersion := if p "formatVersion" then d.formatVersion else ""
  description := if p "description" then d.description else ""
  tags := if p "tags" then d.tags else []
  instances := if p "instances" then d.instances else []

/-- The members that are written for a document. -/
def Document.toMembers (d : Document) : List (String × Json) :=
  [("formatVersion", .str d.formatVersion)] ++
    unlessDefault "description" d.description.isEmpty (.str d.description) ++
    unlessEmpty "tags" (d.tags.map .str) ++
    [("instances", .arr (d.instances.map Chain.toJson))]

theorem Document.sublist_toMembers (d : Document) :
    (d.toMembers.map Prod.fst).Sublist Layouts.document.names := by
  unfold toMembers
  simp only [List.map_append]
  exact (((List.Sublist.refl _).append (sublist_unlessDefault _ _ _)).append
    (sublist_unlessDefault _ _ _)).append (.refl _)

/-- A document is read back from its JSON value. -/
theorem Document.ofJson_toJson (d : Document) : ofJson d.toJson = .ok d := by
  refine readRecord_members d.restrict (by decide) d.sublist_toMembers ?given rfl ?all
    fun p m h => ?one
  case given => simp [Layouts.document]
  case all =>
    unfold restrict unlessEmpty
    simp only [List.map_append, List.contains_append, contains_unlessDefault]
    simp [given_list, given_text]
  case one =>
    have member := h
    simp only [List.mem_append, List.mem_singleton, unlessEmpty, mem_unlessDefault] at member
    rcases member with ((rfl | ⟨-, rfl⟩) | ⟨-, rfl⟩) | rfl
    · rfl
    · rfl
    · exact Except.bind_eq_ok_iff.2 ⟨d.tags, readList_map fun t _ _ => rfl, rfl⟩
    · exact Except.bind_eq_ok_iff.2
        ⟨d.instances, readList_map fun c _ _ => c.ofJson_toJson, rfl⟩

theorem claimedVersion_toJson (d : Document) : claimedVersion d.toJson = d.formatVersion := by
  have names : Layouts.document.names.Nodup := by decide
  have perm := SortedMap.entries_ofList_perm (names.sublist d.sublist_toMembers)
  have member : ("formatVersion", Json.str d.formatVersion) ∈ d.toMembers := by
    simp [Document.toMembers]
  have version := SortedMap.get?_eq_some_iff.2 (perm.mem_iff.2 member)
  change claimedVersion (.obj d.toMembers) = _
  rw [claimedVersion, version]

/-! ## Numbers -/

theorem Comment.exact_toJson (c : Comment) : c.toJson.Exact := by
  refine .obj fun m h => ?_
  simp only [List.mem_append, List.mem_singleton, mem_unlessDefault, mem_ifPresent] at h
  have number (n : UInt32) : Exact (.int n.toNat) := by
    have small := n.toNat_lt
    refine .int (by omega) ?_
    rw [maxWord]
    omega
  rcases h with ((rfl | ⟨-, rfl⟩) | ⟨w, -, rfl⟩) | ⟨w, -, rfl⟩
  · exact .str _
  · exact .bool _
  · exact number w
  · exact number w

theorem FieldSlot.exact_toJson (s : FieldSlot) : s.toJson.Exact := by
  refine .obj fun m h => ?_
  simp only [List.mem_cons, List.not_mem_nil, or_false] at h
  rcases h with rfl | rfl <;> exact .str _

theorem Annotation.exact_toJson (a : Annotation) : a.toJson.Exact := by
  refine .obj fun m h => ?_
  simp only [List.mem_cons, List.not_mem_nil, or_false] at h
  rcases h with rfl | rfl | rfl <;> exact .str _

theorem Attributes.exact_toMembers {a : Attributes} {m : String × Json} (h : m ∈ a.toMembers) :
    m.2.Exact := by
  unfold toMembers at h
  simp only [List.mem_append, mem_unlessDefault, mem_ifPresent] at h
  rcases h with ((((((flag | flag) | flag) | flag) | flag) | flag) | ⟨task, -, rfl⟩) | ⟨-, rfl⟩
  iterate 6
    · obtain ⟨-, rfl⟩ := flag
      exact .bool _
  · exact .bool _
  · refine .obj fun m h => ?_
    obtain ⟨e, -, rfl⟩ := List.mem_map.1 h
    exact .str _

/-- A list of values that are written without floats. -/
theorem exact_arr_map {α : Type} {write : α → Json} {as : List α}
    (each : ∀ a ∈ as, (write a).Exact) : Exact (.arr (as.map write)) :=
  .arr (List.forall_mem_map.2 each)

theorem Block.exact_toJson (b : Block) : b.toJson.Exact := by
  induction b using Block.induction with
  | step l ih =>
    rw [toJson_mk]
    refine .obj fun m h => ?_
    unfold BlockLayer.toMembers unlessEmpty at h
    simp only [List.mem_append, List.mem_cons, List.not_mem_nil, or_false, mem_unlessDefault,
      mem_ifPresent] at h
    rcases h with ((((((rfl | rfl) | flags) | ⟨comment, -, rfl⟩) | ⟨-, rfl⟩) | ⟨-, rfl⟩) |
      ⟨-, rfl⟩) | ⟨-, rfl⟩
    · exact .str _
    · exact .str _
    · exact Attributes.exact_toMembers flags
    · exact comment.exact_toJson
    · exact exact_arr_map fun f _ => f.exact_toJson
    · refine exact_arr_map fun s hs => .obj fun m h => ?_
      simp only [List.mem_cons, List.not_mem_nil, or_false] at h
      rcases h with rfl | rfl
      · exact .str _
      · exact ih s.block (List.mem_append_left _ (List.mem_map_of_mem hs))
    · refine exact_arr_map fun s hs => .obj fun m h => ?_
      simp only [List.mem_cons, List.not_mem_nil, or_false] at h
      rcases h with rfl | rfl
      · exact .str _
      · exact exact_arr_map fun b hb =>
          ih b (List.mem_append_right _ (List.mem_flatMap.2 ⟨s, hs, hb⟩))
    · exact exact_arr_map fun a _ => a.exact_toJson

theorem Chain.exact_toJson (c : Chain) : c.toJson.Exact := by
  refine .obj fun m h => ?_
  simp only [List.mem_cons, List.not_mem_nil, or_false] at h
  have number (n : Int64) : Exact (.int n.toInt) := by
    have low := n.le_toInt
    have high := n.toInt_lt
    refine .int (by omega) ?_
    rw [maxWord]
    omega
  rcases h with rfl | rfl | rfl
  · exact number c.x
  · exact number c.y
  · exact exact_arr_map fun b _ => b.exact_toJson

theorem Document.exact_toJson (d : Document) : d.toJson.Exact := by
  refine .obj fun m h => ?_
  simp only [List.mem_append, List.mem_singleton, unlessEmpty, mem_unlessDefault] at h
  rcases h with ((rfl | ⟨-, rfl⟩) | ⟨-, rfl⟩) | rfl
  · exact .str _
  · exact .str _
  · exact exact_arr_map fun t _ => .str t
  · exact exact_arr_map fun c _ => c.exact_toJson

/-! ## Texts -/

/-- A document is read back from its text, unless it nests too deep. -/
theorem Document.read_write {d : Document} (version : d.formatVersion ∈ supportedVersions)
    (deep : d.toJson.depth ≤ maxDepth) : read d.write = .ok d := by
  have text : Json.read d.write = .ok d.toJson := read_pretty d.exact_toJson deep
  have accepted : checkVersion (claimedVersion d.toJson) = .ok () := by
    rw [claimedVersion_toJson]
    exact if_pos version
  unfold read
  simp only [text, accepted, ofJson_toJson]
  rfl

/-- A detached conditional with a comment and a finding, left of the origin. -/
def remarked : Document where
  formatVersion := "3.0"
  tags := ["geprüft"]
  instances := [{ x := -7, y := 120, blocks := [.mk {
    id := "a", type := "controls_if"
    attributes := { inTask := some false, deletable := false, mutation := .ofList [("else", "1")] }
    comment := some ⟨"why?\n\t\"here\"", true, some 160, none⟩
    values := [⟨"IF0", .mk {
      id := "b", type := "logic_boolean", fields := [⟨"BOOL", "TRUE"⟩] }⟩]
    statements := [⟨"DO0", []⟩]
    annotations := [⟨"warning", "note", "never runs"⟩] }] }]

theorem Document.read_write_remarked :
    remarked.formatVersion ∈ supportedVersions ∧ remarked.toJson.depth ≤ maxDepth ∧
      read remarked.write = .ok remarked := by
  have version : remarked.formatVersion ∈ supportedVersions := by decide
  have deep : remarked.toJson.depth ≤ maxDepth := by decide
  exact ⟨version, deep, read_write version deep⟩

end BlockGraph

import BlockGraph.Proofs.Document.Text
import BlockGraph.Proofs.Json.Lines
import BlockGraph.Proofs.Text.LineDiff

/-!
# Differences of documents

The canonical texts of two documents begin alike: with the brace of the outermost object and the
line of the format version, whose key begins no later line. So the search for common lines finds
as many as there are, and the edits between two documents are as few as possible.

* `Document.beginAlike_canonicalText`: the first lines of canonical texts.
* `Document.diff_tells`: what the differences of two documents tell.
-/

namespace BlockGraph.Document

open Json Text.LineDiff

/-- The members of a document after its format version. -/
def laterMembers (d : Document) : List (String × Json) :=
  unlessDefault "description" d.description.isEmpty (.str d.description) ++
    unlessEmpty "tags" (d.tags.map .str) ++ [("instances", .arr (d.instances.map Chain.toJson))]

theorem toJson_eq (d : Document) :
    d.toJson = .obj (("formatVersion", .str d.formatVersion) :: d.laterMembers) := by
  rw [toJson, laterMembers, List.append_assoc, List.append_assoc, List.append_assoc]
  rfl

theorem fst_mem_of_mem_laterMembers {d : Document} {m : String × Json} (h : m ∈ d.laterMembers) :
    m.1 ∈ ["description", "tags", "instances"] := by
  simp only [laterMembers, List.mem_append, List.mem_singleton, unlessEmpty,
    mem_unlessDefault] at h
  rcases h with (⟨-, rfl⟩ | ⟨-, rfl⟩) | rfl <;> simp

/-- The line of the format version is the second one and is like no later one. -/
theorem beginAlike_write (a b : Document) : BeginAlike (lines a.write) (lines b.write) := by
  have flat (d : Document) :
      '\n' ∉ ' ' :: ' ' :: prettyMember 1 ("formatVersion", .str d.formatVersion) := by
    have value : prettyAt 1 (.str d.formatVersion) = textLiteral d.formatVersion := rfl
    rw [prettyMember_eq, value]
    simp [lineBreak_not_mem_textLiteral]
  have apart : Avoids (memberKey 'f') (afterFirst a.laterMembers) := by
    refine avoids_afterFirst (fun m hm => ?_) fun m hm => ?_
    · have exact := a.exact_toJson
      rw [toJson_eq, exact_obj_iff] at exact
      exact exact m (List.mem_cons_of_mem _ hm)
    · have names : ∀ name ∈ ["description", "tags", "instances"],
          ¬['"', 'f'] <+: textLiteral name := by decide
      exact names m.1 (fst_mem_of_mem_laterMembers hm)
  rw [write, write, toJson_eq, toJson_eq, pretty_obj, pretty_obj]
  have start : memberKey 'f' <+:
      ' ' :: ' ' :: prettyMember 1 ("formatVersion", .str b.formatVersion) := ⟨_, rfl⟩
  refine beginAlike_lines (by decide) (flat a) (flat b) start fun before after e h => ?_
  exact apart before after e [] (by rwa [List.append_nil])

/-- The edits between two documents spell both canonical texts, and they are as few as possible:
all lines but those of a longest common subsequence. There are none exactly between documents that
mean the same. -/
theorem diff_tells (a b : Document) :
    unlines ((diff a b).edits.filterMap Edit.left?) = a.canonicalText ∧
      unlines ((diff a b).edits.filterMap Edit.right?) = b.canonicalText ∧
      ((diff a b).distance = 0 ↔ a.equivalent b = true) ∧
      ∃ shared, IsLcs shared (lines a.canonicalText) (lines b.canonicalText) ∧
        (diff a b).distance + 2 * shared.length =
          (lines a.canonicalText).length + (lines b.canonicalText).length := by
  have alike : BeginAlike (lines a.canonicalText) (lines b.canonicalText) :=
    beginAlike_write a.canonical b.canonical
  obtain ⟨left, right⟩ := unlines_compareTexts alike
  refine ⟨left, right, ?_, distance_compareTexts alike⟩
  rw [diff, distance_compareTexts_eq_zero_iff alike, equivalent, decide_eq_true_eq]
  exact write_injective.eq_iff

end BlockGraph.Document

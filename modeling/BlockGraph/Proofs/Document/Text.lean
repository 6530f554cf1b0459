import BlockGraph.Document.Canonical
import BlockGraph.Proofs.Document.Format
import BlockGraph.Proofs.Json.Unambiguous

/-!
# What the texts of documents tell

Fields with default values are not written, yet no two documents have the same JSON value, and no
two JSON values of documents have the same text. So the text of the canonical form stands for all
that equivalent documents have in common, at any depth.

* `Document.write_injective`: different documents have different texts.
* `Document.canonicalText_eq_iff`: the canonical texts are those of equivalent documents.
-/

namespace BlockGraph

namespace Document

theorem toJson_injective : Function.Injective toJson := fun a b h => by
  have read := ofJson_toJson a
  rw [h, ofJson_toJson b] at read
  exact (Except.ok.inj read).symm

theorem write_injective : Function.Injective write := fun a b h =>
  toJson_injective (Json.pretty_inj a.exact_toJson b.exact_toJson h)

/-- Two documents have the same canonical text exactly if they are equivalent. Equivalent documents
share their fingerprint. -/
theorem canonicalText_eq_iff (a b : Document) :
    (a.canonicalText = b.canonicalText ↔ a.equivalent b = true) ∧
      (a.equivalent b = true → a.fingerprint = b.fingerprint) := by
  have texts : a.canonicalText = b.canonicalText ↔ a.equivalent b = true := by
    rw [equivalent, decide_eq_true_eq]
    exact write_injective.eq_iff
  refine ⟨texts, fun same => ?_⟩
  rw [fingerprint, fingerprint, texts.2 same]

end Document

end BlockGraph

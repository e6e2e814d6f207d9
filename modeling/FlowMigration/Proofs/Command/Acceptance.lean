import FlowMigration.Proofs.Command.Conversion
import FlowMigration.Proofs.Json.Number

/-!
# What a conversion accepts

The grammar says, without a reader, which texts denote a document and which document that
is.  A conversion rejects exactly the texts that denote none, and on any other it does
what the migration does on the document.
-/

namespace FlowMigration

open Json (maxDepth Number Value)
open Json.Grammar (DocumentText NumberText UnmarkedText)

theorem Json.exists_read_error_iff {text : String}
    (hunmarked : UnmarkedText maxDepth text.toList) :
    (∃ reason, read text = .error reason) ↔
      ∀ document, ¬DocumentText .standard maxDepth text.toList document := by
  simp only [← read_eq_ok_iff_standard hunmarked]
  cases read text with
  | error reason => simp
  | ok document => simp

namespace Conversion

variable {text : String} {indent : ℕ}

theorem exists_malformed_iff (hunmarked : UnmarkedText maxDepth text.toList) :
    (∃ reason, (run text indent).result = .error (.malformed reason)) ↔
      ∀ document, ¬DocumentText .standard maxDepth text.toList document := by
  rw [← Json.exists_read_error_iff hunmarked]
  constructor
  · rintro ⟨reason, herror⟩
    obtain ⟨found, hread, -⟩ | ⟨document, found, -, -, hfound⟩ :=
      result_run_eq_error_iff.mp herror
    · exact ⟨found, hread⟩
    · cases hfound
  · rintro ⟨reason, hread⟩
    exact ⟨reason, result_run_eq_error_iff.mpr (.inl ⟨reason, hread, rfl⟩)⟩

/-- Without the key that marks a number, a conversion fails for the text alone exactly if
the text denotes no document: one value of the grammar, with blanks around it and at most
`maxDepth` containers in one another.  A text that denotes a document denotes one only, and
the conversion then gives the migrated document or the fault of the migration.  The numbers
in the document have the texts that they were written with, but for the marker and the sign
of their exponents. -/
theorem run_decided_by_grammar (text : String) (indent : ℕ)
    (hunmarked : UnmarkedText maxDepth text.toList) :
    ((∃ reason, (run text indent).result = .error (.malformed reason)) ↔
        ∀ document, ¬DocumentText .standard maxDepth text.toList document) ∧
      (∀ document, DocumentText .standard maxDepth text.toList document →
        (∀ other, DocumentText .standard maxDepth text.toList other → other = document) ∧
        (run text indent).result =
          match Document.migrate document with
          | .ok migration => .ok (migration.document.render indent)
          | .error reason => .error (.notMigrated reason)) ∧
      ∀ (cs : List Char) (number : Number), NumberText cs number →
        number.text = Number.keptText cs := by
  refine ⟨exists_malformed_iff hunmarked, fun document hdocument => ⟨?_, ?_⟩, ?_⟩
  · exact fun other hother => Json.eq_of_documentText (by decide) hdocument hother
  · exact result_run_of_read ((Json.read_eq_ok_iff_standard hunmarked).mpr hdocument) indent
  · exact fun cs number hnumber => Number.text_of_numberText hnumber

/-- The text of a document with every kind of value is one of the grammar, and it is
converted. -/
theorem run_decided_by_grammar_mixedDocument :
    UnmarkedText maxDepth (Json.mixedDocument.render 2).toList ∧
      ∃ result, (run (Json.mixedDocument.render 2) 2).result = .ok result := by
  have hdepth : Json.mixedDocument.depth ≤ maxDepth := by decide
  have hdistinct : Json.mixedDocument.DistinctKeys := by decide
  have hkeys : Json.mixedDocument.Unmarked := by decide
  have hunmarked := Json.unmarkedText_render hdepth hdistinct hkeys 2
  have hdocument :=
    (Json.documentText_render hdepth hdistinct hkeys 2).of_unmarked .standard
  obtain ⟨-, hrun, -⟩ := run_decided_by_grammar (Json.mixedDocument.render 2) 2 hunmarked
  obtain ⟨migration, hmigration⟩ : ∃ migration,
      Document.migrate Json.mixedDocument = .ok migration :=
    Document.exists_migration (by decide +kernel)
  have hresult := (hrun _ hdocument).2
  rw [hmigration] at hresult
  exact ⟨hunmarked, _, hresult⟩

end Conversion

end FlowMigration

import FlowMigration.Proofs.Json.Reader
import FlowMigration.Proofs.Json.Writer

/-!
# Writing and reading a document

Reading undoes writing.  The limit on nesting is the reader's own, so it stands among
the hypotheses, and so do the distinct keys that every document has once it is read.  The
third one is that no key marks a number: an object that starts with such a key is written
like any other, and is not read as one.
-/

namespace FlowMigration.Json

open Grammar (UnmarkedText)

theorem read_render_eq_ok {document : Value} (hdepth : document.depth ≤ maxDepth)
    (hdistinct : document.DistinctKeys) (hunmarked : document.Unmarked) (indent : ℕ) :
    read (document.render indent) = .ok document :=
  read_eq_ok_iff_text.mpr
    ((documentText_render hdepth hdistinct hunmarked indent).of_unmarked .marked)

theorem unmarkedText_render {document : Value} (hdepth : document.depth ≤ maxDepth)
    (hdistinct : document.DistinctKeys) (hunmarked : document.Unmarked) (indent : ℕ) :
    UnmarkedText maxDepth (document.render indent).toList := by
  intro other hother
  have htext := documentText_render hdepth hdistinct hunmarked indent
  rw [eq_of_documentText (by decide) (htext.of_unmarked .standard) hother]
  exact htext

/-- A document is read back from its text at every width, exactly as it is, so no two
documents share a text, whatever the widths. -/
theorem render_round_trip {document : Value} (hdepth : document.depth ≤ maxDepth)
    (hdistinct : document.DistinctKeys) (hunmarked : document.Unmarked) (indent : ℕ) :
    read (document.render indent) = .ok document ∧
      ∀ other : Value, other.depth ≤ maxDepth → other.DistinctKeys → other.Unmarked →
        document ≠ other → ∀ otherIndent : ℕ,
          document.render indent ≠ other.render otherIndent := by
  have hread := read_render_eq_ok hdepth hdistinct hunmarked indent
  refine ⟨hread, ?_⟩
  intro other hotherDepth hotherDistinct hotherUnmarked hne otherIndent hsame
  have hother := read_render_eq_ok hotherDepth hotherDistinct hotherUnmarked otherIndent
  rw [← hsame, hread] at hother
  exact hne (Except.ok.inj hother)

/-- A document with every kind of value, with empty containers, escapes of both kinds
and a character beyond the first plane. -/
def mixedDocument : Value :=
  .object
    [("", .array [.array [], .object [], .null]),
      ("a\"\\/\n\x01\x7f", .string "é😀\t"),
      ("n", .number ⟨true, Numeral.ofNat 10, some (Numeral.ofNat 50),
        some ⟨false, Numeral.ofNat 7⟩, Numeral.ofNat_canonical 10⟩)]

/-- The same document with its members in another order. -/
def reorderedDocument : Value :=
  match mixedDocument with
  | .object members => .object members.reverse
  | other => other

theorem render_round_trip_mixedDocument :
    mixedDocument.depth ≤ maxDepth ∧ mixedDocument.DistinctKeys ∧ mixedDocument.Unmarked ∧
      read (mixedDocument.render 0) = .ok mixedDocument ∧
      mixedDocument.render 0 ≠ reorderedDocument.render 3 := by
  have hdepth : mixedDocument.depth ≤ maxDepth := by decide
  have hdistinct : mixedDocument.DistinctKeys := by decide
  have hunmarked : mixedDocument.Unmarked := by decide
  have hotherDepth : reorderedDocument.depth ≤ maxDepth := by decide
  have hne : mixedDocument ≠ reorderedDocument := by decide
  obtain ⟨hread, hdiffer⟩ := render_round_trip hdepth hdistinct hunmarked 0
  exact ⟨hdepth, hdistinct, hunmarked, hread,
    hdiffer reorderedDocument hotherDepth (by decide) (by decide) hne 3⟩

/-! ## Texts without the key -/

/-- What a text is read as, if it is read at all, has no key that marks a number. -/
def ReadsUnmarked (text : String) : Prop :=
  ∀ document, read text = .ok document → document.Unmarked

instance (text : String) : Decidable (ReadsUnmarked text) :=
  match hread : read text with
  | .ok document => decidable_of_iff document.Unmarked (by simp [ReadsUnmarked, hread])
  | .error _ => isTrue (by simp [ReadsUnmarked, hread])

end FlowMigration.Json

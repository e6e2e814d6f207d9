import FlowMigration.Command.Request
import FlowMigration.Proofs.Flow.Depth

/-!
# Converting a converted text

A conversion succeeds if its text is read and its document is migrated.  The
text that it gives is again one that can be converted, and comes out the same, unless the
document has the key that marks a number.
-/

namespace FlowMigration.Conversion

open Json (ReadsUnmarked maxDepth)

/-- A conversion of a text that is read does what the migration of its document does. -/
theorem result_run_of_read {text : String} {document : Json.Value}
    (hread : Json.read text = .ok document) (indent : ℕ) :
    (run text indent).result =
      match Document.migrate document with
      | .ok migration => .ok (migration.document.render indent)
      | .error reason => .error (.notMigrated reason) := by
  simp only [run, hread, Logged.result_bind, Logged.result_mapError, Document.migrate]
  cases (Document.migrateLogged document).result <;> rfl

/-- A conversion reads, migrates and writes, and fails only where one of the first two
does. -/
theorem result_run_eq_ok_iff {text converted : String} {indent : ℕ} :
    (run text indent).result = .ok converted ↔
      ∃ document migration, Json.read text = .ok document ∧
        Document.migrate document = .ok migration ∧
        migration.document.render indent = converted := by
  cases hread : Json.read text with
  | error error => simp [run, hread]
  | ok document =>
      rw [result_run_of_read hread]
      cases hmigrate : Document.migrate document with
      | error error => simp [hmigrate]
      | ok migration => simp [hmigrate]

theorem result_run_eq_error_iff {text : String} {indent : ℕ} {error : CommandError} :
    (run text indent).result = .error error ↔
      (∃ reason, Json.read text = .error reason ∧ error = .malformed reason) ∨
        ∃ document reason, Json.read text = .ok document ∧
          Document.migrate document = .error reason ∧ error = .notMigrated reason := by
  cases hread : Json.read text with
  | error reason => simp [run, hread, eq_comm]
  | ok document =>
      rw [result_run_of_read hread]
      cases hmigrate : Document.migrate document with
      | error reason => simp [hmigrate, eq_comm]
      | ok migration => simp [hmigrate]

/-- The document of a successful conversion is read back from its text, and it is
migrated to itself. -/
theorem read_and_migrate_converted {text : String} {document : Json.Value}
    {migration : Migration} (hread : Json.read text = .ok document)
    (hunmarked : document.Unmarked) (hmigrate : Document.migrate document = .ok migration)
    (indent : ℕ) :
    Json.read (migration.document.render indent) = .ok migration.document ∧
      ∃ report, Document.migrate migration.document =
        .ok ⟨migration.document, report⟩ := by
  obtain ⟨hdepth, hdistinct⟩ := Json.depth_le_and_distinctKeys_of_read hread
  have hagain := Document.migrate_migrated hdistinct hmigrate
  obtain ⟨-, rfl⟩ := Document.migrate_eq_ok_iff.mp hmigrate
  exact ⟨Document.read_render_migrated hdepth hdistinct hunmarked indent, hagain⟩

/-- A text that a conversion gives is converted, at any width, to what the text it came
from is converted to at that width; at its own width it stays as it is. -/
theorem run_converted {text converted : String} {indent : ℕ}
    (hunmarked : ReadsUnmarked text) (hrun : (run text indent).result = .ok converted) :
    (∀ other : ℕ, ∃ again, (run text other).result = .ok again ∧
      (run converted other).result = .ok again) ∧
      (run converted indent).result = .ok converted := by
  obtain ⟨document, migration, hread, hmigrate, rfl⟩ := result_run_eq_ok_iff.mp hrun
  obtain ⟨hreread, report, hagain⟩ :=
    read_and_migrate_converted hread (hunmarked document hread) hmigrate indent
  have hconverted : ∀ other : ℕ,
      (run (migration.document.render indent) other).result =
        .ok (migration.document.render other) := by
    intro other
    exact result_run_eq_ok_iff.mpr ⟨_, _, hreread, hagain, rfl⟩
  refine ⟨?_, hconverted indent⟩
  intro other
  have hother : (run text other).result = .ok (migration.document.render other) :=
    result_run_eq_ok_iff.mpr ⟨document, migration, hread, hmigrate, rfl⟩
  exact ⟨_, hother, hconverted other⟩

/-- A flow in the old layout with an integer identifier, a number and an escape that
are not in normal form, a form beside a `config` and a repeated key. -/
def oldText : String :=
  "\x7b\"id\": 7, \"x\": 1E2, \"nodes\": [\x7b\"data\": \x7b\"sources\": [1]," ++
    "\"targets_form\": \x7b\"form_data\": \"\\u0041\"\x7d, \"config\": null," ++
    "\"sources\": []\x7d\x7d]\x7d"

theorem run_converted_oldText :
    ∃ converted, (run oldText 2).result = .ok converted ∧
      (run converted 2).result = .ok converted ∧
      ∃ again, (run oldText 4).result = .ok again ∧
        (run converted 4).result = .ok again := by
  have hsome : (run oldText 2).result.toOption.isSome = true := by decide +kernel
  cases hrun : (run oldText 2).result with
  | error error =>
      rw [hrun] at hsome
      cases hsome
  | ok converted =>
      have hunmarked : ReadsUnmarked oldText := by decide +kernel
      obtain ⟨hothers, hsame⟩ := run_converted hunmarked hrun
      exact ⟨converted, rfl, hsame, hothers 4⟩

/-- What a text is that a conversion gives: the lines of a document in the new layout, that
are converted at any width, and at the width that they were given at stay as they are. -/
structure IsConverted (indent : ℕ) (text : String) : Prop where
  ends_in_newline : ∃ body, text = body ++ "\n"
  in_new_layout : ∃ document, Json.read text = .ok document ∧ Document.Conforms document
  converts : ∀ other, ∃ again, (run text other).result = .ok again
  fixed : (run text indent).result = .ok text

section

variable {text converted : String} {indent : ℕ}

theorem ends_in_newline_of_run (hrun : (run text indent).result = .ok converted) :
    ∃ body, converted = body ++ "\n" := by
  obtain ⟨document, migration, -, -, rfl⟩ := result_run_eq_ok_iff.mp hrun
  exact ⟨_, String.ofList_append⟩

theorem isConverted_of_run (hunmarked : ReadsUnmarked text)
    (hrun : (run text indent).result = .ok converted) : IsConverted indent converted := by
  obtain ⟨document, migration, hread, hmigrate, rfl⟩ := result_run_eq_ok_iff.mp hrun
  obtain ⟨hreread, report, hagain⟩ :=
    read_and_migrate_converted hread (hunmarked document hread) hmigrate indent
  refine ⟨ends_in_newline_of_run hrun, ⟨migration.document, hreread, ?_⟩, ?_, ?_⟩
  · obtain ⟨hreadable, rfl⟩ := Document.migrate_eq_ok_iff.mp hmigrate
    exact Document.conforms_migrated hreadable
  · exact fun other => ⟨_, result_run_eq_ok_iff.mpr ⟨_, _, hreread, hagain, rfl⟩⟩
  · exact result_run_eq_ok_iff.mpr ⟨_, _, hreread, hagain, rfl⟩

/-- A conversion brings in no key that marks a number. -/
theorem readsUnmarked_of_run (hunmarked : ReadsUnmarked text)
    (hrun : (run text indent).result = .ok converted) : ReadsUnmarked converted := by
  obtain ⟨document, migration, hread, hmigrate, rfl⟩ := result_run_eq_ok_iff.mp hrun
  obtain ⟨hreread, -⟩ :=
    read_and_migrate_converted hread (hunmarked document hread) hmigrate indent
  obtain ⟨-, rfl⟩ := Document.migrate_eq_ok_iff.mp hmigrate
  intro again hagain
  rw [hreread] at hagain
  exact Except.ok.inj hagain ▸ Document.unmarked_migrated (hunmarked document hread)

end

end FlowMigration.Conversion

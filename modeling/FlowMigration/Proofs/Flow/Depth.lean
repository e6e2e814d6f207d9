import FlowMigration.Proofs.Flow.Stability
import FlowMigration.Proofs.Json.RoundTrip

/-!
# The depth of a migrated document

A form that becomes a configuration moves up by one level, and a default configuration is an
empty object in a data block.  So a document nests no deeper than before, or no deeper than
the levels down to a default configuration, and the reader accepts it again, unless it has
the key that marks a number: a migration can drop the keys before it, and the reader takes
an object that starts with it for a number.
-/

namespace FlowMigration

open Json (Value maxDepth)

namespace Flow

theorem depth_migratedId_le (id : Value) : (migratedId id).depth ≤ id.depth := by
  rw [migratedId]
  cases replacement? id with
  | none => exact le_rfl
  | some uuid => exact Nat.zero_le _

theorem depth_migratedNode_le (node : Value) :
    (migratedNode node).depth ≤ max node.depth 3 := by
  apply Value.depth_mapMember_le
  intro content _
  cases content with
  | object data => exact NodeData.depth_migrate_le data
  | _ => exact le_max_left _ _

theorem depth_migratedNodes_le (value : Value) :
    (migratedNodes value).depth ≤ max value.depth 4 := by
  cases value with
  | array nodes =>
      have hparts := Value.depthElements_le_iff.mp (le_refl (Value.depthElements nodes))
      rw [migratedNodes, Value.depth_array nodes, Nat.add_max_add_right _ 3 1,
        Value.depth_array_le_iff, List.forall_mem_map]
      intro node hmem
      exact (depth_migratedNode_le node).trans (max_le_max_right 3 (hparts node hmem))
  | _ => exact le_max_left _ _

theorem depth_migrated_le (flow : Value) : (migrated flow).depth ≤ max flow.depth 5 := by
  have hid : (flow.mapMember "id" migratedId).depth ≤ max flow.depth 1 :=
    Value.depth_mapMember_le fun id _ =>
      (depth_migratedId_le id).trans (le_max_left _ 0)
  calc
    (migrated flow).depth
        ≤ max (flow.mapMember "id" migratedId).depth 5 :=
      Value.depth_mapMember_le fun value _ => depth_migratedNodes_le value
    _ ≤ max (max flow.depth 1) 5 := max_le_max_right 5 hid
    _ = max flow.depth 5 := by omega

end Flow

namespace Document

theorem depth_migrated_le (document : Value) :
    (migrated document).depth ≤
      max document.depth (if isWrapped document then 6 else 5) := by
  rw [migrated]
  split
  · exact Value.depth_mapMember_le fun inner _ => Flow.depth_migrated_le inner
  · exact Flow.depth_migrated_le document

theorem depth_migrated_le_maxDepth {document : Value} (hdepth : document.depth ≤ maxDepth) :
    (migrated document).depth ≤ maxDepth := by
  apply (depth_migrated_le document).trans
  apply max_le hdepth
  split
  all_goals decide

/-- What is written after the migration of a document that the reader accepts is accepted. -/
theorem read_render_migrated {document : Value} (hdepth : document.depth ≤ maxDepth)
    (hdistinct : document.DistinctKeys) (hunmarked : document.Unmarked) (indent : ℕ) :
    Json.read ((migrated document).render indent) = .ok (migrated document) :=
  Json.read_render_eq_ok (depth_migrated_le_maxDepth hdepth)
    (distinctKeys_migrated hdistinct) (unmarked_migrated hunmarked) indent

/-- A migration makes a document no deeper than it was, but for the six levels down to a
default configuration, five if no wrapper is around the flow.  So a document that the
reader accepts, which may have 127 levels, stays within the limit, and without the key that
marks a number its text is accepted again. -/
theorem migrate_keeps_readable {document : Value} {migration : Migration}
    (hok : migrate document = .ok migration) :
    migration.document.depth ≤ max document.depth (if isWrapped document then 6 else 5) ∧
      ∀ text, Json.read text = .ok document →
        document.depth ≤ 127 ∧ migration.document.depth ≤ 127 ∧
          (document.Unmarked → ∀ indent,
            Json.read (migration.document.render indent) = .ok migration.document) := by
  obtain ⟨-, rfl⟩ := migrate_eq_ok_iff.mp hok
  refine ⟨depth_migrated_le document, fun text hread => ?_⟩
  obtain ⟨hdepth, hdistinct⟩ := Json.depth_le_and_distinctKeys_of_read hread
  exact ⟨hdepth, depth_migrated_le_maxDepth hdepth, fun hunmarked indent =>
    read_render_migrated hdepth hdistinct hunmarked indent⟩

/-- A wrapped flow whose one data block is empty, the innermost of five containers. -/
def shallowDocument : Value :=
  .object [("flow", .object [("nodes", .array [.object [("data", .object [])]])])]

theorem migrate_keeps_readable_shallowDocument :
    shallowDocument.depth = 5 ∧ ∃ migration, migrate shallowDocument = .ok migration ∧
      migration.document.depth = 6 ∧
        Json.read (migration.document.render 2) = .ok migration.document := by
  have hok : ∃ migration, migrate shallowDocument = .ok migration :=
    exists_migration (by decide +kernel)
  have hread : Json.read (shallowDocument.render 0) = .ok shallowDocument := by
    decide +kernel
  obtain ⟨migration, hmigration⟩ := hok
  have hdepth : migration.document.depth = 6 := by
    obtain ⟨-, rfl⟩ := migrate_eq_ok_iff.mp hmigration
    decide +kernel
  obtain ⟨-, hreadable⟩ := migrate_keeps_readable hmigration
  exact ⟨rfl, migration, hmigration, hdepth, (hreadable _ hread).2.2 (by decide) 2⟩

/-- A document with the key that marks a number, behind a key that a migration drops. -/
def markedDocument : Value :=
  .object [("nodes", .array [.object [("data", .object
    [("json_schema", .object []), (Json.numberKey, .string "5")])]])]

/-- The key comes first once the block is migrated, and is read for a number. -/
theorem read_render_migrated_markedDocument :
    Json.read ((migrated markedDocument).render 0) = .error ⟨.trailingComma, 5, 36⟩ := by
  decide +kernel

/-- A document that is accepted can be migrated to one that is not. -/
theorem rejected_after_migrate_markedDocument :
    Json.read (markedDocument.render 0) = .ok markedDocument ∧
      ∃ migration, migrate markedDocument = .ok migration ∧
        Json.read (migration.document.render 0) = .error ⟨.trailingComma, 5, 36⟩ := by
  have hread : Json.read (markedDocument.render 0) = .ok markedDocument := by
    decide +kernel
  obtain ⟨migration, hmigration⟩ : ∃ migration, migrate markedDocument = .ok migration :=
    exists_migration (by decide +kernel)
  obtain ⟨-, rfl⟩ := migrate_eq_ok_iff.mp hmigration
  exact ⟨hread, _, hmigration, read_render_migrated_markedDocument⟩

end Document

end FlowMigration

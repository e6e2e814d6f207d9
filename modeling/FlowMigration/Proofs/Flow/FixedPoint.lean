import FlowMigration.Proofs.Flow.Accounting

/-!
# Fixed points of the migration

The documents that a migration gives back as they are, are those in the new layout.
A migrated document is one of them, and of its second migration the report counts
the same nodes and no change.
-/

namespace FlowMigration

open Json (Members Value)

namespace Flow

/-! ## The nodes of a migrated flow -/

theorem nodeList_migrated (flow : Value) :
    nodeList (migrated flow) = (nodeList flow).map migratedNode := by
  rw [nodeList, member?_nodes_migrated, nodeList]
  cases flow.member? "nodes" with
  | none => rfl
  | some value => cases value <;> rfl

theorem dataBlock?_migratedNode (node : Value) :
    dataBlock? (migratedNode node) = (dataBlock? node).map NodeData.migrate := by
  rw [dataBlock?, member?_data_migratedNode, dataBlock?]
  cases node.member? "data" with
  | none => rfl
  | some value => cases value <;> rfl

/-- The data blocks of the new nodes are the old ones, converted one by one. -/
theorem filterMap_dataBlock?_migratedNode (nodes : List Value) :
    (nodes.map migratedNode).filterMap dataBlock? =
      (nodes.filterMap dataBlock?).map NodeData.migrate := by
  rw [List.filterMap_map, List.map_filterMap]
  congr 1
  funext node
  exact dataBlock?_migratedNode node

/-- The new nodes are as many as the old ones, and so are their data blocks. -/
theorem account_migratedNode (nodes : List Value) :
    (account (nodes.map migratedNode)).nodesTotal = (account nodes).nodesTotal ∧
      (account (nodes.map migratedNode)).nodesConverted =
        (account nodes).nodesConverted := by
  refine ⟨List.length_map _, ?_⟩
  calc
    ((nodes.map migratedNode).filterMap dataBlock?).length
        = ((nodes.filterMap dataBlock?).map NodeData.migrate).length := by
      rw [filterMap_dataBlock?_migratedNode]
    _ = (nodes.filterMap dataBlock?).length := List.length_map _

/-- A flow in the new layout has a quiet report. -/
theorem quiet_report_of_conforms {members : Members Value}
    (hdistinct : (Value.object members).DistinctKeys) (hconforms : Conforms members)
    (wrapped : Bool) : (report wrapped (.object members)).Quiet := by
  obtain ⟨hreadable, hkept, hblocks⟩ := conforms_iff.mp hconforms
  apply (quiet_report_iff hdistinct hreadable wrapped).mpr
  refine ⟨hkept, fun data hdata => ?_⟩
  exact (NodeData.conforms_iff_unreported.mp (hblocks data hdata)).1

end Flow

namespace Document

theorem quiet_report_of_conforms {document : Value} (hdistinct : document.DistinctKeys)
    (hconforms : Conforms document) (wrapped : Bool) :
    (Flow.report wrapped (flow document)).Quiet := by
  obtain ⟨members, hflow, hmembers⟩ := hconforms
  have hobject := distinctKeys_flow hdistinct
  rw [hflow] at hobject ⊢
  exact Flow.quiet_report_of_conforms hobject hmembers wrapped

theorem migrate_eq_self_iff {document : Value} (hdistinct : document.DistinctKeys) :
    (∃ report, migrate document = .ok ⟨document, report⟩) ↔ Conforms document := by
  constructor
  · rintro ⟨report, hok⟩
    obtain ⟨hreadable, hmigration⟩ := migrate_eq_ok_iff.mp hok
    have hsame : document = migrated document := congrArg Migration.document hmigration
    rw [hsame]
    exact conforms_migrated hreadable
  · exact fun hconforms => ⟨_, migrate_of_conforms hdistinct hconforms⟩

/-- The second migration of a document sees the same nodes as the first. -/
theorem tally_report_migrated {document : Value} (hdistinct : document.DistinctKeys)
    (wrapped : Bool) :
    (Flow.report wrapped (flow (migrated document))).tally =
      Flow.account ((Flow.nodeList (flow document)).map Flow.migratedNode) := by
  have hnew := distinctKeys_flow (distinctKeys_migrated hdistinct)
  rw [Flow.tally_report hnew, flow_migrated, Flow.nodeList_migrated]

/-- The documents that a migration leaves as they are, are exactly those in the new
layout.  A second migration succeeds, changes nothing, counts the same nodes and
reports no change. -/
theorem migrate_fixes_iff_conforms {document : Value}
    (hdistinct : document.DistinctKeys) :
    ((∃ report, migrate document = .ok ⟨document, report⟩) ↔ Conforms document) ∧
      ∀ migration, migrate document = .ok migration →
        ∃ again, migrate migration.document = .ok ⟨migration.document, again⟩ ∧
          again.wrapped = migration.report.wrapped ∧
          again.tally.nodesTotal = migration.report.tally.nodesTotal ∧
          again.tally.nodesConverted = migration.report.tally.nodesConverted ∧
          again.Quiet := by
  refine ⟨migrate_eq_self_iff hdistinct, fun migration hok => ?_⟩
  obtain ⟨hreadable, rfl⟩ := migrate_eq_ok_iff.mp hok
  have hnew := distinctKeys_migrated hdistinct
  have hconforms := conforms_migrated hreadable
  have hfirst := Flow.tally_report (distinctKeys_flow hdistinct) (isWrapped document)
  have hsecond := tally_report_migrated hdistinct (isWrapped (migrated document))
  obtain ⟨htotal, hconverted⟩ := Flow.account_migratedNode (Flow.nodeList (flow document))
  refine ⟨_, migrate_of_conforms hnew hconforms, isWrapped_migrated document, ?_, ?_,
    quiet_report_of_conforms hnew hconforms _⟩
  · rw [hsecond, hfirst, htotal]
  · rw [hsecond, hfirst, hconverted]

theorem migrate_fixes_iff_conforms_countedExample :
    countedExample.DistinctKeys ∧ ¬Conforms countedExample ∧
      ∃ migration again, migrate countedExample = .ok migration ∧
        migrate migration.document = .ok ⟨migration.document, again⟩ ∧
        again.tally.nodesConverted = migration.report.tally.nodesConverted ∧
        again.Quiet := by
  obtain ⟨hfixed, hagain⟩ := migrate_fixes_iff_conforms distinctKeys_countedExample
  have hchanged : (migrate countedExample).toOption.map Migration.document ≠
      some countedExample := by decide +kernel
  obtain ⟨migration, hok⟩ : ∃ migration, migrate countedExample = .ok migration :=
    exists_migration (by decide +kernel)
  obtain ⟨again, hsecond, -, -, hconverted, hquiet⟩ := hagain migration hok
  refine ⟨distinctKeys_countedExample, fun hconforms => ?_, migration, again, hok,
    hsecond, hconverted, hquiet⟩
  obtain ⟨report, hsame⟩ := hfixed.mpr hconforms
  rw [hsame] at hchanged
  exact hchanged rfl

end Document

end FlowMigration

import FlowMigration.Proofs.Flow.Stability

/-!
# Quiet reports

A report is quiet when it tells of no change.  An unchanged document has a quiet
report.  The converse fails, and for one reason only: a form without `form_data` that
comes after a `config` is discarded and counted nowhere.  The laws below say exactly
which documents are changed under a quiet report.
-/

namespace FlowMigration

open Json (Members Number Value)

/-! ## Quiet tallies -/

/-- No change is counted; how many nodes were seen does not matter. -/
structure Tally.Quiet (tally : Tally) : Prop where
  renamedKeys : tally.renamedKeys = 0
  configsFromFormData : tally.configsFromFormData = 0
  configsDefaulted : tally.configsDefaulted = 0
  droppedKeys : tally.droppedKeys = 0

structure Report.Quiet (report : Report) : Prop where
  flowId : report.flowId = none
  tally : report.tally.Quiet

namespace Tally

theorem quiet_zero : (0 : Tally).Quiet := ⟨rfl, rfl, rfl, rfl⟩

theorem quiet_add_iff {left right : Tally} :
    (left + right).Quiet ↔ left.Quiet ∧ right.Quiet := by
  constructor
  · rintro ⟨hrenamed, hform, hdefaulted, hdropped⟩
    exact ⟨⟨(Nat.add_eq_zero_iff.mp hrenamed).1, (Nat.add_eq_zero_iff.mp hform).1,
        (Nat.add_eq_zero_iff.mp hdefaulted).1, (Nat.add_eq_zero_iff.mp hdropped).1⟩,
      ⟨(Nat.add_eq_zero_iff.mp hrenamed).2, (Nat.add_eq_zero_iff.mp hform).2,
        (Nat.add_eq_zero_iff.mp hdefaulted).2, (Nat.add_eq_zero_iff.mp hdropped).2⟩⟩
  · rintro ⟨hleft, hright⟩
    exact ⟨Nat.add_eq_zero_iff.mpr ⟨hleft.1, hright.1⟩,
      Nat.add_eq_zero_iff.mpr ⟨hleft.2, hright.2⟩,
      Nat.add_eq_zero_iff.mpr ⟨hleft.3, hright.3⟩,
      Nat.add_eq_zero_iff.mpr ⟨hleft.4, hright.4⟩⟩

theorem quiet_sum_iff {tallies : List Tally} :
    tallies.sum.Quiet ↔ ∀ tally ∈ tallies, tally.Quiet := by
  induction tallies with
  | nil => simp [quiet_zero]
  | cons tally rest ih => rw [List.sum_cons, quiet_add_iff, ih, List.forall_mem_cons]

end Tally

namespace NodeData

/-! ## Blocks whose conversion is not counted -/

/-- Of the old keys, a block has at most a form; the form carries no `form_data` and
stands after the `config`. -/
structure Unreported (data : Members Value) : Prop where
  only_form : ∀ key ∈ Entries.keys data, key ∈ oldKeys → key = "targets_form"
  has_config : "config" ∈ Entries.keys data
  form_after_config : ∀ before form after,
    data = before ++ ("targets_form", form) :: after →
      formData? form = none ∧ "config" ∈ Entries.keys before

theorem conforms_iff_unreported {data : Members Value} :
    Conforms data ↔ Unreported data ∧ "targets_form" ∉ Entries.keys data := by
  constructor
  · intro hconforms
    have hform : "targets_form" ∉ Entries.keys data :=
      hconforms.no_old_key "targets_form" (by decide)
    refine ⟨⟨?_, hconforms.has_config, ?_⟩, hform⟩
    · exact fun key hmem hold => absurd hmem (hconforms.no_old_key key hold)
    · rintro before form after rfl
      rw [Entries.keys_append] at hform
      exact absurd (List.mem_append_right _ List.mem_cons_self) hform
  · rintro ⟨hunreported, hform⟩
    refine ⟨hunreported.has_config, fun key hold hmem => hform ?_⟩
    rwa [← hunreported.only_form key hmem hold]

namespace Draft

theorem quiet_defaultConfig_iff {draft : Draft} :
    draft.defaultConfig.tally.Quiet ↔
      draft.tally.Quiet ∧ "config" ∈ Entries.keys draft.block := by
  rw [defaultConfig, ← Entries.contains_iff]
  split
  · next hconfig => simp [hconfig]
  · next hconfig =>
      rw [Tally.quiet_add_iff]
      constructor
      · rintro ⟨-, hcount⟩
        exact absurd hcount.configsDefaulted (by decide)
      · rintro ⟨-, hcontains⟩
        exact absurd hcontains hconfig

/-- What adding a member has to be for nothing to be counted. -/
theorem quiet_add_iff {draft : Draft} {key : String} {value : Value} :
    (draft.add key value).tally.Quiet ↔
      draft.tally.Quiet ∧ (key ∈ oldKeys → key = "targets_form" ∧
        formData? value = none ∧ "config" ∈ Entries.keys draft.block) := by
  have hkept := @role_eq_kept_iff key
  have hform := @role_eq_form_iff key
  rw [add]
  cases hrole : role key with
  | renamed newKey =>
      simp only [hrole, reduceCtorEq, false_iff, not_not] at hkept hform
      rw [Tally.quiet_add_iff]
      constructor
      · rintro ⟨-, hcount⟩
        exact absurd hcount.renamedKeys (by decide)
      · rintro ⟨-, hold⟩
        exact absurd (hold hkept).1 hform
  | form =>
      simp only [hrole, reduceCtorEq, false_iff, not_not, true_iff] at hkept hform
      cases hdata : formData? value with
      | some config =>
          change (_ + _ : Tally).Quiet ↔ _
          rw [Tally.quiet_add_iff]
          constructor
          · rintro ⟨-, hcount⟩
            exact absurd hcount.configsFromFormData (by decide)
          · rintro ⟨-, hold⟩
            exact absurd (hold hkept).2.1 (by simp)
      | none =>
          change draft.defaultConfig.tally.Quiet ↔ _
          subst hform
          rw [quiet_defaultConfig_iff]
          simp [hkept]
  | dropped =>
      simp only [hrole, reduceCtorEq, false_iff, not_not] at hkept hform
      rw [Tally.quiet_add_iff]
      constructor
      · rintro ⟨-, hcount⟩
        exact absurd hcount.droppedKeys (by decide)
      · rintro ⟨-, hold⟩
        exact absurd (hold hkept).1 hform
  | kept =>
      simp only [hrole, true_iff] at hkept
      simp [hkept]

/-- Nothing is counted exactly if every old key met on the way is a form without
`form_data`, with a `config` already in the new block. -/
theorem quiet_addAll_iff {data : Members Value} :
    (empty.addAll data).tally.Quiet ↔
      ∀ before key value after, data = before ++ (key, value) :: after →
        key ∈ oldKeys → key = "targets_form" ∧ formData? value = none ∧
          "config" ∈ (Entries.keys before).filterMap newKey? := by
  have hblock : ∀ before : Members Value,
      "config" ∈ Entries.keys (empty.addAll before).block ↔
        "config" ∈ (Entries.keys before).filterMap newKey? := by
    intro before
    rw [keys_addAll_empty, List.mem_eraseDups]
  -- Members are taken off the end, where the draft holds all those before them.
  induction data using List.reverseRecOn with
  | nil => simp [empty, Tally.quiet_zero]
  | append_singleton data member ih =>
      rw [addAll_append, addAll_cons, addAll_nil, quiet_add_iff, hblock]
      apply (and_congr_left' ih).trans
      constructor
      · rintro ⟨hdata, hlast⟩ before key value after heq hold
        rcases List.eq_nil_or_concat after with rfl | ⟨middle, last, rfl⟩
        · obtain ⟨rfl, hmember⟩ := List.append_inj' heq rfl
          cases hmember
          exact hlast hold
        · rw [List.concat_eq_append, ← List.cons_append, ← List.append_assoc] at heq
          exact hdata before key value middle (List.append_inj' heq rfl).1 hold
      · intro hall
        refine ⟨fun before key value after heq => ?_, ?_⟩
        · exact hall before key value (after ++ [member]) (by rw [heq]; simp)
        · exact hall data member.1 member.2 [] rfl

end Draft

theorem config_mem_newKeys_iff {keys : List String} :
    "config" ∈ keys.filterMap newKey? ↔ "config" ∈ keys ∨ "targets_form" ∈ keys := by
  rw [List.mem_filterMap]
  constructor
  · rintro ⟨key, hmem, hnew⟩
    rcases newKey?_eq_config_iff.mp hnew with rfl | rfl
    · exact Or.inl hmem
    · exact Or.inr hmem
  · rintro (hmem | hmem)
    · exact ⟨"config", hmem, by decide⟩
    · exact ⟨"targets_form", hmem, by decide⟩

/-- The conversion of a block is not counted exactly if the block is unreported. -/
theorem quiet_draft_iff {data : Members Value} (hnodup : (Entries.keys data).Nodup) :
    (draft data).tally.Quiet ↔ Unreported data := by
  rw [draft_eq, Draft.quiet_defaultConfig_iff, Draft.quiet_addAll_iff,
    Draft.keys_addAll_empty, List.mem_eraseDups]
  constructor
  · rintro ⟨hrun, hconfig⟩
    have hfirst : ∀ before form after, data = before ++ ("targets_form", form) :: after →
        formData? form = none ∧ "config" ∈ Entries.keys before := by
      rintro before form after rfl
      obtain ⟨-, hform, hbefore⟩ :=
        hrun before "targets_form" form after rfl (by decide)
      refine ⟨hform, (config_mem_newKeys_iff.mp hbefore).resolve_right fun hmem => ?_⟩
      rw [Entries.keys_append] at hnodup
      exact (List.nodup_append.mp hnodup).2.2 _ hmem _ List.mem_cons_self rfl
    refine ⟨fun key hmem hold => ?_, ?_, hfirst⟩
    · obtain ⟨value, hvalue⟩ := Entries.mem_keys_iff.mp hmem
      obtain ⟨before, after, rfl⟩ := List.append_of_mem hvalue
      exact (hrun before key value after rfl hold).1
    · rcases config_mem_newKeys_iff.mp hconfig with hmem | hmem
      · exact hmem
      · obtain ⟨form, hform⟩ := Entries.mem_keys_iff.mp hmem
        obtain ⟨before, after, rfl⟩ := List.append_of_mem hform
        rw [Entries.keys_append]
        exact List.mem_append_left _ (hfirst before form after rfl).2
  · intro hunreported
    refine ⟨?_, config_mem_newKeys_iff.mpr (Or.inl hunreported.has_config)⟩
    rintro before key value after rfl hold
    have hmem : key ∈ Entries.keys (before ++ (key, value) :: after) := by
      rw [Entries.keys_append]
      exact List.mem_append_right _ List.mem_cons_self
    have hkey := hunreported.only_form key hmem hold
    subst hkey
    obtain ⟨hform, hbefore⟩ := hunreported.form_after_config before value after rfl
    exact ⟨rfl, hform, config_mem_newKeys_iff.mpr (Or.inl hbefore)⟩

end NodeData

namespace Flow

/-! ## Flows and documents -/

theorem quiet_nodeTally_iff {node : Value} :
    (nodeTally node).Quiet ↔
      ∀ data, dataBlock? node = some data → (NodeData.draft data).tally.Quiet := by
  rw [nodeTally]
  cases hblock : dataBlock? node with
  | none => exact iff_of_true ⟨rfl, rfl, rfl, rfl⟩ (by simp)
  | some data =>
      have hseen : ({ nodesTotal := 1, nodesConverted := 1 } : Tally).Quiet :=
        ⟨rfl, rfl, rfl, rfl⟩
      simp [Tally.quiet_add_iff, hseen]

theorem flowId_report_eq_none_iff {flow : Value} (hreadable : Readable flow)
    (wrapped : Bool) : (report wrapped flow).flowId = none ↔ IdKept flow := by
  rw [idKept_iff, report, Option.map_eq_none_iff, Option.bind_eq_none_iff]
  apply forall₂_congr
  intro id hmember
  obtain ⟨new, hnew⟩ := hreadable.id_fits id hmember
  rw [replacement?_of_newId? hnew, hnew, Except.ok.injEq]

/-- The report on a flow is quiet exactly if the identifier is kept and the
conversion of no data block is counted. -/
theorem quiet_report_iff {flow : Value} (hdistinct : flow.DistinctKeys)
    (hreadable : Readable flow) (wrapped : Bool) :
    (report wrapped flow).Quiet ↔
      IdKept flow ∧ ∀ data ∈ dataBlocks flow, NodeData.Unreported data := by
  have htally : (report wrapped flow).tally.Quiet ↔
      ∀ data ∈ dataBlocks flow, NodeData.Unreported data := by
    rw [report, Tally.quiet_sum_iff, List.forall_mem_map]
    constructor
    · intro hquiet data hdata
      have hnodup := nodup_keys_of_mem_dataBlocks hdistinct hdata
      obtain ⟨node, hmem, hblock⟩ := List.mem_filterMap.mp hdata
      exact (NodeData.quiet_draft_iff hnodup).mp
        (quiet_nodeTally_iff.mp (hquiet node hmem) data hblock)
    · intro hunreported node hmem
      apply quiet_nodeTally_iff.mpr
      intro data hblock
      have hdata : data ∈ dataBlocks flow := List.mem_filterMap.mpr ⟨node, hmem, hblock⟩
      have hnodup := nodup_keys_of_mem_dataBlocks hdistinct hdata
      exact (NodeData.quiet_draft_iff hnodup).mpr (hunreported data hdata)
  rw [← flowId_report_eq_none_iff hreadable wrapped, ← htally]
  exact ⟨fun hquiet => ⟨hquiet.flowId, hquiet.tally⟩, fun h => ⟨h.1, h.2⟩⟩

end Flow

namespace Document

/-- A document that is changed although no change is counted: the identifier is kept
and every data block is unreported, but one of them has a form. -/
structure ChangedUnreported (document : Value) : Prop where
  id_kept : Flow.IdKept (flow document)
  unreported : ∀ data ∈ Flow.dataBlocks (flow document), NodeData.Unreported data
  has_form : ∃ data ∈ Flow.dataBlocks (flow document),
    "targets_form" ∈ Entries.keys data

/-- An unchanged document has a quiet report, and a quiet report is given for a
changed document exactly if the document hides a form behind a `config`. -/
theorem quiet_report_of_changed_iff {document : Value} {migration : Migration}
    (hdistinct : document.DistinctKeys) (hok : migrate document = .ok migration) :
    (migration.document = document → migration.report.Quiet) ∧
      (migration.report.Quiet ∧ migration.document ≠ document ↔
        ChangedUnreported document) := by
  obtain ⟨hreadable, rfl⟩ := migrate_eq_ok_iff.mp hok
  have hflow := distinctKeys_flow hdistinct
  have hquiet := Flow.quiet_report_iff hflow hreadable (isWrapped document)
  have hsame := Flow.migrated_eq_self_iff hflow hreadable
  rw [← migrated_eq_self_iff] at hsame
  simp only [NodeData.conforms_iff_unreported] at hsame
  constructor
  · intro hunchanged
    obtain ⟨hkept, hblocks⟩ := hsame.mp hunchanged
    exact hquiet.mpr ⟨hkept, fun data hdata => (hblocks data hdata).1⟩
  · constructor
    · rintro ⟨hreport, hchanged⟩
      obtain ⟨hkept, hblocks⟩ := hquiet.mp hreport
      refine ⟨hkept, hblocks, ?_⟩
      by_contra hnone
      exact hchanged (hsame.mpr ⟨hkept, fun data hdata =>
        ⟨hblocks data hdata, fun hform => hnone ⟨data, hdata, hform⟩⟩⟩)
    · rintro ⟨hkept, hblocks, data, hdata, hform⟩
      refine ⟨hquiet.mpr ⟨hkept, hblocks⟩, fun hunchanged => ?_⟩
      exact ((hsame.mp hunchanged).2 data hdata).2 hform

/-- A data block whose form is empty and comes after its `config`. -/
def hiddenBlock : Members Value :=
  [("config", .object [("keep", .bool true)]), ("targets_form", .object [])]

def hiddenForm : Value :=
  .object [("nodes", .array [.object [("data", .object hiddenBlock)]])]

theorem quiet_report_of_hiddenForm :
    ∃ migration, migrate hiddenForm = .ok migration ∧ migration.report.Quiet ∧
      migration.document ≠ hiddenForm := by
  have hdistinct : hiddenForm.DistinctKeys := by decide
  have hok : migrate hiddenForm = .ok ⟨migrated hiddenForm,
      Flow.report (isWrapped hiddenForm) (flow hiddenForm)⟩ := rfl
  have hid : (flow hiddenForm).member? "id" = none := rfl
  have hblocks : Flow.dataBlocks (flow hiddenForm) = [hiddenBlock] := rfl
  have hunreported : NodeData.Unreported hiddenBlock :=
    (NodeData.quiet_draft_iff (by decide)).mp ⟨rfl, rfl, rfl, rfl⟩
  have hchanged : ChangedUnreported hiddenForm := by
    refine ⟨fun number hnumber => ?_, ?_, hiddenBlock, ?_, by decide⟩
    · rw [hid] at hnumber
      cases hnumber
    · rw [hblocks, List.forall_mem_singleton]
      exact hunreported
    · rw [hblocks]
      exact List.mem_singleton_self hiddenBlock
  exact ⟨_, hok, (quiet_report_of_changed_iff hdistinct hok).2.mpr hchanged⟩

end Document

end FlowMigration

import FlowMigration.Proofs.Flow.Quiet
import FlowMigration.Proofs.Json.Number

/-!
# What a report counts

The counts of a report are added up key by key and node by node, while the new
document is made.  Here they are read off the old document: a key is counted as
renamed or dropped wherever it stands, a form that carries `form_data` is counted once
for its block, and a `config` is made up for a block without `form_data` exactly if
no `config` stands before its form.
-/

namespace FlowMigration

open Json (Members Number Value)

namespace Tally

/-! ## Sums, count by count -/

section Add

variable (left right : Tally)

@[simp]
theorem nodesTotal_add :
    (left + right).nodesTotal = left.nodesTotal + right.nodesTotal := rfl

@[simp]
theorem nodesConverted_add :
    (left + right).nodesConverted = left.nodesConverted + right.nodesConverted := rfl

@[simp]
theorem renamedKeys_add :
    (left + right).renamedKeys = left.renamedKeys + right.renamedKeys := rfl

@[simp]
theorem configsFromFormData_add :
    (left + right).configsFromFormData =
      left.configsFromFormData + right.configsFromFormData := rfl

@[simp]
theorem configsDefaulted_add :
    (left + right).configsDefaulted =
      left.configsDefaulted + right.configsDefaulted := rfl

@[simp]
theorem droppedKeys_add :
    (left + right).droppedKeys = left.droppedKeys + right.droppedKeys := rfl

end Add

end Tally

namespace NodeData

/-! ## The counts of a block, read off the block -/

def renamedNames : List String :=
  ["sources", "targets"]

def droppedNames : List String :=
  ["json_schema", "ui_schema"]

/-- The `targets_form` of a block is an object with `form_data`. -/
def HasFormData (data : Members Value) : Prop :=
  ∃ form, Entries.get? data "targets_form" = some (.object form) ∧
    "form_data" ∈ Entries.keys form

/-- A block without `form_data` has no `config`, or has it after a `targets_form`. -/
def LacksConfig (data : Members Value) : Prop :=
  ¬HasFormData data ∧
    ("config" ∉ Entries.keys data ∨
      (Entries.keys data).idxOf "targets_form" < (Entries.keys data).idxOf "config")

theorem hasFormData_iff {data : Members Value} :
    HasFormData data ↔
      ((Entries.get? data "targets_form").bind formData?).isSome = true := by
  cases hform : Entries.get? data "targets_form" with
  | none => simp [HasFormData, hform]
  | some value =>
      cases value <;> simp [HasFormData, hform, formData?, Entries.isSome_get?_iff]

instance (data : Members Value) : Decidable (HasFormData data) :=
  decidable_of_iff _ hasFormData_iff.symm

instance (data : Members Value) : Decidable (LacksConfig data) :=
  inferInstanceAs (Decidable (_ ∧ _))

/-- What the conversion of a block counts. -/
def account (data : Members Value) : Tally where
  renamedKeys := (Entries.keys data).countP (· ∈ renamedNames)
  configsFromFormData := if HasFormData data then 1 else 0
  configsDefaulted := if LacksConfig data then 1 else 0
  droppedKeys := (Entries.keys data).countP (· ∈ droppedNames)

theorem mem_renamedNames_iff {key : String} :
    key ∈ renamedNames ↔ ∃ newKey, role key = .renamed newKey := by
  simp only [renamedNames, role, List.mem_cons, List.not_mem_nil, or_false]
  split_ifs <;> simp_all

theorem mem_droppedNames_iff {key : String} :
    key ∈ droppedNames ↔ role key = .dropped := by
  simp only [droppedNames, role, List.mem_cons, List.not_mem_nil, or_false]
  split_ifs <;> simp_all

theorem lacksConfig_nil : LacksConfig [] := by
  simp [LacksConfig, HasFormData, Entries.get?]

/-- Whether a `config` is lacking is settled by the first member that leads to one. -/
theorem lacksConfig_cons {key : String} {value : Value} {rest : Members Value} :
    LacksConfig ((key, value) :: rest) ↔
      key ≠ "config" ∧
        if key = "targets_form" then formData? value = none else LacksConfig rest := by
  simp only [LacksConfig, hasFormData_iff, Entries.keys_cons, List.mem_cons,
    Entries.get?, List.idxOf_cons]
  by_cases hconfig : key = "config"
  · simp [hconfig]
  · by_cases hform : key = "targets_form"
    · simp [hform]
    · have hconfigFirst : (key == "config") = false := by simpa using hconfig
      have hformFirst : (key == "targets_form") = false := by simpa using hform
      simp [hconfig, hform, Ne.symm hconfig, hconfigFirst, hformFirst]

namespace Draft

/-! ## What one member adds to the counts -/

theorem tally_defaultConfig (draft : Draft) :
    draft.defaultConfig.tally = draft.tally +
      { configsDefaulted := if "config" ∈ Entries.keys draft.block then 0 else 1 } := by
  rw [defaultConfig]
  split
  · next hconfig =>
      rw [if_pos (Entries.contains_iff.mp hconfig)]
      rfl
  · next hconfig => rw [if_neg fun hmem => hconfig (Entries.contains_iff.mpr hmem)]

theorem tally_add (draft : Draft) (key : String) (value : Value) :
    (draft.add key value).tally = draft.tally +
      { renamedKeys := if key ∈ renamedNames then 1 else 0
        configsFromFormData :=
          if key = "targets_form" ∧ (formData? value).isSome then 1 else 0
        configsDefaulted :=
          if key = "targets_form" ∧ formData? value = none ∧
            "config" ∉ Entries.keys draft.block then 1 else 0
        droppedKeys := if key ∈ droppedNames then 1 else 0 } := by
  have hrenamed := @mem_renamedNames_iff key
  simp only [mem_droppedNames_iff, ← role_eq_form_iff]
  rw [add]
  cases hrole : role key with
  | renamed newKey =>
      simp only [hrole, Role.renamed.injEq, exists_eq', iff_true] at hrenamed
      simp [hrenamed]
  | form =>
      simp only [hrole, reduceCtorEq, exists_false, iff_false] at hrenamed
      cases hdata : formData? value with
      | some config => simp [hrenamed]
      | none => simp [hrenamed, tally_defaultConfig]
  | dropped =>
      simp only [hrole, reduceCtorEq, exists_false, iff_false] at hrenamed
      simp [hrenamed]
  | kept =>
      simp only [hrole, reduceCtorEq, exists_false, iff_false] at hrenamed
      simp only [hrenamed, reduceCtorEq, false_and, if_false]
      rfl

/-! ## What a run of members adds to the counts -/

/-- Each member is counted for its own key, whatever comes before it.  Only a `config`
is made up with regard to that, and once at most. -/
theorem tally_addAll (draft : Draft) (data : Members Value) :
    (draft.addAll data).defaultConfig.tally = draft.tally +
      { renamedKeys := (Entries.keys data).countP (· ∈ renamedNames)
        configsFromFormData := data.countP fun member =>
          member.1 = "targets_form" ∧ (formData? member.2).isSome
        configsDefaulted :=
          if "config" ∉ Entries.keys draft.block ∧ LacksConfig data then 1 else 0
        droppedKeys := (Entries.keys data).countP (· ∈ droppedNames) } := by
  -- The draft varies: of what was added, only the presence of a `config` matters.
  induction data generalizing draft with
  | nil =>
      rw [addAll_nil, tally_defaultConfig]
      by_cases hmem : "config" ∈ Entries.keys draft.block
      · simp [hmem]
      · simp [hmem, lacksConfig_nil]
  | cons member rest ih =>
      obtain ⟨key, value⟩ := member
      rw [addAll_cons, ih, tally_add, add_assoc]
      congr 1
      ext
      · rfl
      · rfl
      · simp [List.countP_cons, add_comm]
      · simp [List.countP_cons, add_comm]
      · simp only [mem_keys_add, newKey?_eq_config_iff, lacksConfig_cons,
          Tally.configsDefaulted_add]
        by_cases hmem : "config" ∈ Entries.keys draft.block
        · simp [hmem]
        · by_cases hconfig : key = "config"
          · simp [hconfig]
          · by_cases hform : key = "targets_form"
            · simp [hmem, hform]
            · simp [hmem, hconfig, hform]
      · simp [List.countP_cons, add_comm]

end Draft

/-- With distinct keys, a block has one form at most. -/
theorem countP_formData {data : Members Value} (hnodup : (Entries.keys data).Nodup) :
    (data.countP fun member =>
        member.1 = "targets_form" ∧ (formData? member.2).isSome) =
      if HasFormData data then 1 else 0 := by
  simp only [hasFormData_iff]
  induction data with
  | nil => rfl
  | cons member rest ih =>
      obtain ⟨key, value⟩ := member
      rw [Entries.keys_cons, List.nodup_cons] at hnodup
      rw [List.countP_cons, ih hnodup.2]
      by_cases hform : key = "targets_form"
      · subst hform
        have hrest := Entries.get?_eq_none_iff.mpr hnodup.1
        simp [Entries.get?, hrest]
      · simp [Entries.get?, hform]

theorem tally_draft {data : Members Value} (hnodup : (Entries.keys data).Nodup) :
    (draft data).tally = account data := by
  rw [draft_eq, Draft.tally_addAll, countP_formData hnodup]
  simp [Draft.empty, account]

end NodeData

namespace Flow

/-! ## The counts of a list of nodes -/

/-- What the migration of a list of nodes counts. -/
def account (nodes : List Value) : Tally where
  nodesTotal := nodes.length
  nodesConverted := (nodes.filterMap dataBlock?).length
  renamedKeys := ((nodes.filterMap dataBlock?).map fun data =>
    (Entries.keys data).countP (· ∈ NodeData.renamedNames)).sum
  configsFromFormData := (nodes.filterMap dataBlock?).countP (NodeData.HasFormData ·)
  configsDefaulted := (nodes.filterMap dataBlock?).countP (NodeData.LacksConfig ·)
  droppedKeys := ((nodes.filterMap dataBlock?).map fun data =>
    (Entries.keys data).countP (· ∈ NodeData.droppedNames)).sum

/-- The counts are added up node by node, and every block is counted once. -/
theorem sum_nodeTally {nodes : List Value}
    (hnodup : ∀ data ∈ nodes.filterMap dataBlock?, (Entries.keys data).Nodup) :
    (nodes.map nodeTally).sum = account nodes := by
  induction nodes with
  | nil => rfl
  | cons node rest ih =>
      rw [List.map_cons, List.sum_cons]
      cases hblock : dataBlock? node with
      | none =>
          rw [List.filterMap_cons_none hblock] at hnodup
          rw [ih hnodup, nodeTally, hblock]
          ext <;> simp [account, hblock, add_comm]
      | some data =>
          rw [List.filterMap_cons_some hblock, List.forall_mem_cons] at hnodup
          have hnode : nodeTally node = NodeData.account data +
              { nodesTotal := 1, nodesConverted := 1 } := by
            rw [← NodeData.tally_draft hnodup.1, nodeTally, hblock]
          rw [hnode, ih hnodup.2]
          ext <;> simp [account, hblock, NodeData.account, List.countP_cons, add_comm]

theorem tally_report {flow : Value} (hdistinct : flow.DistinctKeys) (wrapped : Bool) :
    (report wrapped flow).tally = account (nodeList flow) :=
  sum_nodeTally fun _ hdata => nodup_keys_of_mem_dataBlocks hdistinct hdata

/-! ## The new identifier -/

/-- An identifier is reported exactly if the old one is an integer. -/
theorem isSome_flowId_report_iff {flow : Value} (hreadable : Readable flow)
    (wrapped : Bool) :
    (report wrapped flow).flowId.isSome = true ↔
      ∃ number n, flow.member? "id" = some (.number number) ∧
        number.IntegerText n := by
  simp only [← Number.integer?_eq_some_iff]
  rw [Option.isSome_iff_ne_none, ne_eq, flowId_report_eq_none_iff hreadable, IdKept]
  simp only [not_forall, ← ne_eq, Option.ne_none_iff_exists', exists_prop]
  constructor
  · rintro ⟨number, hid, n, hinteger⟩
    exact ⟨number, n, hid, hinteger⟩
  · rintro ⟨number, n, hid, hinteger⟩
    exact ⟨number, hid, n, hinteger⟩

/-- The identifier that is reported is the one that the new flow has. -/
theorem member?_id_of_flowId_report {flow : Value} {wrapped : Bool} {id : String}
    (hreport : (report wrapped flow).flowId = some id) :
    (migrated flow).member? "id" = some (.string id) := by
  rw [report, Option.map_eq_some_iff] at hreport
  obtain ⟨uuid, hbind, rfl⟩ := hreport
  obtain ⟨old, hold, hreplaced⟩ := Option.bind_eq_some_iff.mp hbind
  rw [member?_id_migrated, hold, Option.map_some, migratedId, hreplaced]

end Flow

namespace Document

theorem isWrapped_iff {document : Value} :
    isWrapped document = true ↔
      ∃ root inner, document = .object root ∧ Entries.get? root "flow" = some inner := by
  rw [isWrapped, wrappedFlow?_eq_member?, Option.isSome_iff_exists]
  constructor
  · rintro ⟨inner, hinner⟩
    obtain ⟨root, hroot, hget⟩ := Value.eq_object_of_member? hinner
    exact ⟨root, inner, hroot, hget⟩
  · rintro ⟨root, inner, rfl, hget⟩
    exact ⟨inner, hget⟩

/-- What a report says of a migration: whether the document wraps its flow, whether an
integer identifier was replaced and by what, and the counts of the nodes. -/
theorem migrate_report_accounts {document : Value} {migration : Migration}
    (hdistinct : document.DistinctKeys) (hok : migrate document = .ok migration) :
    (migration.report.wrapped = true ↔
        ∃ root inner, document = .object root ∧
          Entries.get? root "flow" = some inner) ∧
      (migration.report.flowId.isSome = true ↔
        ∃ number n, (flow document).member? "id" = some (.number number) ∧
          number.IntegerText n) ∧
      (∀ id, migration.report.flowId = some id →
        (flow migration.document).member? "id" = some (.string id)) ∧
      migration.report.tally = Flow.account (Flow.nodeList (flow document)) := by
  obtain ⟨hreadable, rfl⟩ := migrate_eq_ok_iff.mp hok
  have htally := Flow.tally_report (distinctKeys_flow hdistinct) (isWrapped document)
  refine ⟨isWrapped_iff, Flow.isSome_flowId_report_iff hreadable _, ?_, htally⟩
  intro id hid
  rw [flow_migrated]
  exact Flow.member?_id_of_flowId_report hid

/-- A wrapped flow with an integer identifier.  Of its blocks, one has a `config` and
a form with `form_data`, one has its `config` after an empty form and one before it,
and one is empty; the last node is no object. -/
def countedExample : Value :=
  .object
    [("flow", .object
      [("id", .number (Number.ofNat 7)),
        ("nodes", .array
          [.object [("data", .object
            [("sources", .null), ("config", .null), ("outputs", .null),
              ("targets_form", .object [("form_data", .null)]),
              ("targets", .null)])],
            .object [("data", .object
              [("targets_form", .object []), ("config", .null),
                ("json_schema", .null)])],
            .object [("data", .object
              [("config", .null), ("targets_form", .object []),
                ("ui_schema", .null)])],
            .object [("data", .object [])],
            .null])])]

theorem distinctKeys_countedExample : countedExample.DistinctKeys := by decide

theorem migrate_report_accounts_countedExample :
    ∃ migration, migrate countedExample = .ok migration ∧
      migration.report.wrapped = true ∧
      migration.report.flowId.isSome = true ∧
      migration.report.tally =
        { nodesTotal := 5, nodesConverted := 4, renamedKeys := 2
          configsFromFormData := 1, configsDefaulted := 2, droppedKeys := 2 } := by
  obtain ⟨migration, hok⟩ : ∃ migration, migrate countedExample = .ok migration :=
    exists_migration (by decide +kernel)
  obtain ⟨hwrapped, hflowId, -, htally⟩ :=
    migrate_report_accounts distinctKeys_countedExample hok
  refine ⟨migration, hok, hwrapped.mpr ⟨_, _, rfl, rfl⟩, hflowId.mpr ?_,
    htally.trans rfl⟩
  exact ⟨Number.ofNat 7, 7, rfl,
    Number.integer?_eq_some_iff.mp (Number.integer?_ofNat 7)⟩

end Document

end FlowMigration

import FlowMigration.Proofs.Flow.Conformance

/-!
# What a migration preserves

A document in the new layout is a fixed point of the migration, so a second migration
changes nothing.  Distinct keys stay distinct, and no key that marks a number is made.
-/

namespace FlowMigration

open Json (Members Number Value)

namespace Flow

/-! ## Data blocks and identifiers -/

theorem dataBlock?_eq_some_iff {node : Value} {data : Members Value} :
    dataBlock? node = some data ↔ node.member? "data" = some (.object data) := by
  rw [dataBlock?]
  cases hcontent : node.member? "data" with
  | none => simp
  | some content => cases content <;> simp

/-- The data blocks of a flow, in order. -/
def dataBlocks (flow : Value) : List (Members Value) :=
  (nodeList flow).filterMap dataBlock?

theorem mem_dataBlocks_iff {flow : Value} {data : Members Value} :
    data ∈ dataBlocks flow ↔
      ∃ nodes node, flow.member? "nodes" = some (.array nodes) ∧ node ∈ nodes ∧
        node.member? "data" = some (.object data) := by
  simp only [dataBlocks, nodeList, List.mem_filterMap, dataBlock?_eq_some_iff]
  cases hvalue : flow.member? "nodes" with
  | none => simp
  | some value => cases value <;> simp

theorem nodup_keys_of_mem_dataBlocks {flow : Value} (hdistinct : flow.DistinctKeys)
    {data : Members Value} (hdata : data ∈ dataBlocks flow) :
    (Entries.keys data).Nodup := by
  obtain ⟨nodes, node, hnodes, hmem, hblock⟩ := mem_dataBlocks_iff.mp hdata
  have hlist := Value.distinctKeys_array_iff.mp (hdistinct.of_member? hnodes)
  have hdata := (hlist node hmem).of_member? hblock
  exact (Value.distinctKeys_object_iff.mp hdata).1

/-- The identifier of a flow is no integer, so that it is left as it is. -/
def IdKept (flow : Value) : Prop :=
  ∀ number : Number, flow.member? "id" = some (.number number) →
    number.integer? = none

theorem idKept_iff {flow : Value} :
    IdKept flow ↔ ∀ id, flow.member? "id" = some id → newId? id = .ok none := by
  constructor
  · intro hkept id hid
    apply newId?_eq_none
    rintro number rfl
    exact hkept number hid
  · exact fun hnone number hid => no_integer_of_newId?_none (hnone _ hid) rfl

/-- The new layout is said of a whole flow; this is the same, part by part. -/
theorem conforms_iff {members : Members Value} :
    Conforms members ↔
      Readable (.object members) ∧ IdKept (.object members) ∧
        ∀ data ∈ dataBlocks (.object members), NodeData.Conforms data := by
  constructor
  · intro hconforms
    have hkept : IdKept (.object members) := hconforms.id_no_integer
    refine ⟨⟨⟨members, rfl⟩, fun id hid => ⟨none, idKept_iff.mp hkept id hid⟩, ?_⟩,
      hkept, ?_⟩
    · intro value hvalue
      obtain ⟨nodes, rfl, hnodes⟩ := hconforms.nodes_conform value hvalue
      refine ⟨nodes, rfl, fun node hmem content hcontent => ?_⟩
      obtain ⟨inner, rfl, hget⟩ := Value.eq_object_of_member? hcontent
      obtain ⟨data, rfl, -⟩ := hnodes _ hmem inner content rfl hget
      exact ⟨data, rfl⟩
    · intro data hdata
      obtain ⟨nodes, node, hvalue, hmem, hblock⟩ := mem_dataBlocks_iff.mp hdata
      obtain ⟨list, hlist, hnodes⟩ := hconforms.nodes_conform _ hvalue
      cases hlist
      obtain ⟨inner, rfl, hget⟩ := Value.eq_object_of_member? hblock
      obtain ⟨block, hsame, hconform⟩ := hnodes _ hmem inner _ rfl hget
      cases hsame
      exact hconform
  · rintro ⟨hreadable, hkept, hblocks⟩
    refine ⟨hkept, fun value hvalue => ?_⟩
    obtain ⟨nodes, rfl, hnodes⟩ := hreadable.nodes_readable value hvalue
    refine ⟨nodes, rfl, ?_⟩
    rintro node hmem inner content rfl hget
    obtain ⟨data, rfl⟩ := hnodes _ hmem content hget
    have hdata : data ∈ dataBlocks (.object members) :=
      mem_dataBlocks_iff.mpr ⟨nodes, _, hvalue, hmem, hget⟩
    exact ⟨data, rfl, hblocks data hdata⟩

/-! ## Fixed points -/

theorem migratedId_eq_self_iff {id : Value} {new : Option Uuid}
    (hnew : newId? id = .ok new) : migratedId id = id ↔ newId? id = .ok none := by
  cases new with
  | none => exact ⟨fun _ => hnew, migratedId_of_none⟩
  | some uuid =>
      rw [migratedId_of_some hnew, hnew]
      apply iff_of_false
      · intro hsame
        rw [← hsame] at hnew
        simp [newId?] at hnew
      · simp

theorem migratedData_eq_self_iff {data : Members Value}
    (hnodup : (Entries.keys data).Nodup) :
    migratedData (.object data) = .object data ↔ NodeData.Conforms data := by
  rw [migratedData, Value.object.injEq]
  exact NodeData.migrate_eq_self_iff hnodup

theorem migratedNodes_eq_self_iff {nodes : List Value} :
    migratedNodes (.array nodes) = .array nodes ↔
      ∀ node ∈ nodes, migratedNode node = node := by
  rw [migratedNodes, Value.array.injEq]
  induction nodes with
  | nil => simp
  | cons node rest ih =>
      rw [List.map_cons, List.cons.injEq, ih, List.forall_mem_cons]

/-- A migration leaves the nodes as they are exactly if every data block is in the
new layout. -/
theorem nodes_eq_self_iff {flow : Value} (hdistinct : flow.DistinctKeys)
    (hreadable : Readable flow) :
    (∀ value, flow.member? "nodes" = some value → migratedNodes value = value) ↔
      ∀ data ∈ dataBlocks flow, NodeData.Conforms data := by
  constructor
  · intro hsame data hdata
    have hnodup := nodup_keys_of_mem_dataBlocks hdistinct hdata
    obtain ⟨nodes, node, hvalue, hmem, hblock⟩ := mem_dataBlocks_iff.mp hdata
    have hnode := migratedNodes_eq_self_iff.mp (hsame _ hvalue) node hmem
    exact (migratedData_eq_self_iff hnodup).mp
      (Value.mapMember_eq_self_iff.mp hnode _ hblock)
  · intro hconforms value hvalue
    obtain ⟨nodes, rfl, hnodes⟩ := hreadable.nodes_readable value hvalue
    apply migratedNodes_eq_self_iff.mpr
    intro node hmem
    apply Value.mapMember_eq_self_iff.mpr
    intro content hcontent
    obtain ⟨data, rfl⟩ := hnodes node hmem content hcontent
    have hdata := mem_dataBlocks_iff.mpr ⟨nodes, node, hvalue, hmem, hcontent⟩
    have hnodup := nodup_keys_of_mem_dataBlocks hdistinct hdata
    exact (migratedData_eq_self_iff hnodup).mpr (hconforms data hdata)

/-- A migration leaves a flow as it is exactly if its identifier is kept and every
data block is in the new layout. -/
theorem migrated_eq_self_iff {flow : Value} (hdistinct : flow.DistinctKeys)
    (hreadable : Readable flow) :
    migrated flow = flow ↔
      IdKept flow ∧ ∀ data ∈ dataBlocks flow, NodeData.Conforms data := by
  have hid : (∀ id, flow.member? "id" = some id → migratedId id = id) ↔
      IdKept flow := by
    rw [idKept_iff]
    apply forall₂_congr
    intro id hmember
    obtain ⟨new, hnew⟩ := hreadable.id_fits id hmember
    exact migratedId_eq_self_iff hnew
  rw [← hid, ← nodes_eq_self_iff hdistinct hreadable]
  constructor
  · intro hsame
    constructor
    · intro id hmember
      have hnew := member?_id_migrated flow
      rw [hsame, hmember] at hnew
      exact (Option.some.inj hnew).symm
    · intro value hmember
      have hnew := member?_nodes_migrated flow
      rw [hsame, hmember] at hnew
      exact (Option.some.inj hnew).symm
  · rintro ⟨hsameId, hsameNodes⟩
    have hfirst : flow.mapMember "id" migratedId = flow :=
      Value.mapMember_eq_self_iff.mpr hsameId
    rw [migrated, hfirst]
    exact Value.mapMember_eq_self_iff.mpr hsameNodes

/-! ## Keys of all objects -/

section EachObject

variable {P : List String → Prop}

theorem eachObject_migratedId {id : Value} (hid : id.EachObject P) :
    (migratedId id).EachObject P := by
  rw [migratedId]
  cases replacement? id with
  | none => exact hid
  | some uuid => trivial

theorem eachObject_migratedData (hkept : NodeData.KeptKeys P) {content : Value}
    (hcontent : content.EachObject P) : (migratedData content).EachObject P := by
  cases content with
  | object data => exact NodeData.eachObject_migrate hkept hcontent
  | _ => exact hcontent

theorem eachObject_migratedNodes (hkept : NodeData.KeptKeys P) {value : Value}
    (hvalue : value.EachObject P) : (migratedNodes value).EachObject P := by
  cases value with
  | array nodes =>
      rw [migratedNodes, Value.eachObject_array_iff, List.forall_mem_map]
      intro node hmem
      have hnode := Value.eachObject_array_iff.mp hvalue node hmem
      exact hnode.mapMember fun _ => eachObject_migratedData hkept
  | _ => exact hvalue

theorem eachObject_migrated (hkept : NodeData.KeptKeys P) {flow : Value}
    (hflow : flow.EachObject P) : (migrated flow).EachObject P :=
  (hflow.mapMember fun _ => eachObject_migratedId).mapMember fun _ =>
    eachObject_migratedNodes hkept

end EachObject

end Flow

namespace Document

theorem distinctKeys_flow {document : Value} (hdistinct : document.DistinctKeys) :
    (flow document).DistinctKeys := by
  rw [flow, wrappedFlow?_eq_member?]
  cases hwrapped : document.member? "flow" with
  | none => exact hdistinct
  | some inner => exact hdistinct.of_member? hwrapped

theorem eachObject_migrated {P : List String → Prop} (hkept : NodeData.KeptKeys P)
    {document : Value} (hdocument : document.EachObject P) :
    (migrated document).EachObject P := by
  rw [migrated]
  split
  · exact hdocument.mapMember fun _ => Flow.eachObject_migrated hkept
  · exact Flow.eachObject_migrated hkept hdocument

theorem distinctKeys_migrated {document : Value} (hdistinct : document.DistinctKeys) :
    (migrated document).DistinctKeys :=
  eachObject_migrated NodeData.keptKeys_nodup hdistinct

/-- A migration makes no key that marks a number. -/
theorem unmarked_migrated {document : Value} (hunmarked : document.Unmarked) :
    (migrated document).Unmarked :=
  eachObject_migrated (NodeData.keptKeys_not_mem (by decide)) hunmarked

theorem migrated_eq_self_iff {document : Value} :
    migrated document = document ↔ Flow.migrated (flow document) = flow document := by
  rw [migrated, isWrapped, flow, wrappedFlow?_eq_member?]
  cases hwrapped : document.member? "flow" with
  | none => rfl
  | some inner =>
      rw [Option.isSome_some, if_pos rfl, Value.mapMember_eq_self_iff, hwrapped]
      simp

theorem conforms_migrated {document : Value}
    (hreadable : Flow.Readable (flow document)) : Conforms (migrated document) := by
  obtain ⟨old, hold⟩ := hreadable.is_object
  obtain ⟨new, hnew, -⟩ := Flow.migrated_object old
  rw [← hold] at hnew
  exact ⟨new, (flow_migrated document).trans hnew,
    Flow.conforms_migrated hreadable hnew⟩

/-- A document in the new layout is migrated to itself. -/
theorem migrate_of_conforms {document : Value} (hdistinct : document.DistinctKeys)
    (hconforms : Conforms document) :
    migrate document =
      .ok ⟨document, Flow.report (isWrapped document) (flow document)⟩ := by
  obtain ⟨members, hflow, hmembers⟩ := hconforms
  have hdistinctFlow := distinctKeys_flow hdistinct
  rw [hflow] at hdistinctFlow
  obtain ⟨hreadable, hparts⟩ := Flow.conforms_iff.mp hmembers
  have hsame : migrated document = document := by
    rw [migrated_eq_self_iff, hflow]
    exact (Flow.migrated_eq_self_iff hdistinctFlow hreadable).mpr hparts
  rw [migrate_eq_ok_iff, hsame, hflow]
  exact ⟨hreadable, rfl⟩

/-- A second migration succeeds and changes nothing. -/
theorem migrate_migrated {document : Value} {migration : Migration}
    (hdistinct : document.DistinctKeys) (hok : migrate document = .ok migration) :
    ∃ report, migrate migration.document = .ok ⟨migration.document, report⟩ := by
  obtain ⟨hreadable, rfl⟩ := migrate_eq_ok_iff.mp hok
  exact ⟨_, migrate_of_conforms (distinctKeys_migrated hdistinct)
    (conforms_migrated hreadable)⟩

end Document

end FlowMigration

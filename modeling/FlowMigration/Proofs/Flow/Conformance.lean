import FlowMigration.Proofs.Flow.Result

/-!
# The new layout

A migrated document is in the new layout, whatever the old one was like, and a
document in the new layout is left as it is.  So a migration does its work once: a
second one changes nothing.
-/

namespace FlowMigration

open Json (Members Number Value)

namespace Flow

/-! ## The migrated flow -/

theorem member?_id_migrated (flow : Value) :
    (migrated flow).member? "id" = (flow.member? "id").map migratedId := by
  rw [migrated, Value.member?_mapMember, if_neg (by decide), Value.member?_mapMember,
    if_pos rfl]

theorem member?_nodes_migrated (flow : Value) :
    (migrated flow).member? "nodes" = (flow.member? "nodes").map migratedNodes := by
  rw [migrated, Value.member?_mapMember, if_pos rfl, member?_nodes_mapMember_id]

theorem member?_migrated_of_ne {key : String} (hid : key ≠ "id")
    (hnodes : key ≠ "nodes") (flow : Value) :
    (migrated flow).member? key = flow.member? key := by
  rw [migrated, Value.member?_mapMember, if_neg hnodes.symm, Value.member?_mapMember,
    if_neg hid.symm]

/-- A migration keeps the sequence of the keys of the flow. -/
theorem migrated_object (members : Members Value) :
    ∃ updated, migrated (.object members) = .object updated ∧
      Entries.keys updated = Entries.keys members := by
  obtain ⟨middle, hmiddle, hkeys⟩ := Value.mapMember_object "id" migratedId members
  obtain ⟨updated, hupdated, hsame⟩ :=
    Value.mapMember_object "nodes" migratedNodes middle
  exact ⟨updated, by rw [migrated, hmiddle, hupdated], hsame.trans hkeys⟩

/-! ## Identifiers -/

/-- A value is left as it is exactly if it is no integer, or none that fits. -/
theorem newId?_eq_none {id : Value}
    (hid : ∀ number : Number, id = .number number → number.integer? = none) :
    newId? id = .ok none := by
  cases id with
  | number number =>
      have hnumber := hid number rfl
      simp [newId?, hnumber]
  | _ => rfl

theorem no_integer_of_newId?_none {id : Value} (hid : newId? id = .ok none)
    {number : Number} (hnumber : id = .number number) : number.integer? = none := by
  subst hnumber
  cases hinteger : number.integer? with
  | none => rfl
  | some n =>
      cases huuid : Uuid.ofInt? n <;> simp [newId?, hinteger, huuid] at hid

theorem migratedId_of_none {id : Value} (hid : newId? id = .ok none) :
    migratedId id = id := by
  rw [migratedId, replacement?_of_newId? hid]

theorem migratedId_of_some {id : Value} {uuid : Uuid}
    (hid : newId? id = .ok (some uuid)) :
    migratedId id = .string (toString uuid) := by
  rw [migratedId, replacement?_of_newId? hid]

/-- An identifier that is accepted is no integer afterwards. -/
theorem migratedId_no_integer {id : Value} {new : Option Uuid}
    (hid : newId? id = .ok new) {number : Number}
    (hnumber : migratedId id = .number number) : number.integer? = none := by
  cases new with
  | none =>
      rw [migratedId_of_none hid] at hnumber
      exact no_integer_of_newId?_none hid hnumber
  | some uuid =>
      rw [migratedId_of_some hid] at hnumber
      exact absurd hnumber (by simp)

/-! ## Nodes -/

theorem member?_data_migratedNode (node : Value) :
    (migratedNode node).member? "data" = (node.member? "data").map migratedData := by
  rw [migratedNode, Value.member?_mapMember, if_pos rfl]

/-- The data block of a migrated node has distinct keys and is in the new layout. -/
theorem conforms_of_member?_migratedNode {node content : Value}
    (hnode : NodeReadable node)
    (hcontent : (migratedNode node).member? "data" = some content) :
    ∃ data, content = .object data ∧ (Entries.keys data).Nodup ∧
      NodeData.Conforms data := by
  rw [member?_data_migratedNode, Option.map_eq_some_iff] at hcontent
  obtain ⟨old, hold, rfl⟩ := hcontent
  obtain ⟨data, rfl⟩ := hnode old hold
  exact ⟨_, rfl, NodeData.nodup_keys_migrate data, NodeData.conforms_migrate data⟩

/-! ## The migrated flow is in the new layout -/

theorem id_no_integer_migrated {flow : Value} (hreadable : Readable flow)
    {new : Members Value} (hnew : migrated flow = .object new) {number : Number}
    (hnumber : Entries.get? new "id" = some (.number number)) :
    number.integer? = none := by
  have hid := member?_id_migrated flow
  rw [hnew, Value.member?, hnumber, eq_comm, Option.map_eq_some_iff] at hid
  obtain ⟨id, hmember, hmigrated⟩ := hid
  obtain ⟨uuid, huuid⟩ := hreadable.id_fits id hmember
  exact migratedId_no_integer huuid hmigrated

theorem nodes_migrated {flow : Value} (hreadable : Readable flow)
    {new : Members Value} (hnew : migrated flow = .object new) {value : Value}
    (hvalue : Entries.get? new "nodes" = some value) :
    ∃ nodes, value = .array nodes ∧
      ∀ members content, .object members ∈ nodes →
        Entries.get? members "data" = some content →
          ∃ data, content = .object data ∧ (Entries.keys data).Nodup ∧
            NodeData.Conforms data := by
  have hnodes := member?_nodes_migrated flow
  rw [hnew, Value.member?, hvalue, eq_comm, Option.map_eq_some_iff] at hnodes
  obtain ⟨list, hmember, rfl⟩ := hnodes
  obtain ⟨nodes, rfl, hall⟩ := hreadable.nodes_readable list hmember
  refine ⟨nodes.map migratedNode, rfl, fun members content hmem hcontent => ?_⟩
  obtain ⟨node, hnode, hmigrated⟩ := List.mem_map.mp hmem
  apply conforms_of_member?_migratedNode (hall node hnode)
  rw [hmigrated]
  exact hcontent

theorem conforms_migrated {flow : Value} (hreadable : Readable flow)
    {new : Members Value} (hnew : migrated flow = .object new) : Conforms new where
  id_no_integer _ hnumber := id_no_integer_migrated hreadable hnew hnumber
  nodes_conform value hvalue := by
    obtain ⟨nodes, rfl, hall⟩ := nodes_migrated hreadable hnew hvalue
    refine ⟨nodes, rfl, ?_⟩
    rintro node hnode members content rfl hcontent
    obtain ⟨data, rfl, -, hconforms⟩ := hall members content hnode hcontent
    exact ⟨data, rfl, hconforms⟩

end Flow

namespace Document

theorem wrappedFlow?_migrated (document : Value) :
    wrappedFlow? (migrated document) =
      (wrappedFlow? document).map Flow.migrated := by
  rw [wrappedFlow?_eq_member?, wrappedFlow?_eq_member?, migrated, isWrapped,
    wrappedFlow?_eq_member?]
  cases hwrapped : document.member? "flow" with
  | none =>
      rw [if_neg (by simp), Flow.member?_migrated_of_ne (by decide) (by decide),
        hwrapped]
      rfl
  | some inner =>
      rw [Option.isSome_some, if_pos rfl, Value.member?_mapMember, if_pos rfl, hwrapped]

theorem isWrapped_migrated (document : Value) :
    isWrapped (migrated document) = isWrapped document := by
  rw [isWrapped, wrappedFlow?_migrated, Option.isSome_map, isWrapped]

/-- The flow of the migrated document is the migrated flow. -/
theorem flow_migrated (document : Value) :
    flow (migrated document) = Flow.migrated (flow document) := by
  rw [flow, wrappedFlow?_migrated, flow, migrated, isWrapped]
  cases wrappedFlow? document <;> rfl

/-- Whatever a document is like, its migration ends in the new layout: the flow is an
object that has an identifier if it had one before, the identifier is no integer,
the nodes are a list, and every data block is an object with distinct keys, with a
`config` and without the old keys. -/
theorem migrate_new_layout {document : Value} {migration : Migration}
    (hok : migrate document = .ok migration) :
    ∃ old new : Members Value,
      flow document = .object old ∧ flow migration.document = .object new ∧
      ("id" ∈ Entries.keys new ↔ "id" ∈ Entries.keys old) ∧ Flow.Conforms new ∧
      ∀ nodes members data, Entries.get? new "nodes" = some (.array nodes) →
        .object members ∈ nodes → Entries.get? members "data" = some (.object data) →
          (Entries.keys data).Nodup := by
  obtain ⟨hreadable, rfl⟩ := migrate_eq_ok_iff.mp hok
  obtain ⟨old, hold⟩ := hreadable.is_object
  obtain ⟨new, hnew, hkeys⟩ := Flow.migrated_object old
  rw [← hold] at hnew
  refine ⟨old, new, hold, (flow_migrated document).trans hnew, by rw [hkeys],
    Flow.conforms_migrated hreadable hnew, ?_⟩
  intro nodes members data hnodes hmem hdata
  obtain ⟨list, hlist, hall⟩ := Flow.nodes_migrated hreadable hnew hnodes
  cases hlist
  obtain ⟨block, hblock, hnodup, -⟩ := hall members (.object data) hmem hdata
  cases hblock
  exact hnodup

/-- A wrapped flow with an integer identifier, a block that has all the old keys in
an unusual order, and a node that is no object. -/
def wrappedExample : Value :=
  .object
    [("bookmarks", .array [.bool true]),
      ("flow", .object
        [("nodes", .array
          [.object
            [("data", .object
              [("ui_schema", .null), ("targets", .array []), ("config", .null),
                ("targets_form", .object [("form_data", .bool true)]),
                ("outputs", .null), ("sources", .string "s"),
                ("json_schema", .null)])],
            .null]),
        ("id", .number (Number.ofNat 255))])]

theorem migrate_new_layout_wrappedExample :
    ∃ migration new, migrate wrappedExample = .ok migration ∧
      flow migration.document = .object new ∧ "id" ∈ Entries.keys new ∧
      Flow.Conforms new := by
  have hsome : (migrate wrappedExample).toOption.isSome = true := by decide +kernel
  cases hok : migrate wrappedExample with
  | error error => simp [hok, Except.toOption] at hsome
  | ok migration =>
      obtain ⟨old, new, hold, hnew, hid, hconforms, -⟩ := migrate_new_layout hok
      refine ⟨migration, new, rfl, hnew, hid.mpr ?_, hconforms⟩
      cases hold
      decide

end Document

end FlowMigration

import FlowMigration.Proofs.Flow.NodeData

/-!
# The result of a migration

A migration is a run that logs and may fail.  Its result is restated without the log:
which documents it accepts, and what it makes of one as a composition of steps that
each replace the value under one key.  Everything that is said about the migrated
document and its report is derived from these equations.
-/

namespace FlowMigration

open Json (Members Number Value)

namespace Logged

variable {ε α β : Type}

@[simp]
theorem result_pure (value : α) : (pure value : Logged ε α).result = .ok value := rfl

@[simp]
theorem result_log (events : List Event) :
    (log events : Logged ε Unit).result = .ok () := rfl

@[simp]
theorem result_fail (error : ε) : (fail error : Logged ε α).result = .error error := rfl

@[simp]
theorem result_map (f : α → β) (run : Logged ε α) :
    (f <$> run).result = run.result.map f := rfl

@[simp]
theorem result_mapError {δ : Type} (restate : ε → δ) (run : Logged ε α) :
    (run.mapError restate).result = run.result.mapError restate := rfl

@[simp]
theorem result_bind (run : Logged ε α) (next : α → Logged ε β) :
    (run >>= next).result = run.result.bind fun value => (next value).result := by
  obtain ⟨events, result⟩ := run
  cases result <;> rfl

end Logged

namespace Tally

instance : AddCommMonoid Tally where
  add_assoc := Tally.add_assoc
  zero_add := Tally.zero_add
  add_zero := Tally.add_zero
  add_comm left right := by ext <;> exact Nat.add_comm _ _
  nsmul := nsmulRec

end Tally

namespace Flow

/-! ## Nodes -/

/-- The data block of a node, if it has one that is an object. -/
def dataBlock? (node : Value) : Option (Members Value) :=
  match node.member? "data" with
  | some (.object data) => some data
  | _ => none

/-- A node has no data, or data that is an object. -/
def NodeReadable (node : Value) : Prop :=
  ∀ value, node.member? "data" = some value → ∃ data, value = .object data

def migratedData : Value → Value
  | .object data => .object (NodeData.migrate data)
  | value => value

def migratedNode (node : Value) : Value :=
  node.mapMember "data" migratedData

def nodeTally (node : Value) : Tally :=
  match dataBlock? node with
  | some data =>
      (NodeData.draft data).tally + { nodesTotal := 1, nodesConverted := 1 }
  | none => { nodesTotal := 1 }

theorem result_migrateNode_of_readable {node : Value} (hnode : NodeReadable node)
    (wrapped : Bool) (index : ℕ) :
    (migrateNode wrapped index node).result =
      .ok (migratedNode node, nodeTally node) := by
  cases hdata : node.member? "data" with
  | none =>
      rw [migratedNode, Value.mapMember_of_member?_none hdata, nodeTally, dataBlock?,
        hdata]
      cases node with
      | object members =>
          rw [Value.member?] at hdata
          simp [migrateNode, hdata]
      | _ => rfl
  | some value =>
      obtain ⟨data, rfl⟩ := hnode value hdata
      obtain ⟨members, rfl, hget⟩ := Value.eq_object_of_member? hdata
      rw [migratedNode, Value.mapMember_object_of_get? hget, nodeTally, dataBlock?,
        hdata]
      simp [migrateNode, hget, Except.bind, migratedData, NodeData.migrate]

theorem result_migrateNode_of_not_readable {node : Value}
    (hnode : ¬NodeReadable node) (wrapped : Bool) (index : ℕ) :
    (migrateNode wrapped index node).result =
      .error (.invalidShape ⟨wrapped, .nodeData index⟩) := by
  simp only [NodeReadable, not_forall] at hnode
  obtain ⟨value, hdata, hshape⟩ := hnode
  obtain ⟨members, rfl, hget⟩ := Value.eq_object_of_member? hdata
  cases value with
  | object data => exact absurd ⟨data, rfl⟩ hshape
  | _ => simp [migrateNode, hget]

theorem result_migrateNodes_of_readable {nodes : List Value}
    (hnodes : ∀ node ∈ nodes, NodeReadable node) (wrapped : Bool) (index : ℕ) :
    (migrateNodes wrapped index nodes).result =
      .ok (nodes.map migratedNode, (nodes.map nodeTally).sum) := by
  induction nodes generalizing index with
  | nil => rfl
  | cons node rest ih =>
      have hnode := hnodes node List.mem_cons_self
      have hrest := ih (fun other hother => hnodes other (List.mem_cons_of_mem _ hother))
      simp [migrateNodes, result_migrateNode_of_readable hnode, hrest, Except.bind,
        Except.map]

theorem readable_of_migrateNodes_ok {nodes : List Value} {wrapped : Bool} {index : ℕ}
    {migration : List Value × Tally}
    (hok : (migrateNodes wrapped index nodes).result = .ok migration) :
    ∀ node ∈ nodes, NodeReadable node := by
  induction nodes generalizing index migration with
  | nil => simp
  | cons node rest ih =>
      by_cases hnode : NodeReadable node
      · simp only [migrateNodes, Logged.result_bind, Logged.result_map,
          result_migrateNode_of_readable hnode, Except.bind] at hok
        cases hrest : (migrateNodes wrapped (index + 1) rest).result with
        | error error => simp [hrest, Except.map] at hok
        | ok others =>
            rw [List.forall_mem_cons]
            exact ⟨hnode, ih hrest⟩
      · simp [migrateNodes, result_migrateNode_of_not_readable hnode,
          Except.bind] at hok

/-! ## The flow -/

/-- The identifier that replaces a value of `id`, if it is replaced. -/
def replacement? (id : Value) : Option Uuid :=
  (newId? id).toOption.join

def migratedId (id : Value) : Value :=
  match replacement? id with
  | some uuid => .string (toString uuid)
  | none => id

def migratedNodes : Value → Value
  | .array nodes => .array (nodes.map migratedNode)
  | value => value

/-- The flow in the new layout. -/
def migrated (flow : Value) : Value :=
  (flow.mapMember "id" migratedId).mapMember "nodes" migratedNodes

/-- The nodes of a flow; without a list of them there are none. -/
def nodeList (flow : Value) : List Value :=
  match flow.member? "nodes" with
  | some (.array nodes) => nodes
  | _ => []

def report (wrapped : Bool) (flow : Value) : Report where
  wrapped := wrapped
  flowId := ((flow.member? "id").bind replacement?).map toString
  tally := ((nodeList flow).map nodeTally).sum

/-- What a flow has to be for its migration to succeed. -/
structure Readable (flow : Value) : Prop where
  is_object : ∃ members, flow = .object members
  id_fits : ∀ id, flow.member? "id" = some id → ∃ new, newId? id = .ok new
  nodes_readable : ∀ value, flow.member? "nodes" = some value →
    ∃ nodes, value = .array nodes ∧ ∀ node ∈ nodes, NodeReadable node

theorem replacement?_of_newId? {id : Value} {new : Option Uuid}
    (hnew : newId? id = .ok new) : replacement? id = new := by
  rw [replacement?, hnew]
  rfl

theorem result_migrateId {flow : Members Value}
    (hid : ∀ id, Entries.get? flow "id" = some id → ∃ new, newId? id = .ok new) :
    ∃ updated, (Value.object flow).mapMember "id" migratedId = .object updated ∧
      (migrateId flow).result =
        .ok (updated, (Entries.get? flow "id").bind replacement?) := by
  cases hget : Entries.get? flow "id" with
  | none =>
      refine ⟨flow, by simp [Value.mapMember, hget], ?_⟩
      simp [migrateId, hget]
  | some id =>
      obtain ⟨new, hnew⟩ := hid id hget
      have hreplacement := replacement?_of_newId? hnew
      refine ⟨_, Value.mapMember_object_of_get? hget migratedId, ?_⟩
      rw [migratedId, Option.bind_some, hreplacement]
      cases new with
      | none => simp [migrateId, hget, hnew, Entries.insert_of_get? hget]
      | some uuid => simp [migrateId, hget, hnew, Except.bind]

theorem id_fits_of_migrateId_ok {flow : Members Value}
    {migration : Members Value × Option Uuid}
    (hok : (migrateId flow).result = .ok migration) :
    ∀ id, Entries.get? flow "id" = some id → ∃ new, newId? id = .ok new := by
  intro id hget
  cases hnew : newId? id with
  | ok new => exact ⟨new, rfl⟩
  | error error => simp [migrateId, hget, hnew] at hok

theorem result_migrateNodeList {flow : Members Value}
    (hnodes : ∀ value, Entries.get? flow "nodes" = some value →
      ∃ nodes, value = .array nodes ∧ ∀ node ∈ nodes, NodeReadable node)
    (wrapped : Bool) :
    ∃ updated, (Value.object flow).mapMember "nodes" migratedNodes =
        .object updated ∧
      (migrateNodeList wrapped flow).result =
        .ok (updated, ((nodeList (.object flow)).map nodeTally).sum) := by
  cases hget : Entries.get? flow "nodes" with
  | none =>
      refine ⟨flow, by simp [Value.mapMember, hget], ?_⟩
      simp [migrateNodeList, nodeList, Value.member?, hget]
  | some value =>
      obtain ⟨nodes, rfl, hreadable⟩ := hnodes value hget
      refine ⟨_, Value.mapMember_object_of_get? hget migratedNodes, ?_⟩
      simp [migrateNodeList, nodeList, Value.member?, hget, migratedNodes,
        result_migrateNodes_of_readable hreadable, Except.bind]

theorem nodes_readable_of_migrateNodeList_ok {flow : Members Value} {wrapped : Bool}
    {migration : Members Value × Tally}
    (hok : (migrateNodeList wrapped flow).result = .ok migration) :
    ∀ value, Entries.get? flow "nodes" = some value →
      ∃ nodes, value = .array nodes ∧ ∀ node ∈ nodes, NodeReadable node := by
  intro value hget
  cases value with
  | array nodes =>
      refine ⟨nodes, rfl, ?_⟩
      cases hnodes : (migrateNodes wrapped 0 nodes).result with
      | ok migrated => exact readable_of_migrateNodes_ok hnodes
      | error error => simp [migrateNodeList, hget, hnodes, Except.bind] at hok
  | _ => simp [migrateNodeList, hget] at hok

/-- Replacing the identifier leaves the nodes as they are. -/
theorem member?_nodes_mapMember_id (flow : Value) :
    (flow.mapMember "id" migratedId).member? "nodes" = flow.member? "nodes" := by
  rw [Value.member?_mapMember, if_neg (by decide)]

theorem nodeList_mapMember_id (flow : Value) :
    nodeList (flow.mapMember "id" migratedId) = nodeList flow := by
  rw [nodeList, member?_nodes_mapMember_id, nodeList]

theorem result_migrateLogged_of_readable {flow : Value} (hflow : Readable flow)
    (wrapped : Bool) :
    (migrateLogged wrapped flow).result = .ok (migrated flow, report wrapped flow) := by
  obtain ⟨members, rfl⟩ := hflow.is_object
  obtain ⟨updated, hupdated, hid⟩ := result_migrateId hflow.id_fits
  have hnodes : ∀ value, Entries.get? updated "nodes" = some value →
      ∃ nodes, value = .array nodes ∧ ∀ node ∈ nodes, NodeReadable node := by
    have hsame := member?_nodes_mapMember_id (.object members)
    rw [hupdated] at hsame
    exact fun value hget => hflow.nodes_readable value (hsame ▸ hget)
  obtain ⟨final, hfinal, hlist⟩ := result_migrateNodeList hnodes wrapped
  have htally := nodeList_mapMember_id (.object members)
  rw [hupdated] at htally
  simp only [migrateLogged, Logged.result_bind, hid, hlist, Except.bind,
    Logged.result_pure, migrated, hupdated, hfinal, report, htally]
  rfl

theorem readable_of_migrateLogged_ok {flow : Value} {wrapped : Bool}
    {migration : Value × Report}
    (hok : (migrateLogged wrapped flow).result = .ok migration) : Readable flow := by
  cases flow with
  | object members =>
      cases hid : (migrateId members).result with
      | error error => simp [migrateLogged, hid, Except.bind] at hok
      | ok first =>
          have hfits := id_fits_of_migrateId_ok hid
          obtain ⟨updated, hupdated, hresult⟩ := result_migrateId hfits
          rw [hresult] at hid
          cases hid
          cases hlist : (migrateNodeList wrapped updated).result with
          | error error =>
              simp [migrateLogged, hresult, hlist, Except.bind] at hok
          | ok second =>
              have hsame := member?_nodes_mapMember_id (.object members)
              rw [hupdated] at hsame
              refine ⟨⟨members, rfl⟩, hfits, fun value hget => ?_⟩
              exact nodes_readable_of_migrateNodeList_ok hlist value
                (hsame.trans hget)
  | _ => simp [migrateLogged] at hok

end Flow

/-! ## The document -/

namespace Document

/-- Whether a document wraps a flow. -/
def isWrapped (document : Value) : Bool :=
  (wrappedFlow? document).isSome

/-- The document in the new layout. -/
def migrated (document : Value) : Value :=
  if isWrapped document then document.mapMember "flow" Flow.migrated
  else Flow.migrated document

theorem wrappedFlow?_eq_member? (document : Value) :
    wrappedFlow? document = document.member? "flow" := by
  cases document <;> rfl

theorem result_migrateLogged_flow (document : Value) :
    (migrateLogged document).result =
      (Flow.migrateLogged (isWrapped document) (flow document)).result.map
        fun (new, report) =>
          ⟨if isWrapped document then replaceFlow new document else new, report⟩ := by
  cases hwrapped : wrappedFlow? document with
  | none =>
      simp only [migrateLogged, hwrapped, isWrapped, flow, Logged.result_bind,
        Option.getD_none, Option.isSome_none]
      cases (Flow.migrateLogged false document).result <;> rfl
  | some inner =>
      simp only [migrateLogged, hwrapped, isWrapped, flow, Logged.result_bind,
        Option.getD_some, Option.isSome_some]
      cases (Flow.migrateLogged true inner).result <;> rfl

theorem replaceFlow_migrated {document inner : Value}
    (hwrapped : wrappedFlow? document = some inner) :
    replaceFlow (Flow.migrated inner) document =
      document.mapMember "flow" Flow.migrated := by
  rw [wrappedFlow?_eq_member?] at hwrapped
  obtain ⟨root, rfl, hget⟩ := Value.eq_object_of_member? hwrapped
  rw [replaceFlow, Value.mapMember_object_of_get? hget]

/-- A migration succeeds exactly if the flow is readable, and then it gives the
migrated document with the report on its flow. -/
theorem migrate_eq_ok_iff {document : Value} {migration : Migration} :
    migrate document = .ok migration ↔
      Flow.Readable (flow document) ∧
        migration = ⟨migrated document,
          Flow.report (isWrapped document) (flow document)⟩ := by
  have hnew : (if isWrapped document = true then
      replaceFlow (Flow.migrated (flow document)) document
      else Flow.migrated (flow document)) = migrated document := by
    rw [migrated, isWrapped, flow]
    cases hwrapped : wrappedFlow? document with
    | none => rfl
    | some inner => simp [replaceFlow_migrated hwrapped]
  rw [migrate, result_migrateLogged_flow]
  constructor
  · intro hok
    cases hflow : (Flow.migrateLogged (isWrapped document) (flow document)).result with
    | error error => simp [hflow, Except.map] at hok
    | ok result =>
        have hreadable := Flow.readable_of_migrateLogged_ok hflow
        refine ⟨hreadable, ?_⟩
        rw [Flow.result_migrateLogged_of_readable hreadable] at hok
        simp only [Except.map, Except.ok.injEq] at hok
        rw [← hok, hnew]
  · rintro ⟨hreadable, rfl⟩
    rw [Flow.result_migrateLogged_of_readable hreadable]
    simp only [Except.map, hnew]

theorem exists_migration {document : Value}
    (hsome : (migrate document).toOption.isSome = true) :
    ∃ migration, migrate document = .ok migration := by
  cases hok : migrate document with
  | error error => simp [hok, Except.toOption] at hsome
  | ok migration => exact ⟨migration, rfl⟩

end Document

end FlowMigration

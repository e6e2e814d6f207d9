import FlowMigration.Flow.Log
import FlowMigration.Flow.MigrationError
import FlowMigration.Flow.NodeData

/-!
# Migration of a document

A document is a flow, or an object that wraps a flow under the key `flow`.  A
migration replaces an integer identifier of the flow by the text of the 128-bit
value it denotes, and converts the data block of every node.  All else stays as
it is, in its place.
-/

namespace FlowMigration

open Json (Members Number Value)

namespace Flow

/-- The new identifier that a value of `id` asks for.  Only a number that is
written without fraction and exponent is replaced. -/
def newId? : Value → Except MigrationError (Option Uuid)
  | .number number =>
      match number.integer? with
      | none => .ok none
      | some n =>
          match Uuid.ofInt? n with
          | some uuid => .ok (some uuid)
          | none => .error (.flowIdOutOfRange number)
  | _ => .ok none

/-- Replaces the identifier among the members of a flow. -/
def migrateId (flow : Members Value) :
    Logged MigrationError (Members Value × Option Uuid) :=
  match Entries.get? flow "id" with
  | none => pure (flow, none)
  | some id =>
      match newId? id with
      | .error error => Logged.fail error
      | .ok none => pure (flow, none)
      | .ok (some uuid) => do
          Logged.log [.flowIdReplaced id uuid]
          pure (Entries.insert flow "id" (.string (toString uuid)), some uuid)

/-- Converts the data block of the node at `index`. -/
def migrateNode (wrapped : Bool) (index : Nat) (node : Value) :
    Logged MigrationError (Value × Tally) :=
  match node with
  | .object members =>
      match Entries.get? members "data" with
      | none => pure (node, { nodesTotal := 1 })
      | some (.object data) => do
          let draft := NodeData.draft data
          Logged.log ((NodeData.discardedForms data).map .formDiscarded)
          Logged.log [.nodeConverted index]
          pure (.object (Entries.insert members "data" (.object draft.block)),
            draft.tally + { nodesTotal := 1, nodesConverted := 1 })
      | some _ => Logged.fail (.invalidShape ⟨wrapped, .nodeData index⟩)
  | _ => pure (node, { nodesTotal := 1 })

/-- Converts nodes in order, the first of which stands at `index`. -/
def migrateNodes (wrapped : Bool) :
    Nat → List Value → Logged MigrationError (List Value × Tally)
  | _, [] => pure ([], 0)
  | index, node :: rest => do
      let (node, tally) ← migrateNode wrapped index node
      (fun (rest, others) => (node :: rest, tally + others)) <$>
        migrateNodes wrapped (index + 1) rest

/-- Converts the node list among the members of a flow. -/
def migrateNodeList (wrapped : Bool) (flow : Members Value) :
    Logged MigrationError (Members Value × Tally) :=
  match Entries.get? flow "nodes" with
  | none => pure (flow, 0)
  | some (.array nodes) => do
      let (nodes, tally) ← migrateNodes wrapped 0 nodes
      pure (Entries.insert flow "nodes" (.array nodes), tally)
  | some _ => Logged.fail (.invalidShape ⟨wrapped, .nodes⟩)

/-- A flow in the new layout with its report. -/
def migrateLogged (wrapped : Bool) : Value → Logged MigrationError (Value × Report)
  | .object flow => do
      let (flow, uuid) ← migrateId flow
      let (flow, tally) ← migrateNodeList wrapped flow
      pure (.object flow, ⟨wrapped, uuid.map toString, tally⟩)
  | _ => Logged.fail (.invalidShape ⟨wrapped, .flow⟩)

/-- A flow that stands by itself, in the new layout. -/
def migrate (flow : Value) : Except MigrationError Value :=
  (migrateLogged false flow).result.map Prod.fst

end Flow

/-- A document in the new layout, with the report on what was changed. -/
structure Migration where
  document : Value
  report : Report

namespace Document

/-- The flow that a document wraps. -/
def wrappedFlow? : Value → Option Value
  | .object root => Entries.get? root "flow"
  | _ => none

/-- Puts a new flow in the place of the one that a document wraps. -/
def replaceFlow (flow : Value) : Value → Value
  | .object root => .object (Entries.insert root "flow" flow)
  | document => document

/-- A document in the new layout, with the events logged on the way. -/
def migrateLogged (document : Value) : Logged MigrationError Migration := do
  let migration ←
    match wrappedFlow? document with
    | some flow => do
        let (flow, report) ← Flow.migrateLogged true flow
        pure ⟨replaceFlow flow document, report⟩
    | none => do
        let (flow, report) ← Flow.migrateLogged false document
        pure ⟨flow, report⟩
  Logged.log [.migrationDone migration.report]
  pure migration

def migrate (document : Value) : Except MigrationError Migration :=
  (migrateLogged document).result

end Document

end FlowMigration

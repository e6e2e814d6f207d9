import FlowMigration.Flow.Migration

/-!
# Documents in the new layout

What it means for a document to be in the new layout, said of the document alone and
not through the migration: the flow is an object, its identifier is no integer, its
nodes are a list, and every data block has a `config` and none of the old keys.
-/

namespace FlowMigration

open Json (Members Number Value)

/-- The keys that only the old layout has. -/
def NodeData.oldKeys : List String :=
  ["sources", "targets", "targets_form", "json_schema", "ui_schema"]

structure NodeData.Conforms (data : Members Value) : Prop where
  has_config : "config" ∈ Entries.keys data
  no_old_key : ∀ key ∈ oldKeys, key ∉ Entries.keys data

/-- A node has no data block, or one that conforms. -/
def Flow.NodeConforms (node : Value) : Prop :=
  ∀ members value, node = .object members →
    Entries.get? members "data" = some value →
      ∃ data, value = .object data ∧ NodeData.Conforms data

structure Flow.Conforms (flow : Members Value) : Prop where
  id_no_integer : ∀ number : Number,
    Entries.get? flow "id" = some (.number number) → number.integer? = none
  nodes_conform : ∀ value, Entries.get? flow "nodes" = some value →
    ∃ nodes, value = .array nodes ∧ ∀ node ∈ nodes, NodeConforms node

namespace Document

/-- The flow of a document: the one that it wraps, or the document itself. -/
def flow (document : Value) : Value :=
  (wrappedFlow? document).getD document

def Conforms (document : Value) : Prop :=
  ∃ members, flow document = .object members ∧ Flow.Conforms members

end Document

end FlowMigration

import FlowMigration.Json.Number

/-!
# Migration errors

A migration fails when a part of the document that it has to look into is of the
wrong kind, or when an integer identifier does not fit in 128 bits.
-/

namespace FlowMigration

/-- A part of a flow that a migration looks into. -/
inductive Part where
  | flow
  | nodes
  | nodeData (index : Nat)
deriving DecidableEq, Repr

/-- Where a part stands: in a flow that is the document itself, or in one that the
document wraps. -/
structure Place where
  wrapped : Bool
  part : Part
deriving DecidableEq, Repr

inductive MigrationError where
  | invalidShape (place : Place)
  | flowIdOutOfRange (id : Json.Number)
deriving DecidableEq, Repr

namespace Part

/-- The kind of value that a part has to be. -/
def shape : Part → String
  | .flow => "object"
  | .nodes => "array"
  | .nodeData _ => "object"

end Part

namespace Place

/-- The path of a part from the root of the document. -/
def path : Place → String
  | ⟨false, .flow⟩ => "$"
  | ⟨false, .nodes⟩ => "nodes"
  | ⟨false, .nodeData index⟩ => "nodes[" ++ toString index ++ "].data"
  | ⟨true, .flow⟩ => "flow"
  | ⟨true, .nodes⟩ => "flow.nodes"
  | ⟨true, .nodeData index⟩ => "flow.nodes[" ++ toString index ++ "].data"

end Place

namespace MigrationError

def message : MigrationError → String
  | .invalidShape place =>
      "Invalid shape at '" ++ place.path ++ "': expected " ++ place.part.shape
  | .flowIdOutOfRange id =>
      "Flow id " ++ toString id ++ " does not fit in a 128-bit UUID"

end MigrationError

end FlowMigration

import FlowMigration.Json.Writer

/-!
# Migration reports

A report says what a migration changed.  Its counts are added up node by node, so
they form a structure of their own with an addition.
-/

namespace FlowMigration

@[ext]
structure Tally where
  nodesTotal : Nat := 0
  nodesConverted : Nat := 0
  renamedKeys : Nat := 0
  configsFromFormData : Nat := 0
  configsDefaulted : Nat := 0
  droppedKeys : Nat := 0
deriving DecidableEq, Repr

namespace Tally

instance : Zero Tally :=
  ⟨{}⟩

instance : Add Tally :=
  ⟨fun left right =>
    { nodesTotal := left.nodesTotal + right.nodesTotal
      nodesConverted := left.nodesConverted + right.nodesConverted
      renamedKeys := left.renamedKeys + right.renamedKeys
      configsFromFormData := left.configsFromFormData + right.configsFromFormData
      configsDefaulted := left.configsDefaulted + right.configsDefaulted
      droppedKeys := left.droppedKeys + right.droppedKeys }⟩

protected theorem zero_add (tally : Tally) : 0 + tally = tally := by
  ext <;> exact Nat.zero_add _

protected theorem add_zero (tally : Tally) : tally + 0 = tally :=
  rfl

protected theorem add_assoc (first second third : Tally) :
    first + second + third = first + (second + third) := by
  ext <;> exact Nat.add_assoc _ _ _

end Tally

/-- `flowId` is the new identifier of the flow, if it was replaced. -/
structure Report where
  wrapped : Bool
  flowId : Option String
  tally : Tally
deriving DecidableEq, Repr

namespace Report

/-- The report of a migration that found nothing to do, not even a node. -/
def blank : Report :=
  ⟨false, none, 0⟩

/-- The members of a report, in the order in which they are written. -/
def members (report : Report) : Json.Members Json.Value :=
  [("wrapped", .bool report.wrapped)] ++
    (report.flowId.map fun id => ("flow_id", Json.Value.string id)).toList ++
    [("nodes_total", .number (.ofNat report.tally.nodesTotal)),
      ("nodes_converted", .number (.ofNat report.tally.nodesConverted)),
      ("renamed_keys", .number (.ofNat report.tally.renamedKeys)),
      ("configs_from_form_data",
        .number (.ofNat report.tally.configsFromFormData)),
      ("configs_defaulted", .number (.ofNat report.tally.configsDefaulted)),
      ("dropped_keys", .number (.ofNat report.tally.droppedKeys))]

/-- The report as compact JSON; the identifier is left out when there is none. -/
def text (report : Report) : String :=
  (Json.Value.object report.members).compact

end Report

end FlowMigration

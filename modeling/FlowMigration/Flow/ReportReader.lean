import FlowMigration.Flow.Report
import FlowMigration.Json.Reader

/-!
# Reading reports

A report is read from an object with its fields in any order, or from an array of
all its values in the order in which they are written.  Other members of the
object are skipped: they must be JSON in form, but neither their depth nor the
surrogates in their strings matter, and they may repeat.  No key marks a number in
the text of a report.
-/

namespace FlowMigration.Report

open Json (Members Scan Value)

def fieldNames : List String :=
  ["wrapped", "flow_id", "nodes_total", "nodes_converted", "renamed_keys",
    "configs_from_form_data", "configs_defaulted", "dropped_keys"]

/-- The largest count that a report may hold, the last number of 64 bits. -/
def maxCount : Nat := 0xFFFFFFFFFFFFFFFF

def flag? : Option Value → Option Bool
  | some (.bool value) => some value
  | _ => none

/-- An identifier may be missing or null. -/
def flowId? : Option Value → Option (Option String)
  | some (.string text) => some (some text)
  | some .null | none => some none
  | some _ => none

def count? : Option Value → Option Nat
  | some (.number number) => number.natural?.filter fun n => n ≤ maxCount
  | _ => none

/-- The report with the given fields, if none is missing and none repeats. -/
def ofFields? (fields : Members Value) : Option Report := do
  if (Entries.keys fields).Nodup then
    let wrapped ← flag? (Entries.get? fields "wrapped")
    let flowId ← flowId? (Entries.get? fields "flow_id")
    let nodesTotal ← count? (Entries.get? fields "nodes_total")
    let nodesConverted ← count? (Entries.get? fields "nodes_converted")
    let renamedKeys ← count? (Entries.get? fields "renamed_keys")
    let configsFromFormData ←
      count? (Entries.get? fields "configs_from_form_data")
    let configsDefaulted ← count? (Entries.get? fields "configs_defaulted")
    let droppedKeys ← count? (Entries.get? fields "dropped_keys")
    some
      { wrapped, flowId
        tally :=
          { nodesTotal, nodesConverted, renamedKeys, configsFromFormData
            configsDefaulted, droppedKeys } }
  else none

/-- The report with the given values, if there is one for each field. -/
def ofValues? (values : List Value) : Option Report :=
  if values.length = fieldNames.length then ofFields? (fieldNames.zip values)
  else none

/-- Reads the value of a member: a field is kept, any other member is skipped. -/
def memberValue (steps : Nat) (name : String) : Scan (Option Value) := fun cs =>
  if name ∈ fieldNames then do
    let (value, cs) ← Json.Reader.value none Json.Reader.hexEscape steps Json.maxDepth cs
    .ok (some value, cs)
  else do
    let (_, cs) ← Json.Reader.value none Json.Reader.anyHexEscape steps steps cs
    .ok (none, cs)

/-- The members that were kept. -/
def keptFields (members : List (String × Option Value)) : Members Value :=
  members.filterMap fun (name, value) => value.map fun value => (name, value)

/-- Reads a report from its text. -/
def read? (text : String) : Option Report :=
  let source := text.toList
  let steps := source.length
  match Json.Reader.skipBlanks source with
  | '{' :: cs =>
      let member :=
        Json.Reader.member (Json.Reader.string Json.Reader.hexEscape steps)
          (memberValue steps)
      match Json.Reader.toEnd (Json.Reader.items .object member steps) cs with
      | .ok members => ofFields? (keptFields members)
      | .error _ => none
  | '[' :: cs =>
      let element :=
        Json.Reader.value none Json.Reader.hexEscape steps Json.maxDepth
      match Json.Reader.toEnd (Json.Reader.items .array element steps) cs with
      | .ok values => ofValues? values
      | .error _ => none
  | _ => none

end FlowMigration.Report

import FlowMigration.Flow.Report

/-!
# Node data

The data block of a node is converted key by key, in order.  Two keys are renamed,
two are dropped, and the `targets_form` gives its `form_data` as the `config`.  A
block without any `config` gets an empty one.

A renamed key sits where its first source sat, and of two sources the later one
gives the value.  An empty `config` never replaces one that is there.
-/

namespace FlowMigration.NodeData

open Json (Members Value)

/-- What becomes of a key. -/
inductive Role where
  | renamed (key : String)
  | form
  | dropped
  | kept
deriving DecidableEq, Repr

def role (key : String) : Role :=
  if key = "sources" then .renamed "outputs"
  else if key = "targets" then .renamed "inputs"
  else if key = "targets_form" then .form
  else if key = "json_schema" then .dropped
  else if key = "ui_schema" then .dropped
  else .kept

/-- The configuration that a form carries. -/
def formData? : Value → Option Value
  | .object form => Entries.get? form "form_data"
  | _ => none

/-- The keys of a form that is discarded although it is not empty. -/
def discardedKeys? : Value → Option (List String)
  | .object form =>
      if Entries.contains form "form_data" || form.isEmpty then none
      else some (Entries.keys form)
  | _ => none

/-- A block under construction, with the changes made so far. -/
structure Draft where
  block : Members Value
  tally : Tally

namespace Draft

def empty : Draft :=
  ⟨[], 0⟩

/-- Adds an empty configuration, unless there is one. -/
def defaultConfig (draft : Draft) : Draft :=
  if Entries.contains draft.block "config" then draft
  else
    { block := Entries.insert draft.block "config" (.object [])
      tally := draft.tally + { configsDefaulted := 1 } }

/-- Adds a member of the old block. -/
def add (draft : Draft) (key : String) (value : Value) : Draft :=
  match role key with
  | .renamed newKey =>
      { block := Entries.insert draft.block newKey value
        tally := draft.tally + { renamedKeys := 1 } }
  | .form =>
      match formData? value with
      | some config =>
          { block := Entries.insert draft.block "config" config
            tally := draft.tally + { configsFromFormData := 1 } }
      | none => draft.defaultConfig
  | .dropped => { draft with tally := draft.tally + { droppedKeys := 1 } }
  | .kept => { draft with block := Entries.insert draft.block key value }

end Draft

/-- The new block with the changes that lead to it. -/
def draft (data : Members Value) : Draft :=
  (data.foldl (fun draft member => draft.add member.1 member.2)
    Draft.empty).defaultConfig

/-- The data block of a node in the new layout. -/
def migrate (data : Members Value) : Members Value :=
  (draft data).block

/-- The keys of each form that is discarded although it is not empty. -/
def discardedForms (data : Members Value) : List (List String) :=
  data.filterMap fun (key, value) =>
    if key = "targets_form" then discardedKeys? value else none

end FlowMigration.NodeData

import FlowMigration.Proofs.Command.Conversion
import FlowMigration.Proofs.Flow.Fault

/-!
# The log of a conversion

What a conversion logs is said here of the document alone: the new identifier of the
flow, then the converted nodes in order up to the first one whose data is no object,
each with the warning about its form, and at the end the report.  A conversion that
fails has logged the work that was done before, and no report.
-/

namespace FlowMigration

open Json (Members Number Value)

/-- What an event is logged with. -/
structure LogRecord where
  level : Level
  message : String
  fields : List (String × Event.Field)
deriving DecidableEq

def Event.record (event : Event) : LogRecord :=
  ⟨event.level, event.message, event.fields⟩

namespace Logged

variable {ε α β : Type}

def records (run : Logged ε α) : List LogRecord :=
  run.events.map Event.record

@[simp]
theorem records_pure (value : α) : (pure value : Logged ε α).records = [] := rfl

@[simp]
theorem records_fail (error : ε) : (fail error : Logged ε α).records = [] := rfl

@[simp]
theorem records_map (f : α → β) (run : Logged ε α) : (f <$> run).records = run.records :=
  rfl

@[simp]
theorem records_mapError {δ : Type} (restate : ε → δ) (run : Logged ε α) :
    (run.mapError restate).records = run.records := rfl

/-- The second run logs only if the first one succeeds. -/
theorem records_bind (run : Logged ε α) (next : α → Logged ε β) :
    (run >>= next).records = run.records ++
      match run.result with
      | .ok value => (next value).records
      | .error _ => [] := by
  obtain ⟨events, result⟩ := run
  cases result with
  | ok value => exact List.map_append
  | error error => exact (List.append_nil _).symm

theorem records_bind_of_ok {run : Logged ε α} {value : α} (hok : run.result = .ok value)
    (next : α → Logged ε β) :
    (run >>= next).records = run.records ++ (next value).records := by
  rw [records_bind, hok]

theorem records_bind_of_error {run : Logged ε α} {error : ε}
    (herror : run.result = .error error) (next : α → Logged ε β) :
    (run >>= next).records = run.records := by
  rw [records_bind, herror, List.append_nil]

theorem records_bind_of_silent (run : Logged ε α) {next : α → Logged ε β}
    (hsilent : ∀ value, (next value).records = []) :
    (run >>= next).records = run.records := by
  cases hrun : run.result with
  | error error => rw [records_bind_of_error hrun]
  | ok value => rw [records_bind_of_ok hrun, hsilent, List.append_nil]

end Logged

namespace NodeData

/-- The warning about a form that is not empty and has no `form_data`. -/
def formWarning (data : Members Value) : List LogRecord :=
  match Entries.get? data "targets_form" with
  | some (.object form) =>
      if form = [] ∨ "form_data" ∈ Entries.keys form then []
      else
        [⟨.warning, "targets_form has no form_data; discarding it and defaulting config",
          [("keys", .texts (Entries.keys form))]⟩]
  | _ => []

/-- With distinct keys, a block has one form at most that is discarded. -/
theorem discardedForms_eq {data : Members Value} (hnodup : (Entries.keys data).Nodup) :
    discardedForms data =
      ((Entries.get? data "targets_form").bind discardedKeys?).toList := by
  induction data with
  | nil => rfl
  | cons member rest ih =>
      obtain ⟨key, value⟩ := member
      rw [Entries.keys_cons, List.nodup_cons] at hnodup
      have hrest := ih hnodup.2
      rw [discardedForms] at hrest ⊢
      by_cases hform : key = "targets_form"
      · subst hform
        rw [Entries.get?_eq_none_iff.mpr hnodup.1] at hrest
        cases hkeys : discardedKeys? value <;>
          simp [Entries.get?, hkeys, hrest]
      · simp [Entries.get?, hform, hrest]

theorem records_discardedForms {data : Members Value}
    (hnodup : (Entries.keys data).Nodup) :
    ((discardedForms data).map Event.formDiscarded).map Event.record =
      formWarning data := by
  rw [discardedForms_eq hnodup, formWarning]
  cases Entries.get? data "targets_form" with
  | none => rfl
  | some value =>
      cases value with
      | object form =>
          rw [Option.bind_some, discardedKeys?]
          simp only [Bool.or_eq_true, Entries.contains_iff, List.isEmpty_iff,
            or_comm (a := form = [])]
          split <;> rfl
      | _ => rfl

end NodeData

namespace Flow

/-! ## Nodes -/

theorem nodeReadable_iff {node : Value} :
    NodeReadable node ↔ node.member? "data" = none ∨ (dataBlock? node).isSome = true := by
  rw [NodeReadable, dataBlock?]
  cases node.member? "data" with
  | none => simp
  | some value => cases value <;> simp

instance (node : Value) : Decidable (NodeReadable node) :=
  decidable_of_iff _ nodeReadable_iff.symm

/-- What is logged of a node: nothing unless it has a data block. -/
def nodeRecords (index : ℕ) (node : Value) : List LogRecord :=
  match dataBlock? node with
  | some data =>
      NodeData.formWarning data ++
        [⟨.debug, "Converted node data", [("node", .text (toString index))]⟩]
  | none => []

/-- What is logged of a list of nodes: they are told in order, up to the first one whose
data is no object. -/
def nodesRecords (nodes : List Value) : List LogRecord :=
  (nodes.takeWhile (NodeReadable ·)).zipIdx.flatMap fun (node, index) =>
    nodeRecords index node

theorem records_migrateNode_of_readable {node : Value} (hnode : NodeReadable node)
    (hnodup : ∀ data, dataBlock? node = some data → (Entries.keys data).Nodup)
    (wrapped : Bool) (index : ℕ) :
    (migrateNode wrapped index node).records = nodeRecords index node := by
  cases hdata : node.member? "data" with
  | none =>
      rw [nodeRecords, dataBlock?, hdata]
      cases node with
      | object members =>
          rw [Value.member?] at hdata
          simp [migrateNode, hdata]
      | _ => rfl
  | some value =>
      obtain ⟨data, rfl⟩ := hnode value hdata
      have hblock := dataBlock?_eq_some_iff.mpr hdata
      obtain ⟨members, rfl, hget⟩ := Value.eq_object_of_member? hdata
      have hwarning := NodeData.records_discardedForms (hnodup data hblock)
      simp only [nodeRecords, hblock, ← hwarning, migrateNode, hget]
      exact List.map_append

theorem records_migrateNode_of_not_readable {node : Value} (hnode : ¬NodeReadable node)
    (wrapped : Bool) (index : ℕ) : (migrateNode wrapped index node).records = [] := by
  simp only [NodeReadable, not_forall] at hnode
  obtain ⟨value, hdata, hshape⟩ := hnode
  obtain ⟨members, rfl, hget⟩ := Value.eq_object_of_member? hdata
  cases value with
  | object data => exact absurd ⟨data, rfl⟩ hshape
  | _ => simp [migrateNode, hget]

theorem records_migrateNodes {nodes : List Value}
    (hnodup : ∀ data ∈ nodes.filterMap dataBlock?, (Entries.keys data).Nodup)
    (wrapped : Bool) (start : ℕ) :
    (migrateNodes wrapped start nodes).records =
      ((nodes.takeWhile (NodeReadable ·)).zipIdx start).flatMap fun (node, index) =>
        nodeRecords index node := by
  -- The index in a record counts from `start`, so `start` grows with each node.
  induction nodes generalizing start with
  | nil => rfl
  | cons node rest ih =>
      by_cases hnode : NodeReadable node
      · have hfirst : ∀ data, dataBlock? node = some data → (Entries.keys data).Nodup := by
          intro data hblock
          exact hnodup data (List.mem_filterMap.mpr ⟨node, List.mem_cons_self, hblock⟩)
        have hothers : ∀ data ∈ rest.filterMap dataBlock?, (Entries.keys data).Nodup := by
          intro data hmem
          obtain ⟨other, hother, hblock⟩ := List.mem_filterMap.mp hmem
          exact hnodup data
            (List.mem_filterMap.mpr ⟨other, List.mem_cons_of_mem _ hother, hblock⟩)
        rw [migrateNodes,
          Logged.records_bind_of_ok (result_migrateNode_of_readable hnode wrapped start),
          records_migrateNode_of_readable hnode hfirst, Logged.records_map,
          ih hothers (start + 1)]
        simp [hnode]
      · rw [migrateNodes, Logged.records_bind_of_error
            (result_migrateNode_of_not_readable hnode wrapped start),
          records_migrateNode_of_not_readable hnode]
        simp [hnode]

/-! ## The flow -/

/-- The identifier of a flow is an integer that does not fit in 128 bits. -/
def IdOutOfRange (flow : Value) : Prop :=
  ∃ number n, flow.member? "id" = some (.number number) ∧ number.IntegerText n ∧
    (n < 0 ∨ 2 ^ 128 ≤ n)

/-- What is logged of the identifier of a flow: that it was replaced, if it is an integer
that fits in 128 bits. -/
inductive IdLog (flow : Value) : List LogRecord → Prop
  | replaced {number : Number} {uuid : Uuid}
      (hid : flow.member? "id" = some (.number number))
      (hinteger : number.IntegerText uuid.value) :
      IdLog flow [⟨.debug, "Normalized flow id",
        [("old", .text (toString number)), ("new", .text (toString uuid))]⟩]
  | kept (hkept : ∀ (number : Number) (n : ℤ),
      flow.member? "id" = some (.number number) → number.IntegerText n →
        n < 0 ∨ 2 ^ 128 ≤ n) : IdLog flow []

/-- What is logged of the nodes of a flow: nothing if the identifier does not fit, and
nothing without a list of nodes. -/
inductive NodesLog (flow : Value) : List LogRecord → Prop
  | stopped (hid : IdOutOfRange flow) : NodesLog flow []
  | absent (hnodes : ∀ nodes, flow.member? "nodes" ≠ some (.array nodes)) :
      NodesLog flow []
  | told {nodes : List Value} (hid : ¬IdOutOfRange flow)
      (hnodes : flow.member? "nodes" = some (.array nodes)) :
      NodesLog flow (nodesRecords nodes)

theorem IdLog.unique {flow : Value} {first second : List LogRecord}
    (hfirst : IdLog flow first) (hsecond : IdLog flow second) : first = second := by
  have hfits : ∀ uuid : Uuid, ¬((uuid.value : ℤ) < 0 ∨ 2 ^ 128 ≤ (uuid.value : ℤ)) := by
    intro uuid
    have hlt := uuid.value_lt
    omega
  cases hfirst with
  | @replaced number uuid hid hinteger =>
      cases hsecond with
      | @replaced other otherUuid hotherId hotherInteger =>
          rw [hid] at hotherId
          cases hotherId
          rw [← Number.integer?_eq_some_iff] at hinteger hotherInteger
          rw [hinteger, Option.some.injEq, Nat.cast_inj] at hotherInteger
          have hsame : uuid = otherUuid := by
            cases uuid
            cases otherUuid
            simpa using hotherInteger
          rw [hsame]
      | kept hkept => exact absurd (hkept number _ hid hinteger) (hfits uuid)
  | kept hkept =>
      cases hsecond with
      | @replaced number uuid hid hinteger =>
          exact absurd (hkept number _ hid hinteger) (hfits uuid)
      | kept _ => rfl

theorem NodesLog.unique {flow : Value} {first second : List LogRecord}
    (hfirst : NodesLog flow first) (hsecond : NodesLog flow second) : first = second := by
  cases hfirst with
  | stopped hid =>
      cases hsecond with
      | told hfits _ => exact absurd hid hfits
      | _ => rfl
  | absent hnone =>
      cases hsecond with
      | told _ hnodes => exact absurd hnodes (hnone _)
      | _ => rfl
  | told hfits hnodes =>
      cases hsecond with
      | stopped hid => exact absurd hid hfits
      | absent hnone => exact absurd hnodes (hnone _)
      | told _ hother =>
          rw [hnodes] at hother
          cases hother
          rfl

theorem idOutOfRange_iff {flow : Value} :
    IdOutOfRange flow ↔
      ∃ id error, flow.member? "id" = some id ∧ newId? id = .error error := by
  constructor
  · rintro ⟨number, n, hid, hinteger, hrange⟩
    exact ⟨_, _, hid, newId?_eq_error_iff.mpr ⟨number, n, rfl, hinteger, hrange, rfl⟩⟩
  · rintro ⟨id, error, hid, herror⟩
    obtain ⟨number, n, rfl, hinteger, hrange, -⟩ := newId?_eq_error_iff.mp herror
    exact ⟨number, n, hid, hinteger, hrange⟩

theorem id_fits_of_not_outOfRange {flow : Value} (hid : ¬IdOutOfRange flow) :
    ∀ id, flow.member? "id" = some id → ∃ new, newId? id = .ok new := by
  intro id hmember
  cases hnew : newId? id with
  | ok new => exact ⟨new, rfl⟩
  | error error => exact absurd (idOutOfRange_iff.mpr ⟨id, error, hmember, hnew⟩) hid

/-- An identifier that a migration does not replace leaves no record. -/
theorem idLog_of_not_replaced {members : Members Value}
    (hkept : ∀ id, Entries.get? members "id" = some id →
      ∀ uuid, newId? id ≠ .ok (some uuid)) :
    IdLog (.object members) [] ∧ (migrateId members).records = [] := by
  constructor
  · refine .kept fun number n hid hinteger => ?_
    by_contra hrange
    have huuid : Uuid.ofInt? n ≠ none := fun hnone =>
      hrange (Uuid.ofInt?_eq_none_iff.mp hnone)
    obtain ⟨uuid, huuid⟩ := Option.ne_none_iff_exists'.mp huuid
    have hnew : newId? (.number number) = .ok (some uuid) := by
      simp [newId?, Number.integer?_eq_some_iff.mpr hinteger, huuid]
    exact hkept _ hid uuid hnew
  · cases hget : Entries.get? members "id" with
    | none => simp [migrateId, hget]
    | some id =>
        cases hnew : newId? id with
        | error error => simp [migrateId, hget, hnew]
        | ok new =>
            cases new with
            | none => simp [migrateId, hget, hnew]
            | some uuid => exact absurd hnew (hkept id hget uuid)

theorem idLog_migrateId (members : Members Value) :
    IdLog (.object members) (migrateId members).records := by
  by_cases hreplaced : ∃ id uuid, Entries.get? members "id" = some id ∧
      newId? id = .ok (some uuid)
  · obtain ⟨id, uuid, hget, hnew⟩ := hreplaced
    obtain ⟨number, rfl, hinteger⟩ := newId?_eq_some_iff.mp hnew
    simp only [migrateId, hget, hnew]
    exact IdLog.replaced hget hinteger
  · obtain ⟨hlog, hrecords⟩ := @idLog_of_not_replaced members fun id hget uuid hnew =>
      hreplaced ⟨id, uuid, hget, hnew⟩
    rwa [hrecords]

/-- The nodes are told once the identifier has been dealt with, which does not change
them. -/
theorem nodesLog_migrateNodeList {members updated : Members Value}
    (hdistinct : (Value.object members).DistinctKeys)
    (hid : ¬IdOutOfRange (.object members))
    (hnodes : Entries.get? updated "nodes" = Entries.get? members "nodes")
    (wrapped : Bool) :
    NodesLog (.object members) (migrateNodeList wrapped updated).records := by
  rw [migrateNodeList, hnodes]
  cases hget : Entries.get? members "nodes" with
  | none => exact .absent (by simp [Value.member?, hget])
  | some value =>
      cases value with
      | array nodes =>
          have hnodup : ∀ data ∈ nodes.filterMap dataBlock?,
              (Entries.keys data).Nodup := by
            intro data hmem
            apply nodup_keys_of_mem_dataBlocks hdistinct
            rwa [dataBlocks, nodeList, Value.member?, hget]
          have hrecords := records_migrateNodes hnodup wrapped 0
          have htold := @NodesLog.told (.object members) nodes hid hget
          rw [nodesRecords, ← hrecords] at htold
          rwa [Logged.records_bind_of_silent _ fun _ => Logged.records_pure _]
      | _ => exact .absent (by simp [Value.member?, hget])

/-- A migration of a flow tells of the identifier and then of the nodes. -/
theorem exists_log_migrateLogged {flow : Value} (hdistinct : flow.DistinctKeys)
    (wrapped : Bool) :
    ∃ first nodes, IdLog flow first ∧ NodesLog flow nodes ∧
      (migrateLogged wrapped flow).records = first ++ nodes := by
  by_cases hobject : ∃ members, flow = .object members
  · obtain ⟨members, rfl⟩ := hobject
    have hid := idLog_migrateId members
    by_cases hrange : IdOutOfRange (.object members)
    · obtain ⟨id, error, hget, herror⟩ := idOutOfRange_iff.mp hrange
      rw [Value.member?] at hget
      have hfirst : (migrateId members).result = .error error := by
        simp [migrateId, hget, herror]
      refine ⟨_, [], hid, .stopped hrange, ?_⟩
      rw [migrateLogged, Logged.records_bind_of_error hfirst, List.append_nil]
    · obtain ⟨updated, hupdated, hfirst⟩ := result_migrateId (id_fits_of_not_outOfRange hrange)
      have hsame := member?_nodes_mapMember_id (.object members)
      rw [hupdated] at hsame
      have hnodes := nodesLog_migrateNodeList hdistinct hrange hsame wrapped
      refine ⟨_, _, hid, hnodes, ?_⟩
      rw [migrateLogged, Logged.records_bind_of_ok hfirst,
        Logged.records_bind_of_silent _ fun _ => Logged.records_pure _]
  · have hmember : ∀ key, flow.member? key = none := by
      intro key
      by_contra hsome
      obtain ⟨value, hvalue⟩ := Option.ne_none_iff_exists'.mp hsome
      obtain ⟨members, hmembers, -⟩ := Value.eq_object_of_member? hvalue
      exact hobject ⟨members, hmembers⟩
    refine ⟨[], [], .kept (by simp [hmember]), .absent (by simp [hmember]), ?_⟩
    cases flow with
    | object members => exact absurd ⟨members, rfl⟩ hobject
    | _ => rfl

end Flow

/-! ## The document -/

namespace Document

/-- What is logged at the end of a conversion: the report, if the migration succeeds. -/
inductive EndLog (document : Value) : List LogRecord → Prop
  | done {migration : Migration} (hok : migrate document = .ok migration) :
      EndLog document
        [⟨.info, "Flow migration complete",
          [("wrapped", .text (toString migration.report.wrapped)),
            ("flow_id", .text (migration.report.flowId.getD "unchanged")),
            ("nodes", .text (toString migration.report.tally.nodesTotal)),
            ("converted", .text (toString migration.report.tally.nodesConverted)),
            ("renamed", .text (toString migration.report.tally.renamedKeys)),
            ("dropped", .text (toString migration.report.tally.droppedKeys))]⟩,
          ⟨.info, "Migration report", [("report", .text migration.report.text)]⟩]
  | failed {error : MigrationError} (herror : migrate document = .error error) :
      EndLog document []

theorem EndLog.unique {document : Value} {first second : List LogRecord}
    (hfirst : EndLog document first) (hsecond : EndLog document second) :
    first = second := by
  cases hfirst with
  | done hok =>
      cases hsecond with
      | done hother =>
          rw [hok] at hother
          cases hother
          rfl
      | failed herror =>
          rw [hok] at herror
          cases herror
  | failed herror =>
      cases hsecond with
      | done hok =>
          rw [hok] at herror
          cases herror
      | failed _ => rfl

/-- A migration of a document logs what that of its flow does, and its success. -/
theorem records_migrateLogged (document : Value) :
    (migrateLogged document).records =
      (Flow.migrateLogged (isWrapped document) (flow document)).records ++
        match migrate document with
        | .ok migration => [(Event.migrationDone migration.report).record]
        | .error _ => [] := by
  cases hwrapped : wrappedFlow? document with
  | none =>
      simp only [migrate, migrateLogged, hwrapped, isWrapped, flow, Option.isSome_none,
        Option.getD_none]
      obtain ⟨events, result⟩ := Flow.migrateLogged false document
      cases result <;> simp [Logged.ok_bind, Logged.error_bind, Logged.pure_eq,
        Logged.records, Logged.log]
  | some inner =>
      simp only [migrate, migrateLogged, hwrapped, isWrapped, flow, Option.isSome_some,
        Option.getD_some]
      obtain ⟨events, result⟩ := Flow.migrateLogged true inner
      cases result <;> simp [Logged.ok_bind, Logged.error_bind, Logged.pure_eq,
        Logged.records, Logged.log]

end Document

namespace Conversion

/-- The log of the conversion of a text.  A text that cannot be read leaves none. -/
inductive Log (text : String) : List LogRecord → Prop
  | unread {error : Json.ReadError} (hread : Json.read text = .error error) : Log text []
  | read {document : Value} {first nodes last : List LogRecord}
      (hread : Json.read text = .ok document)
      (hid : Flow.IdLog (Document.flow document) first)
      (hnodes : Flow.NodesLog (Document.flow document) nodes)
      (hend : Document.EndLog document last) : Log text (first ++ nodes ++ last)

theorem Log.unique {text : String} {left right : List LogRecord} (hleft : Log text left)
    (hright : Log text right) : left = right := by
  cases hleft with
  | unread hread =>
      cases hright with
      | unread _ => rfl
      | read hother =>
          rw [hread] at hother
          cases hother
  | read hread hid hnodes hend =>
      cases hright with
      | unread hother =>
          rw [hread] at hother
          cases hother
      | read hother hotherId hotherNodes hotherEnd =>
          rw [hread] at hother
          cases hother
          rw [hid.unique hotherId, hnodes.unique hotherNodes, hend.unique hotherEnd]

/-- A conversion of a text that is read logs what the migration does, and its report. -/
theorem records_run_of_read {text : String} {document : Value}
    (hread : Json.read text = .ok document) (indent : ℕ) :
    (run text indent).records = (Document.migrateLogged document).records ++
      match Document.migrate document with
      | .ok migration => [(Event.reportMade migration.report).record]
      | .error _ => [] := by
  simp only [run, hread]
  rw [Logged.records_bind, Logged.records_mapError, Logged.result_mapError, Document.migrate]
  cases (Document.migrateLogged document).result <;> rfl

theorem log_run (text : String) (indent : ℕ) : Log text (run text indent).records := by
  cases hread : Json.read text with
  | error error =>
      simp only [run, hread, Logged.records_fail]
      exact .unread hread
  | ok document =>
      obtain ⟨-, hdistinct⟩ := Json.depth_le_and_distinctKeys_of_read hread
      obtain ⟨first, nodes, hid, hnodes, hrecords⟩ :=
        Flow.exists_log_migrateLogged (Document.distinctKeys_flow hdistinct)
          (Document.isWrapped document)
      rw [records_run_of_read hread, Document.records_migrateLogged, hrecords,
        List.append_assoc]
      cases hmigrate : Document.migrate document with
      | error error => exact .read hread hid hnodes (.failed hmigrate)
      | ok migration => exact .read hread hid hnodes (.done hmigrate)

/-- The log of a conversion is determined by its text, and does not depend on the width
of the indentation. -/
theorem log_iff_records_run (text : String) (indent : ℕ) (records : List LogRecord) :
    Log text records ↔ (run text indent).records = records := by
  constructor
  · exact fun hlog => (log_run text indent).unique hlog
  · rintro rfl
    exact log_run text indent

/-- A block that is no object ends the log, after the warning about the block before it. -/
example :
    (run ("\x7b\"id\": 7, \"nodes\": [" ++
      "\x7b\"data\": \x7b\"targets_form\": \x7b\"a\": 1\x7d\x7d\x7d," ++
      "\x7b\"data\": null\x7d, \x7b\"data\": \x7b\x7d\x7d]\x7d") 2).records.map
        LogRecord.fields =
      [[("old", .text "7"), ("new", .text "00000000-0000-0000-0000-000000000007")],
        [("keys", .texts ["a"])], [("node", .text "0")]] := by
  decide +kernel

end Conversion

end FlowMigration

import FlowMigration.Proofs.Flow.Result
import FlowMigration.Proofs.Json.Number

/-!
# Faults of a document

A migration fails on four kinds of fault: a flow that is no object, an integer
identifier that does not fit in 128 bits, nodes that are no array, and a data block
that is no object.  A document may have several; they are ranked, and the one with
the least rank is reported.  Nothing else makes a migration fail.
-/

namespace FlowMigration

open Json (Members Number Value)

/-- What an error tells: the path to a value and what it should be, or the number that
is no identifier. -/
inductive Complaint where
  | invalidShape (path expected : String)
  | flowIdOutOfRange (id : String)
deriving DecidableEq, Repr

def MigrationError.complaint : MigrationError → Complaint
  | .invalidShape place => .invalidShape place.path place.part.shape
  | .flowIdOutOfRange id => .flowIdOutOfRange (toString id)

/-- Of ranked faults, what is told of the one with the least rank. -/
def FirstFault (fault : ℕ → Complaint → Prop) (complaint : Complaint) : Prop :=
  ∃ rank, fault rank complaint ∧ ∀ other told, fault other told → rank ≤ other

namespace Flow

/-- The path of a member of the flow at the path `base`, which is empty if the flow is
the document itself. -/
def memberPath (base member : String) : String :=
  if base = "" then member else base ++ "." ++ member

/-- The faults of the flow at the path `base`, each with its rank and what is told of
it. -/
inductive Fault (base : String) (flow : Value) : ℕ → Complaint → Prop
  | noObject (hflow : ∀ members, flow ≠ .object members) :
      Fault base flow 0 (.invalidShape (if base = "" then "$" else base) "object")
  | idOutOfRange {number : Number} {n : ℤ}
      (hid : flow.member? "id" = some (.number number))
      (hinteger : number.IntegerText n) (hrange : n < 0 ∨ 2 ^ 128 ≤ n) :
      Fault base flow 1 (.flowIdOutOfRange (toString number))
  | nodesNoArray {value : Value} (hvalue : flow.member? "nodes" = some value)
      (hshape : ∀ nodes, value ≠ .array nodes) :
      Fault base flow 2 (.invalidShape (memberPath base "nodes") "array")
  | dataNoObject {nodes : List Value} {index : ℕ} {node value : Value}
      (hnodes : flow.member? "nodes" = some (.array nodes))
      (hnode : nodes[index]? = some node) (hvalue : node.member? "data" = some value)
      (hshape : ∀ data, value ≠ .object data) :
      Fault base flow (3 + index)
        (.invalidShape (memberPath base ("nodes[" ++ toString index ++ "].data"))
          "object")

end Flow

namespace Document

/-- The path of the flow of a document. -/
def flowPath (document : Value) : String :=
  if isWrapped document then "flow" else ""

/-- The faults of a document are those of its flow. -/
def Fault (document : Value) : ℕ → Complaint → Prop :=
  Flow.Fault (flowPath document) (flow document)

end Document

theorem exists_firstFault {fault : ℕ → Complaint → Prop} {rank : ℕ}
    {complaint : Complaint} (hfault : fault rank complaint) :
    ∃ told, FirstFault fault told := by
  classical
  have hexists : ∃ rank, ∃ complaint, fault rank complaint := ⟨rank, complaint, hfault⟩
  obtain ⟨told, htold⟩ := Nat.find_spec hexists
  exact ⟨told, Nat.find hexists, htold, fun other others hother =>
    Nat.find_min' hexists ⟨others, hother⟩⟩

/-! ## Identifiers that fit, and others -/

theorem Uuid.ofInt?_eq_some_iff {n : ℤ} {uuid : Uuid} :
    Uuid.ofInt? n = some uuid ↔ n = uuid.value := by
  obtain ⟨value, hlt⟩ := uuid
  rw [Uuid.ofInt?]
  split
  · next hfits =>
      simp only [Option.some.injEq, Uuid.mk.injEq]
      omega
  · next hfits =>
      simp only [reduceCtorEq, false_iff]
      omega

theorem Uuid.ofInt?_eq_none_iff {n : ℤ} :
    Uuid.ofInt? n = none ↔ n < 0 ∨ 2 ^ 128 ≤ n := by
  rw [Uuid.ofInt?]
  split
  · next hfits =>
      simp only [reduceCtorEq, false_iff]
      omega
  · next hfits =>
      simp only [true_iff]
      omega

namespace Flow

/-- An identifier is replaced by the one that has the value of its text. -/
theorem newId?_eq_some_iff {id : Value} {uuid : Uuid} :
    newId? id = .ok (some uuid) ↔
      ∃ number, id = .number number ∧ number.IntegerText uuid.value := by
  simp only [← Number.integer?_eq_some_iff]
  cases id with
  | number number =>
      cases hinteger : number.integer? with
      | none => simp [newId?, hinteger]
      | some n =>
          have hvalue := @Uuid.ofInt?_eq_some_iff n uuid
          cases huuid : Uuid.ofInt? n with
          | none => simpa [newId?, hinteger, huuid] using hvalue
          | some found => simpa [newId?, hinteger, huuid] using hvalue
  | _ => simp [newId?]

theorem newId?_eq_error_iff {id : Value} {error : MigrationError} :
    newId? id = .error error ↔
      ∃ number n, id = .number number ∧ number.IntegerText n ∧
        (n < 0 ∨ 2 ^ 128 ≤ n) ∧ error = .flowIdOutOfRange number := by
  simp only [← Uuid.ofInt?_eq_none_iff, ← Number.integer?_eq_some_iff]
  cases id with
  | number number =>
      cases hinteger : number.integer? with
      | none => simp [newId?, hinteger]
      | some n =>
          cases huuid : Uuid.ofInt? n with
          | none => simp [newId?, hinteger, huuid, eq_comm]
          | some uuid => simp [newId?, hinteger, huuid]
  | _ => simp [newId?]

section Readable

/-! ## A flow is readable exactly if it has no fault -/

variable {base : String} {flow : Value}

theorem id_fits_of_no_fault (hnone : ∀ told, ¬Fault base flow 1 told) (id : Value)
    (hid : flow.member? "id" = some id) : ∃ new, newId? id = .ok new := by
  cases hnew : newId? id with
  | ok new => exact ⟨new, rfl⟩
  | error error =>
      obtain ⟨number, n, rfl, hinteger, hrange, -⟩ := newId?_eq_error_iff.mp hnew
      exact absurd (.idOutOfRange hid hinteger hrange) (hnone _)

theorem nodeReadable_of_no_fault {nodes : List Value} {index : ℕ} {node : Value}
    (hnone : ∀ told, ¬Fault base flow (3 + index) told)
    (hnodes : flow.member? "nodes" = some (.array nodes))
    (hnode : nodes[index]? = some node) : NodeReadable node := by
  intro value hvalue
  by_contra hshape
  have hobject : ∀ data, value ≠ .object data := fun data hdata => hshape ⟨data, hdata⟩
  exact hnone _ (.dataNoObject hnodes hnode hvalue hobject)

theorem readable_of_no_fault (hnone : ∀ rank told, ¬Fault base flow rank told) :
    Readable flow where
  is_object := by
    by_contra hshape
    exact hnone _ _ (.noObject fun members hmembers => hshape ⟨members, hmembers⟩)
  id_fits := id_fits_of_no_fault (hnone 1)
  nodes_readable value hvalue := by
    by_cases hshape : ∃ nodes, value = .array nodes
    · obtain ⟨nodes, rfl⟩ := hshape
      refine ⟨nodes, rfl, fun node hmem => ?_⟩
      obtain ⟨index, hnode⟩ := List.mem_iff_getElem?.mp hmem
      exact nodeReadable_of_no_fault (hnone (3 + index)) hvalue hnode
    · have harray : ∀ nodes, value ≠ .array nodes := fun nodes hnodes =>
        hshape ⟨nodes, hnodes⟩
      exact absurd (.nodesNoArray hvalue harray) (hnone 2 _)

theorem Readable.not_fault (hreadable : Readable flow) (rank : ℕ)
    (told : Complaint) : ¬Fault base flow rank told := by
  intro hfault
  cases hfault with
  | noObject hflow =>
      obtain ⟨members, hmembers⟩ := hreadable.is_object
      exact hflow members hmembers
  | idOutOfRange hid hinteger hrange =>
      obtain ⟨new, hnew⟩ := hreadable.id_fits _ hid
      rw [newId?_eq_error_iff.mpr ⟨_, _, rfl, hinteger, hrange, rfl⟩] at hnew
      cases hnew
  | nodesNoArray hvalue hshape =>
      obtain ⟨nodes, hnodes, -⟩ := hreadable.nodes_readable _ hvalue
      exact hshape nodes hnodes
  | dataNoObject hnodes hnode hvalue hshape =>
      obtain ⟨nodes, hsame, hall⟩ := hreadable.nodes_readable _ hnodes
      cases hsame
      obtain ⟨data, hdata⟩ := hall _ (List.mem_of_getElem? hnode) _ hvalue
      exact hshape data hdata

end Readable

/-! ## Where a migration stops -/

/-- Nodes are converted in order, up to the first one whose data is no object. -/
theorem result_migrateNodes_of_first {nodes : List Value} {wrapped : Bool}
    {start index : ℕ} {node : Value} (hnode : nodes[index]? = some node)
    (hfault : ¬NodeReadable node)
    (hbefore : ∀ earlier < index, ∀ other, nodes[earlier]? = some other →
      NodeReadable other) :
    (migrateNodes wrapped start nodes).result =
      .error (.invalidShape ⟨wrapped, .nodeData (start + index)⟩) := by
  -- The index that is reported counts from `start`, so `start` grows with each node.
  induction nodes generalizing start index with
  | nil => simp at hnode
  | cons first rest ih =>
      cases index with
      | zero =>
          rw [List.getElem?_cons_zero, Option.some.injEq] at hnode
          subst hnode
          simp [migrateNodes, result_migrateNode_of_not_readable hfault, Except.bind]
      | succ index =>
          have hfirst : NodeReadable first := hbefore 0 (Nat.succ_pos index) first rfl
          have hrest := @ih (start + 1) index hnode fun earlier hlt other hother =>
            hbefore (earlier + 1) (Nat.succ_lt_succ hlt) other hother
          rw [Nat.add_right_comm start 1 index] at hrest
          simp [migrateNodes, result_migrateNode_of_readable hfirst, hrest, Except.bind,
            Except.map, Nat.add_assoc]

section Stop

variable {wrapped : Bool} {flow : Value}

theorem migrateLogged_of_no_object (hflow : ∀ members, flow ≠ .object members) :
    (migrateLogged wrapped flow).result =
      .error (.invalidShape ⟨wrapped, .flow⟩) := by
  cases flow with
  | object members => exact absurd rfl (hflow members)
  | _ => rfl

theorem migrateLogged_of_id_error {id : Value} {error : MigrationError}
    (hid : flow.member? "id" = some id) (herror : newId? id = .error error) :
    (migrateLogged wrapped flow).result = .error error := by
  obtain ⟨members, rfl, hget⟩ := Value.eq_object_of_member? hid
  simp [migrateLogged, migrateId, hget, herror, Except.bind]

/-- If the identifier fits, a migration fails where that of the nodes does; replacing
the identifier does not change them. -/
theorem migrateLogged_of_nodes_error {value : Value} {error : MigrationError}
    (hfits : ∀ id, flow.member? "id" = some id → ∃ new, newId? id = .ok new)
    (hvalue : flow.member? "nodes" = some value)
    (herror : ∀ members, Entries.get? members "nodes" = some value →
      (migrateNodeList wrapped members).result = .error error) :
    (migrateLogged wrapped flow).result = .error error := by
  obtain ⟨members, rfl, hget⟩ := Value.eq_object_of_member? hvalue
  obtain ⟨updated, hupdated, hid⟩ := result_migrateId hfits
  have hnodes := member?_nodes_mapMember_id (.object members)
  rw [hupdated, hvalue] at hnodes
  simp [migrateLogged, hid, herror updated hnodes, Except.bind]

theorem result_migrateNodeList_of_no_array {value : Value} {members : Members Value}
    (hvalue : Entries.get? members "nodes" = some value)
    (hshape : ∀ nodes, value ≠ .array nodes) :
    (migrateNodeList wrapped members).result =
      .error (.invalidShape ⟨wrapped, .nodes⟩) := by
  cases value with
  | array nodes => exact absurd rfl (hshape nodes)
  | _ => simp [migrateNodeList, hvalue]

theorem result_migrateNodeList_of_first {nodes : List Value} {members : Members Value}
    {index : ℕ} {node : Value}
    (hnodes : Entries.get? members "nodes" = some (.array nodes))
    (hnode : nodes[index]? = some node) (hfault : ¬NodeReadable node)
    (hbefore : ∀ earlier < index, ∀ other, nodes[earlier]? = some other →
      NodeReadable other) :
    (migrateNodeList wrapped members).result =
      .error (.invalidShape ⟨wrapped, .nodeData index⟩) := by
  have hrun := @result_migrateNodes_of_first nodes wrapped 0 index node hnode hfault
    hbefore
  rw [Nat.zero_add] at hrun
  simp [migrateNodeList, hnodes, hrun, Except.bind]

end Stop

end Flow

/-! ## The first fault is reported -/

namespace Document

theorem complaint_flow (document : Value) :
    (MigrationError.invalidShape ⟨isWrapped document, .flow⟩).complaint =
      .invalidShape (if flowPath document = "" then "$" else flowPath document)
        "object" := by
  rw [flowPath]
  cases isWrapped document <;> rfl

theorem complaint_nodes (document : Value) :
    (MigrationError.invalidShape ⟨isWrapped document, .nodes⟩).complaint =
      .invalidShape (Flow.memberPath (flowPath document) "nodes") "array" := by
  rw [flowPath]
  cases isWrapped document <;> rfl

theorem complaint_nodeData (document : Value) (index : ℕ) :
    (MigrationError.invalidShape ⟨isWrapped document, .nodeData index⟩).complaint =
      .invalidShape (Flow.memberPath (flowPath document)
        ("nodes[" ++ toString index ++ "].data")) "object" := by
  rw [flowPath]
  cases isWrapped document with
  | false => rfl
  | true =>
      simp [MigrationError.complaint, Place.path, Flow.memberPath, Part.shape,
        ← String.append_assoc]

theorem migrate_of_flow_error {document : Value} {error : MigrationError}
    (herror : (Flow.migrateLogged (isWrapped document) (flow document)).result =
      .error error) : migrate document = .error error := by
  rw [migrate, result_migrateLogged_flow, herror]
  rfl

/-- The first fault ends a migration, and is what its error tells. -/
theorem migrate_of_firstFault {document : Value} {complaint : Complaint}
    (hfirst : FirstFault (Fault document) complaint) :
    ∃ error, migrate document = .error error ∧ error.complaint = complaint := by
  obtain ⟨rank, hfault, hleast⟩ := hfirst
  -- Below its rank there is no fault, so the stages before it succeed.
  have hnone : ∀ other < rank, ∀ told, ¬Fault document other told :=
    fun other hlt told hother => absurd (hleast other told hother) (Nat.not_le.mpr hlt)
  cases hfault with
  | noObject hshape =>
      refine ⟨_, migrate_of_flow_error ?_, complaint_flow document⟩
      exact Flow.migrateLogged_of_no_object hshape
  | @idOutOfRange number n hid hinteger hrange =>
      have hnew := Flow.newId?_eq_error_iff.mpr ⟨number, n, rfl, hinteger, hrange, rfl⟩
      refine ⟨.flowIdOutOfRange number, migrate_of_flow_error ?_, rfl⟩
      exact Flow.migrateLogged_of_id_error hid hnew
  | nodesNoArray hvalue hshape =>
      have hfits := Flow.id_fits_of_no_fault (hnone 1 (by decide))
      refine ⟨_, migrate_of_flow_error ?_, complaint_nodes document⟩
      apply Flow.migrateLogged_of_nodes_error hfits hvalue
      exact fun members hget => Flow.result_migrateNodeList_of_no_array hget hshape
  | @dataNoObject nodes index node value hnodes hnode hvalue hshape =>
      have hfits := Flow.id_fits_of_no_fault (hnone 1 (by omega))
      have hbefore : ∀ earlier < index, ∀ other, nodes[earlier]? = some other →
          Flow.NodeReadable other := fun earlier hlt other hother =>
        Flow.nodeReadable_of_no_fault (hnone (3 + earlier) (by omega)) hnodes hother
      have hunreadable : ¬Flow.NodeReadable node := by
        intro hreadable
        obtain ⟨data, hdata⟩ := hreadable value hvalue
        exact hshape data hdata
      refine ⟨_, migrate_of_flow_error ?_, complaint_nodeData document index⟩
      apply Flow.migrateLogged_of_nodes_error hfits hnodes
      intro members hget
      exact Flow.result_migrateNodeList_of_first hget hnode hunreadable hbefore

/-- A migration succeeds exactly if the document has no fault. -/
theorem exists_migration_iff {document : Value} :
    (∃ migration, migrate document = .ok migration) ↔
      ∀ rank complaint, ¬Fault document rank complaint := by
  constructor
  · rintro ⟨migration, hok⟩
    exact (migrate_eq_ok_iff.mp hok).1.not_fault
  · intro hnone
    exact ⟨_, migrate_eq_ok_iff.mpr ⟨Flow.readable_of_no_fault hnone, rfl⟩⟩

theorem firstFault_of_migrate_error {document : Value} {error : MigrationError}
    (herror : migrate document = .error error) :
    FirstFault (Fault document) error.complaint := by
  have hfault : ∃ rank complaint, Fault document rank complaint := by
    by_contra hnone
    simp only [not_exists] at hnone
    obtain ⟨migration, hok⟩ := exists_migration_iff.mpr hnone
    rw [herror] at hok
    cases hok
  obtain ⟨rank, complaint, hfault⟩ := hfault
  obtain ⟨told, hfirst⟩ := exists_firstFault hfault
  obtain ⟨other, hother, rfl⟩ := migrate_of_firstFault hfirst
  rw [herror] at hother
  cases hother
  exact hfirst

/-- A migration fails exactly if the document has a fault, and its error then tells of
the first one. -/
theorem migrate_error_iff_firstFault (document : Value) :
    (∀ complaint,
      (∃ error, migrate document = .error error ∧ error.complaint = complaint) ↔
        FirstFault (Fault document) complaint) ∧
      ((∃ migration, migrate document = .ok migration) ↔
        ∀ rank complaint, ¬Fault document rank complaint) := by
  refine ⟨fun complaint => ⟨?_, migrate_of_firstFault⟩, exists_migration_iff⟩
  rintro ⟨error, herror, rfl⟩
  exact firstFault_of_migrate_error herror

/-- Of two data blocks that are no objects, the first is reported. -/
example :
    (migrate (.object [("flow", .object [("nodes", .array
      [.object [("data", .object [])], .object [("data", .null)],
        .object [("data", .bool true)]])])])).mapError MigrationError.message =
      .error "Invalid shape at 'flow.nodes[1].data': expected object" := by
  rfl

end Document

end FlowMigration

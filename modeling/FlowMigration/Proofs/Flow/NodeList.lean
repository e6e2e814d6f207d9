import FlowMigration.Proofs.Flow.Wrapper

/-!
# Node lists part by part

The nodes of a flow are converted one by one, and none bears on another.  Hence a list of
nodes may be cut in two: the migration of the whole is that of the first part followed by
that of the second, whose nodes are counted on from the first.
-/

namespace FlowMigration

open Json (Members Number Value)

namespace Entries

variable {κ α : Type} [DecidableEq κ]

theorem insert_insert (entries : Entries κ α) (key : κ) (old new : α) :
    insert (insert entries key old) key new = insert entries key new := by
  induction entries with
  | nil => simp [insert]
  | cons pair rest ih =>
      obtain ⟨k, value⟩ := pair
      by_cases hkey : k = key
      · simp [insert, hkey]
      · simp [insert, hkey, ih]

/-- A key that is there keeps its place, whatever is inserted beside it. -/
theorem insert_comm_of_mem {entries : Entries κ α} {key other : κ}
    (hmem : key ∈ keys entries) (hne : key ≠ other) (value content : α) :
    insert (insert entries other content) key value =
      insert (insert entries key value) other content := by
  induction entries with
  | nil => simp at hmem
  | cons pair rest ih =>
      obtain ⟨k, old⟩ := pair
      by_cases hkey : k = key
      · subst hkey
        simp [insert, hne]
      · rw [keys_cons, List.mem_cons] at hmem
        have hrest := ih (hmem.resolve_left (Ne.symm hkey))
        by_cases hother : k = other
        · subst hother
          simp [insert, hkey]
        · simp [insert, hkey, hother, hrest]

end Entries

namespace Logged

variable {ε α β γ : Type}

theorem id_map (run : Logged ε α) : id <$> run = run := by
  obtain ⟨events, result⟩ := run
  cases result <;> rfl

/-- The events of three runs are those of the first, the second and the third. -/
theorem bind_assoc (run : Logged ε α) (next : α → Logged ε β) (last : β → Logged ε γ) :
    run >>= next >>= last = run >>= fun value => next value >>= last := by
  obtain ⟨events, result⟩ := run
  cases result with
  | error error => rfl
  | ok value =>
      cases hnext : (next value).result with
      | error error => simp [Bind.bind, hnext]
      | ok found => simp [Bind.bind, hnext]

theorem bind_pure_comp (f : α → β) (run : Logged ε α) :
    (run >>= fun value => pure (f value)) = f <$> run := by
  obtain ⟨events, result⟩ := run
  cases result with
  | error error => rfl
  | ok value => simp [Bind.bind, Pure.pure, Functor.map, Except.map]

instance : LawfulMonad (Logged ε) :=
  LawfulMonad.mk' _ id_map (fun _ _ => by simp [Bind.bind, Pure.pure]) bind_assoc
    (fun _ _ => rfl) (fun _ _ => rfl) (fun _ _ => rfl) bind_pure_comp

end Logged

namespace Flow

/-! ## The two parts of a list -/

/-- Nodes are counted on, and what was counted is added up. -/
theorem migrateNodes_append (wrapped : Bool) (start : ℕ) (firsts others : List Value) :
    migrateNodes wrapped start (firsts ++ others) =
      migrateNodes wrapped start firsts >>= fun (nodes, tally) =>
        (fun (rest, counted) => (nodes ++ rest, tally + counted)) <$>
          migrateNodes wrapped (start + firsts.length) others := by
  induction firsts generalizing start with
  | nil =>
      simp [migrateNodes]
  | cons node rest ih =>
      have hlength : start + 1 + rest.length = start + (node :: rest).length := by
        rw [List.length_cons]
        omega
      simp [migrateNodes, ih, hlength, add_assoc]

/-- Where the first fault of a list stands is counted from the start of the list. -/
theorem exists_index_of_migrateNodes_error {wrapped : Bool} {start : ℕ}
    {nodes : List Value} {error : MigrationError}
    (herror : (migrateNodes wrapped start nodes).result = .error error) :
    ∃ index, ∀ first, (migrateNodes wrapped first nodes).result =
      .error (.invalidShape ⟨wrapped, .nodeData (first + index)⟩) := by
  induction nodes generalizing start error with
  | nil => cases herror
  | cons node rest ih =>
      by_cases hnode : NodeReadable node
      · cases hrest : (migrateNodes wrapped (start + 1) rest).result with
        | error found =>
            obtain ⟨index, hindex⟩ := ih hrest
            refine ⟨1 + index, fun first => ?_⟩
            simp [migrateNodes, result_migrateNode_of_readable hnode, hindex, Except.bind,
              Except.map, add_assoc]
        | ok others =>
            simp [migrateNodes, result_migrateNode_of_readable hnode, hrest, Except.bind,
              Except.map] at herror
      · refine ⟨0, fun first => ?_⟩
        simp [migrateNodes, result_migrateNode_of_not_readable hnode, Except.bind]

/-- Nodes that are converted are so wherever they stand. -/
theorem migrateNodes_ok_of_ok {wrapped : Bool} {start : ℕ} {nodes : List Value}
    {migration : List Value × Tally}
    (hok : (migrateNodes wrapped start nodes).result = .ok migration) (other : ℕ) :
    (migrateNodes wrapped other nodes).result = .ok migration := by
  have hreadable := readable_of_migrateNodes_ok hok
  rw [result_migrateNodes_of_readable hreadable] at hok ⊢
  exact hok

/-! ## Flows with given nodes -/

/-- The flow with a list of nodes in the place of its own. -/
def withNodes (flow : Members Value) (nodes : List Value) : Value :=
  .object (Entries.insert flow "nodes" (.array nodes))

theorem migrateId_insert_nodes (flow : Members Value) (value : Value) :
    migrateId (Entries.insert flow "nodes" value) =
      (fun (updated, uuid) => (Entries.insert updated "nodes" value, uuid)) <$>
        migrateId flow := by
  have hget : Entries.get? (Entries.insert flow "nodes" value) "id" =
      Entries.get? flow "id" := by
    rw [Entries.get?_insert, if_neg (by decide)]
  rw [migrateId, migrateId, hget]
  cases hid : Entries.get? flow "id" with
  | none => rfl
  | some id =>
      cases hnew : newId? id with
      | error error =>
          simp only [hnew]
          rfl
      | ok new =>
          cases new with
          | none =>
              simp only [hnew]
              rfl
          | some uuid =>
              have hmem := Entries.mem_keys_of_get? hid
              simp [hnew, Entries.insert_comm_of_mem hmem (by decide : "id" ≠ "nodes")]

/-- The nodes of a flow are converted apart from all else in it. -/
theorem migrateLogged_withNodes (wrapped : Bool) (flow : Members Value)
    (nodes : List Value) :
    migrateLogged wrapped (withNodes flow nodes) =
      migrateId flow >>= fun (frame, uuid) =>
        (fun (converted, tally) =>
          (withNodes frame converted, ⟨wrapped, uuid.map toString, tally⟩)) <$>
            migrateNodes wrapped 0 nodes := by
  have hget : ∀ frame : Members Value,
      Entries.get? (Entries.insert frame "nodes" (.array nodes)) "nodes" =
        some (.array nodes) := by
    intro frame
    rw [Entries.get?_insert, if_pos rfl]
  simp [withNodes, migrateLogged, migrateId_insert_nodes, migrateNodeList, hget,
    Entries.insert_insert]

theorem result_migrateLogged_withNodes (wrapped : Bool) (flow : Members Value)
    (nodes : List Value) :
    (migrateLogged wrapped (withNodes flow nodes)).result =
      (migrateId flow).result.bind fun (frame, uuid) =>
        (migrateNodes wrapped 0 nodes).result.map fun (converted, tally) =>
          (withNodes frame converted, ⟨wrapped, uuid.map toString, tally⟩) := by
  simp [migrateLogged_withNodes]

theorem result_migrateNodes_append (wrapped : Bool) (firsts others : List Value) :
    (migrateNodes wrapped 0 (firsts ++ others)).result =
      (migrateNodes wrapped 0 firsts).result.bind fun (nodes, tally) =>
        (migrateNodes wrapped firsts.length others).result.map fun (rest, counted) =>
          (nodes ++ rest, tally + counted) := by
  simp [migrateNodes_append]

section Parts

variable {wrapped : Bool} {flow : Members Value} {firsts others : List Value}

/-- A fault of the first part, or of the identifier, is one of the whole. -/
theorem result_withNodes_append_of_error {error : MigrationError}
    (herror : (migrateLogged wrapped (withNodes flow firsts)).result = .error error) :
    (migrateLogged wrapped (withNodes flow (firsts ++ others))).result = .error error := by
  rw [result_migrateLogged_withNodes] at herror ⊢
  cases hid : (migrateId flow).result with
  | error found =>
      rw [hid] at herror
      exact herror
  | ok migration =>
      cases hfirsts : (migrateNodes wrapped 0 firsts).result with
      | error found =>
          rw [hid, hfirsts] at herror
          rw [result_migrateNodes_append, hfirsts]
          exact herror
      | ok nodes =>
          rw [hid, hfirsts] at herror
          cases herror

/-- A fault of the second part alone is one of its nodes, and is counted on. -/
theorem result_withNodes_append_of_later_error {left : Value × Report}
    {error : MigrationError}
    (hok : (migrateLogged wrapped (withNodes flow firsts)).result = .ok left)
    (herror : (migrateLogged wrapped (withNodes flow others)).result = .error error) :
    ∃ index, error = .invalidShape ⟨wrapped, .nodeData index⟩ ∧
      (migrateLogged wrapped (withNodes flow (firsts ++ others))).result =
        .error (.invalidShape ⟨wrapped, .nodeData (firsts.length + index)⟩) := by
  rw [result_migrateLogged_withNodes] at hok herror ⊢
  obtain ⟨migration, hid, hnodes⟩ := Json.exists_of_bind_eq_ok hok
  cases hfirsts : (migrateNodes wrapped 0 firsts).result with
  | error found =>
      rw [hfirsts] at hnodes
      cases hnodes
  | ok nodes =>
      cases hothers : (migrateNodes wrapped 0 others).result with
      | error found =>
          obtain ⟨index, hindex⟩ := exists_index_of_migrateNodes_error hothers
          have hzero := hindex 0
          rw [Nat.zero_add] at hzero
          rw [hid, hzero] at herror
          refine ⟨index, (Except.error.inj herror).symm, ?_⟩
          rw [result_migrateNodes_append, hid, hfirsts, Except.bind, Except.bind, hindex]
          rfl
      | ok rest =>
          rw [hid, hothers] at herror
          cases herror

/-- Two parts that are converted are so together, in the same frame. -/
theorem result_withNodes_append_of_ok {left right : Value × Report}
    (hleft : (migrateLogged wrapped (withNodes flow firsts)).result = .ok left)
    (hright : (migrateLogged wrapped (withNodes flow others)).result = .ok right) :
    ∃ frame nodes rest, left.1 = withNodes frame nodes ∧ right.1 = withNodes frame rest ∧
      left.2.flowId = right.2.flowId ∧
      (migrateLogged wrapped (withNodes flow (firsts ++ others))).result =
        .ok (withNodes frame (nodes ++ rest),
          ⟨wrapped, left.2.flowId, left.2.tally + right.2.tally⟩) := by
  rw [result_migrateLogged_withNodes] at hleft hright ⊢
  obtain ⟨⟨frame, uuid⟩, hid, hnodes⟩ := Json.exists_of_bind_eq_ok hleft
  cases hfirsts : (migrateNodes wrapped 0 firsts).result with
  | error found =>
      rw [hfirsts] at hnodes
      cases hnodes
  | ok nodes =>
      cases hothers : (migrateNodes wrapped 0 others).result with
      | error found =>
          rw [hid, hothers] at hright
          cases hright
      | ok rest =>
          have hcounted := migrateNodes_ok_of_ok hothers firsts.length
          rw [hid, hfirsts] at hleft
          rw [hid, hothers] at hright
          cases hleft
          cases hright
          refine ⟨frame, nodes.1, rest.1, rfl, rfl, rfl, ?_⟩
          rw [result_migrateNodes_append, hid, hfirsts, Except.bind, Except.bind, hcounted]
          rfl

end Parts

end Flow

namespace Document

/-! ## Documents around a flow -/

/-- Where a flow stands: it is the document itself, or the flow of a wrapper. -/
inductive Setting where
  | bare
  | wrapper (root : Members Value)

namespace Setting

/-- The document in which a flow stands. -/
def around : Setting → Value → Value
  | .bare, flow => flow
  | .wrapper root, flow => .object (Entries.insert root "flow" flow)

/-- A flow that stands by itself has no flow in it. -/
def Admits : Setting → Members Value → Prop
  | .bare, flow => "flow" ∉ Entries.keys flow
  | .wrapper _, _ => True

def isWrapper : Setting → Bool
  | .bare => false
  | .wrapper _ => true

/-- A document is migrated as the flow in it, and its report is that of the flow. -/
theorem migrate_around {setting : Setting} {flow : Members Value} {nodes : List Value}
    (hadmits : setting.Admits flow) {new : Value} {report : Report}
    (hok : (Flow.migrateLogged false (Flow.withNodes flow nodes)).result =
      .ok (new, report)) :
    migrate (setting.around (Flow.withNodes flow nodes)) =
      .ok ⟨setting.around new, { report with wrapped := setting.isWrapper }⟩ := by
  cases setting with
  | bare =>
      have hbare : (Flow.withNodes flow nodes).member? "flow" = none := by
        rw [Flow.withNodes, Value.member?, Entries.get?_insert, if_neg (by decide)]
        exact Entries.get?_eq_none_iff.mpr hadmits
      have hwrapped := Flow.placed_of_result.2 _ _ hok
      rw [around, migrate_bare hbare, hok, isWrapper, ← hwrapped]
      rfl
  | wrapper root =>
      have hflow : Entries.get? (Entries.insert root "flow" (Flow.withNodes flow nodes))
          "flow" = some (Flow.withNodes flow nodes) := by
        rw [Entries.get?_insert, if_pos rfl]
      rw [around, migrate_wrapper hflow, hok, around]
      simp [Except.mapError, Except.map, Entries.insert_insert, isWrapper]

end Setting

end Document

namespace Flow

/-- The path at which a flow that stands by itself is told that the data of a node is no
object. -/
def nodeDataPath (index : ℕ) : String :=
  "nodes[" ++ toString index ++ "].data"

/-- Node lists are converted part by part.  A fault of the first part is the fault of the
whole; a fault of the second part only is told of the same node, counted from the start of
the whole list; and if neither part has one, the whole has the nodes of the first part and
then those of the second, all else being as it is with either part.  The counts of the
reports are added up, whether the flow is wrapped or not. -/
theorem migrate_append_nodes (flow : Members Value) (firsts others : List Value) :
    (∀ error, migrate (withNodes flow firsts) = .error error →
        migrate (withNodes flow (firsts ++ others)) = .error error) ∧
      (∀ left error, migrate (withNodes flow firsts) = .ok left →
        migrate (withNodes flow others) = .error error →
          ∃ index later, error = .invalidShape ⟨false, .nodeData index⟩ ∧
            error.complaint = .invalidShape (nodeDataPath index) "object" ∧
            migrate (withNodes flow (firsts ++ others)) = .error later ∧
            later.complaint =
              .invalidShape (nodeDataPath (firsts.length + index)) "object") ∧
      ∀ left right, migrate (withNodes flow firsts) = .ok left →
        migrate (withNodes flow others) = .ok right →
          ∃ frame nodes rest, left = withNodes frame nodes ∧
            right = withNodes frame rest ∧
            migrate (withNodes flow (firsts ++ others)) =
              .ok (withNodes frame (nodes ++ rest)) ∧
            ∀ setting : Document.Setting, setting.Admits flow →
              ∃ first second whole : Report,
                Document.migrate (setting.around (withNodes flow firsts)) =
                  .ok ⟨setting.around left, first⟩ ∧
                Document.migrate (setting.around (withNodes flow others)) =
                  .ok ⟨setting.around right, second⟩ ∧
                Document.migrate (setting.around (withNodes flow (firsts ++ others))) =
                  .ok ⟨setting.around (withNodes frame (nodes ++ rest)), whole⟩ ∧
                whole.tally = first.tally + second.tally ∧
                whole.flowId = first.flowId ∧ whole.flowId = second.flowId := by
  refine ⟨fun error herror => ?_, fun left error hleft herror => ?_,
    fun left right hleft hright => ?_⟩
  · rw [migrate_eq_error_iff] at herror ⊢
    exact result_withNodes_append_of_error herror
  · obtain ⟨report, hok⟩ := migrate_eq_ok_iff.mp hleft
    obtain ⟨index, rfl, hlater⟩ := result_withNodes_append_of_later_error hok
      (migrate_eq_error_iff.mp herror)
    exact ⟨index, _, rfl, rfl, migrate_eq_error_iff.mpr hlater, rfl⟩
  · obtain ⟨first, hfirst⟩ := migrate_eq_ok_iff.mp hleft
    obtain ⟨second, hsecond⟩ := migrate_eq_ok_iff.mp hright
    obtain ⟨frame, nodes, rest, hnodes, hrest, hsame, hwhole⟩ :=
      result_withNodes_append_of_ok hfirst hsecond
    refine ⟨frame, nodes, rest, hnodes, hrest, migrate_eq_ok_iff.mpr ⟨_, hwhole⟩, ?_⟩
    intro setting hadmits
    exact ⟨_, _, _, setting.migrate_around hadmits hfirst,
      setting.migrate_around hadmits hsecond, setting.migrate_around hadmits hwhole, rfl, rfl,
      hsame⟩

/-- A flow with an integer identifier that comes after its nodes. -/
def numberedFlow : Members Value :=
  [("name", .null), ("nodes", .null), ("id", .number (Number.ofNat 7))]

/-- Two nodes, one with a key that is renamed and one that is no object. -/
def sourceNodes : List Value :=
  [.object [("data", .object [("sources", .null)])], .null]

/-- Two nodes, the second of which has data that is no object. -/
def faultyNodes : List Value :=
  [.object [("data", .object [])], .object [("data", .null)]]

theorem migrate_append_nodes_numberedFlow :
    (∃ later, migrate (withNodes numberedFlow (sourceNodes ++ faultyNodes)) = .error later ∧
        later.complaint = .invalidShape "nodes[3].data" "object") ∧
      ∃ left whole, migrate (withNodes numberedFlow sourceNodes) = .ok left ∧
        migrate (withNodes numberedFlow (sourceNodes ++ sourceNodes)) = .ok whole ∧
        ∃ first second : Report,
          Document.migrate (withNodes numberedFlow sourceNodes) = .ok ⟨left, first⟩ ∧
          Document.migrate (withNodes numberedFlow (sourceNodes ++ sourceNodes)) =
            .ok ⟨whole, second⟩ ∧
          second.tally = first.tally + first.tally ∧ second.flowId = first.flowId := by
  have hsome : (migrate (withNodes numberedFlow sourceNodes)).toOption.isSome = true := by
    decide +kernel
  obtain ⟨left, hleft⟩ : ∃ left, migrate (withNodes numberedFlow sourceNodes) = .ok left := by
    cases hresult : migrate (withNodes numberedFlow sourceNodes) with
    | error error =>
        rw [hresult] at hsome
        cases hsome
    | ok left => exact ⟨left, rfl⟩
  constructor
  · have hfaulty : migrate (withNodes numberedFlow faultyNodes) =
        .error (.invalidShape ⟨false, .nodeData 1⟩) := by decide +kernel
    obtain ⟨-, hlater, -⟩ := migrate_append_nodes numberedFlow sourceNodes faultyNodes
    obtain ⟨index, later, hindex, -, herror, hcomplaint⟩ := hlater left _ hleft hfaulty
    cases hindex
    exact ⟨later, herror, hcomplaint⟩
  · obtain ⟨-, -, hboth⟩ := migrate_append_nodes numberedFlow sourceNodes sourceNodes
    obtain ⟨frame, nodes, rest, -, -, hwhole, hreports⟩ := hboth left left hleft hleft
    obtain ⟨first, second, whole, hfirst, hsecond, hdocument, htally, hid, -⟩ :=
      hreports .bare (show "flow" ∉ Entries.keys numberedFlow by decide)
    rw [hfirst] at hsecond
    cases hsecond
    exact ⟨left, _, hleft, hwhole, first, whole, hfirst, hdocument, htally, hid⟩

end Flow

end FlowMigration

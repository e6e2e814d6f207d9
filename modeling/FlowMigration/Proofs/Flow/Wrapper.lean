import FlowMigration.Proofs.Flow.Fault

/-!
# Wrapped and bare flows

A flow is migrated in the same way whether it is the document itself or is wrapped in
one.  The two runs differ in what they say about places and in one flag of the report:
an error inside a wrapped flow is placed below the key of the flow, and the report tells
that the flow was wrapped.
-/

namespace FlowMigration

open Json (Members Number Value)

namespace MigrationError

/-- The same error in a flow that is wrapped, or in one that is not. -/
def placed (wrapped : Bool) : MigrationError → MigrationError
  | .invalidShape place => .invalidShape ⟨wrapped, place.part⟩
  | .flowIdOutOfRange id => .flowIdOutOfRange id

end MigrationError

namespace Logged

variable {ε δ α β γ : Type}

theorem map_pure (f : α → β) (value : α) :
    f <$> (pure value : Logged ε α) = pure (f value) := rfl

theorem map_bind (f : β → γ) (run : Logged ε α) (next : α → Logged ε β) :
    f <$> (run >>= next) = run >>= fun value => f <$> next value := by
  obtain ⟨events, result⟩ := run
  cases result <;> rfl

variable (restate : ε → δ)

theorem mapError_pure (value : α) :
    (pure value : Logged ε α).mapError restate = pure value := rfl

theorem mapError_map (f : α → β) (run : Logged ε α) :
    (f <$> run).mapError restate = f <$> run.mapError restate := by
  obtain ⟨events, result⟩ := run
  cases result <;> rfl

theorem mapError_bind (run : Logged ε α) (next : α → Logged ε β) :
    (run >>= next).mapError restate =
      run.mapError restate >>= fun value => (next value).mapError restate := by
  obtain ⟨events, result⟩ := run
  cases result <;> rfl

end Logged

namespace Flow

/-! ## The two runs, step by step -/

theorem migrateId_placed (wrapped : Bool) (flow : Members Value) :
    (migrateId flow).mapError (.placed wrapped) = migrateId flow := by
  cases hget : Entries.get? flow "id" with
  | none => simp [migrateId, hget, Logged.mapError_pure]
  | some id =>
      cases hnew : newId? id with
      | error error =>
          obtain ⟨number, n, rfl, -, -, rfl⟩ := newId?_eq_error_iff.mp hnew
          simp only [migrateId, hget, hnew]
          rfl
      | ok new => cases new <;> simp only [migrateId, hget, hnew] <;> rfl

theorem migrateNode_placed (wrapped other : Bool) (index : ℕ) (node : Value) :
    migrateNode wrapped index node =
      (migrateNode other index node).mapError (.placed wrapped) := by
  cases node with
  | object members =>
      cases hget : Entries.get? members "data" with
      | none =>
          simp only [migrateNode, hget]
          rfl
      | some value => cases value <;> simp only [migrateNode, hget] <;> rfl
  | _ => rfl

theorem migrateNodes_placed (wrapped other : Bool) (index : ℕ) (nodes : List Value) :
    migrateNodes wrapped index nodes =
      (migrateNodes other index nodes).mapError (.placed wrapped) := by
  induction nodes generalizing index with
  | nil => rfl
  | cons node rest ih =>
      simp only [migrateNodes, Logged.mapError_bind, Logged.mapError_map,
        ← migrateNode_placed, ← ih]

theorem migrateNodeList_placed (wrapped other : Bool) (flow : Members Value) :
    migrateNodeList wrapped flow =
      (migrateNodeList other flow).mapError (.placed wrapped) := by
  cases hget : Entries.get? flow "nodes" with
  | none =>
      simp only [migrateNodeList, hget]
      rfl
  | some value =>
      cases value with
      | array nodes =>
          simp only [migrateNodeList, hget, Logged.mapError_bind, ← migrateNodes_placed,
            Logged.mapError_pure]
      | _ =>
          simp only [migrateNodeList, hget]
          rfl

theorem migrateLogged_placed (wrapped other : Bool) (flow : Value) :
    migrateLogged wrapped flow =
      (fun migration => (migration.1, { migration.2 with wrapped := wrapped })) <$>
        (migrateLogged other flow).mapError (.placed wrapped) := by
  cases flow with
  | object members =>
      simp only [migrateLogged, Logged.mapError_bind, migrateId_placed,
        ← migrateNodeList_placed wrapped other, Logged.mapError_pure, Logged.map_bind,
        Logged.map_pure]
  | _ => rfl

/-- What a run on a flow that is not wrapped tells is placed accordingly. -/
theorem placed_of_result {flow : Value} :
    (∀ error, (migrateLogged false flow).result = .error error →
        error.placed false = error) ∧
      ∀ new report, (migrateLogged false flow).result = .ok (new, report) →
        report.wrapped = false := by
  have hsame := congrArg Logged.result (migrateLogged_placed false false flow)
  rw [Logged.result_map, Logged.result_mapError] at hsame
  constructor
  · intro error herror
    rw [herror] at hsame
    exact (Except.error.inj hsame).symm
  · intro new report hok
    rw [hok] at hsame
    exact congrArg (fun migration => migration.2.wrapped) (Except.ok.inj hsame)

theorem migrate_eq_ok_iff {flow new : Value} :
    migrate flow = .ok new ↔
      ∃ report, (migrateLogged false flow).result = .ok (new, report) := by
  rw [migrate]
  cases (migrateLogged false flow).result with
  | error error => simp [Except.map]
  | ok migration => simp [Except.map, Prod.ext_iff]

theorem migrate_eq_error_iff {flow : Value} {error : MigrationError} :
    migrate flow = .error error ↔ (migrateLogged false flow).result = .error error := by
  rw [migrate]
  cases (migrateLogged false flow).result <;> simp [Except.map]

end Flow

namespace Place

theorem path_wrapped (part : Part) :
    path ⟨true, part⟩ =
      if path ⟨false, part⟩ = "$" then "flow" else "flow." ++ path ⟨false, part⟩ := by
  cases part with
  | flow => rfl
  | nodes => rfl
  | nodeData index =>
      have hname : path ⟨false, .nodeData index⟩ ≠ "$" := by
        intro hpath
        have hchars := congrArg String.toList hpath
        simp [path] at hchars
      rw [if_neg hname]
      simp [path, ← String.append_assoc]

end Place

namespace Document

/-! ## The document -/

/-- The migration of a wrapper, by the run on its flow as if it stood by itself. -/
theorem migrate_wrapper {root : Members Value} {inner : Value}
    (hflow : Entries.get? root "flow" = some inner) :
    migrate (.object root) =
      ((Flow.migrateLogged false inner).result.mapError (.placed true)).map
        fun (new, report) =>
          ⟨.object (Entries.insert root "flow" new), { report with wrapped := true }⟩ := by
  have hwrapped : isWrapped (.object root) = true := by simp [isWrapped, wrappedFlow?, hflow]
  have hinner : flow (.object root) = inner := by simp [flow, wrappedFlow?, hflow]
  rw [migrate, result_migrateLogged_flow, hwrapped, hinner,
    Flow.migrateLogged_placed true false, Logged.result_map, Logged.result_mapError]
  cases (Flow.migrateLogged false inner).result <;> rfl

/-- The migration of a flow that is not an object with a flow in it. -/
theorem migrate_bare {inner : Value} (hbare : inner.member? "flow" = none) :
    migrate inner =
      (Flow.migrateLogged false inner).result.map fun (new, report) => ⟨new, report⟩ := by
  rw [← wrappedFlow?_eq_member?] at hbare
  have hwrapped : isWrapped inner = false := by simp [isWrapped, hbare]
  have hinner : flow inner = inner := by simp [flow, hbare]
  rw [migrate, result_migrateLogged_flow, hwrapped, hinner]
  rfl

section Agreement

variable {root : Members Value} {inner : Value}

/-- A wrapper is migrated exactly if its flow is, and the new flow takes the place of the
old one. -/
theorem document_wrapper_iff (hflow : Entries.get? root "flow" = some inner)
    (document : Value) :
    (∃ report, migrate (.object root) = .ok ⟨document, report⟩) ↔
      ∃ new, Flow.migrate inner = .ok new ∧
        document = .object (Entries.insert root "flow" new) := by
  rw [migrate_wrapper hflow, Flow.migrate]
  cases (Flow.migrateLogged false inner).result with
  | error error => simp [Except.map, Except.mapError]
  | ok migration => simp [Except.map, Except.mapError, eq_comm]

theorem error_wrapper (hflow : Entries.get? root "flow" = some inner)
    {error : MigrationError} (herror : Flow.migrate inner = .error error) :
    migrate (.object root) = .error (error.placed true) := by
  rw [migrate_wrapper hflow, Flow.migrate_eq_error_iff.mp herror]
  rfl

/-- What a wrapped flow that is no object, or has a part of the wrong kind, is told. -/
theorem invalidShape_wrapper (hflow : Entries.get? root "flow" = some inner)
    {place : Place} (herror : Flow.migrate inner = .error (.invalidShape place)) :
    ∃ wrapped : Place, migrate (.object root) = .error (.invalidShape wrapped) ∧
      wrapped.path = (if place.path = "$" then "flow" else "flow." ++ place.path) ∧
      wrapped.part.shape = place.part.shape := by
  have hresult := Flow.migrate_eq_error_iff.mp herror
  have hplaced := Flow.placed_of_result.1 _ hresult
  rw [MigrationError.placed, MigrationError.invalidShape.injEq] at hplaced
  refine ⟨⟨true, place.part⟩, error_wrapper hflow herror, ?_, rfl⟩
  rw [Place.path_wrapped, hplaced]

theorem document_bare_iff (hbare : inner.member? "flow" = none) (document : Value) :
    (∃ report, migrate inner = .ok ⟨document, report⟩) ↔
      Flow.migrate inner = .ok document := by
  rw [migrate_bare hbare, Flow.migrate]
  cases (Flow.migrateLogged false inner).result <;> simp [Except.map]

/-- The report on a wrapper is that on the flow by itself but for the flag. -/
theorem report_wrapper_iff (hflow : Entries.get? root "flow" = some inner)
    (hbare : inner.member? "flow" = none) (report : Report) :
    (∃ document, migrate (.object root) = .ok ⟨document, report⟩) ↔
      ∃ bare, migrate inner = .ok bare ∧ bare.report.wrapped = false ∧
        report = { bare.report with wrapped := true } := by
  rw [migrate_wrapper hflow, migrate_bare hbare]
  cases hresult : (Flow.migrateLogged false inner).result with
  | error error => simp [Except.map, Except.mapError]
  | ok migration =>
      have hflag := Flow.placed_of_result.2 _ _ hresult
      constructor
      · rintro ⟨document, hok⟩
        cases hok
        exact ⟨_, rfl, hflag, rfl⟩
      · rintro ⟨bare, hok, -, rfl⟩
        cases hok
        exact ⟨_, rfl⟩

/-- A flow is migrated in the same way in a wrapper and by itself.  The wrapper keeps all
else in its place; an error in the flow is placed below `flow`; and the two reports differ
in one flag. -/
theorem migrate_wrapper_agrees (hflow : Entries.get? root "flow" = some inner) :
    (∃ before after, root = before ++ ("flow", inner) :: after ∧
        "flow" ∉ Entries.keys before ∧
        ∀ document, (∃ report, migrate (.object root) = .ok ⟨document, report⟩) ↔
          ∃ new, Flow.migrate inner = .ok new ∧
            document = .object (before ++ ("flow", new) :: after)) ∧
      (∀ id, Flow.migrate inner = .error (.flowIdOutOfRange id) →
        migrate (.object root) = .error (.flowIdOutOfRange id)) ∧
      (∀ place, Flow.migrate inner = .error (.invalidShape place) →
        ∃ wrapped : Place, migrate (.object root) = .error (.invalidShape wrapped) ∧
          wrapped.path = (if place.path = "$" then "flow" else "flow." ++ place.path) ∧
          wrapped.part.shape = place.part.shape) ∧
      (inner.member? "flow" = none →
        (∀ document, (∃ report, migrate inner = .ok ⟨document, report⟩) ↔
          Flow.migrate inner = .ok document) ∧
        ∀ report, (∃ document, migrate (.object root) = .ok ⟨document, report⟩) ↔
          ∃ bare, migrate inner = .ok bare ∧ bare.report.wrapped = false ∧
            report = { bare.report with wrapped := true }) := by
  refine ⟨?_, fun id => error_wrapper hflow, fun place => invalidShape_wrapper hflow,
    fun hbare => ⟨document_bare_iff hbare, report_wrapper_iff hflow hbare⟩⟩
  obtain ⟨before, after, hroot, hbefore⟩ := Entries.exists_append_of_get? hflow
  refine ⟨before, after, hroot, hbefore, fun document => ?_⟩
  have hreplaced : ∀ new, Entries.insert root "flow" new =
      before ++ ("flow", new) :: after := by
    intro new
    rw [hroot, Entries.insert_append_cons hbefore]
  simp only [← hreplaced]
  exact document_wrapper_iff hflow document

end Agreement

/-- A wrapper with members that a flow has as well, on both sides of the flow. -/
def crowdedRoot (inner : Value) : Members Value :=
  [("id", .number (Number.ofNat 1)), ("flow", inner), ("nodes", .null)]

def readableFlow : Value :=
  .object [("nodes", .array [.object [("data", .object [("sources", .null)])]]),
    ("id", .number (Number.ofNat 7))]

/-- A flow with a second node whose data is no object. -/
def unreadableFlow : Value :=
  .object [("nodes", .array [.object [("data", .object [])], .object [("data", .null)]])]

theorem migrate_wrapper_agrees_crowdedRoot :
    Entries.get? (crowdedRoot readableFlow) "flow" = some readableFlow ∧
      (∃ bare report, migrate readableFlow = .ok bare ∧
        (∃ document, migrate (.object (crowdedRoot readableFlow)) = .ok ⟨document, report⟩) ∧
        report = { bare.report with wrapped := true }) ∧
      ∃ wrapped : Place,
        migrate (.object (crowdedRoot unreadableFlow)) = .error (.invalidShape wrapped) ∧
        wrapped.path = "flow.nodes[1].data" ∧ wrapped.part.shape = "object" := by
  refine ⟨rfl, ?_, ?_⟩
  · obtain ⟨-, -, -, hbare⟩ := @migrate_wrapper_agrees (crowdedRoot readableFlow) _ rfl
    obtain ⟨bare, hok⟩ : ∃ bare, migrate readableFlow = .ok bare :=
      exists_migration (by decide +kernel)
    have hflag : bare.report.wrapped = false := by
      have hreport : (migrate readableFlow).toOption.map (·.report.wrapped) = some false := by
        decide +kernel
      rw [hok] at hreport
      exact Option.some.inj hreport
    exact ⟨bare, _, hok, ((hbare rfl).2 _).mpr ⟨bare, hok, hflag, rfl⟩, rfl⟩
  · obtain ⟨-, -, hshape, -⟩ := @migrate_wrapper_agrees (crowdedRoot unreadableFlow) _ rfl
    exact hshape ⟨false, .nodeData 1⟩ rfl

end Document

end FlowMigration

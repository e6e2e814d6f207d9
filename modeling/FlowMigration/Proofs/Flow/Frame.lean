import FlowMigration.Proofs.Flow.Conformance
import FlowMigration.Proofs.Json.Number

/-!
# What a migration leaves alone

A migration changes the identifier of a flow and the data blocks of its nodes.  All
other members keep their values, at every level, and every key and every node keeps
its place.  The relations below say so position by position.
-/

namespace FlowMigration

open Json (Members Number Value)

namespace Entries

variable {κ α : Type} [DecidableEq κ]

/-- The same keys in the same places, with the same values except under `changed`. -/
def SameExcept (changed : List κ) (old new : Entries κ α) : Prop :=
  List.Forall₂ (fun before after => after.1 = before.1 ∧
    (before.1 ∉ changed → after.2 = before.2)) old new

namespace SameExcept

variable {changed more : List κ} {old middle new : Entries κ α}

omit [DecidableEq κ] in
protected theorem refl (changed : List κ) (entries : Entries κ α) :
    SameExcept changed entries entries :=
  List.forall₂_same.mpr fun _ _ => ⟨rfl, fun _ => rfl⟩

omit [DecidableEq κ] in
/-- Two changes in turn leave alone what both leave alone. -/
protected theorem trans (hfirst : SameExcept changed old middle)
    (hsecond : SameExcept more middle new) : SameExcept (changed ++ more) old new := by
  induction hfirst generalizing new with
  | nil =>
      cases hsecond
      exact .nil
  | cons hhead _ ih =>
      cases hsecond with
      | cons hnext htail =>
          refine .cons ⟨hnext.1.trans hhead.1, fun hout => ?_⟩ (ih htail)
          rw [List.mem_append, not_or] at hout
          have hmiddle := hnext.2 (hhead.1 ▸ hout.2)
          exact hmiddle.trans (hhead.2 hout.1)

/-- An insertion under a key that is there changes the value under it only. -/
theorem insert {key : κ} (hmem : key ∈ keys old) (value : α) :
    SameExcept [key] old (Entries.insert old key value) := by
  induction old with
  | nil => simp at hmem
  | cons pair rest ih =>
      obtain ⟨k, before⟩ := pair
      by_cases hkey : k = key
      · subst hkey
        rw [Entries.insert, if_pos rfl]
        have hchanged : k ∈ [k] := List.mem_singleton_self k
        exact .cons ⟨rfl, fun hout => absurd hchanged hout⟩ (SameExcept.refl _ _)
      · rw [Entries.insert, if_neg hkey]
        rw [keys_cons, List.mem_cons] at hmem
        exact .cons ⟨rfl, fun _ => rfl⟩ (ih (hmem.resolve_left (Ne.symm hkey)))

end SameExcept

end Entries

theorem Json.Value.mapMember_object_same (key : String) (f : Value → Value)
    (members : Members Value) :
    ∃ updated, (Value.object members).mapMember key f = .object updated ∧
      Entries.SameExcept [key] members updated := by
  cases hget : Entries.get? members key with
  | none => exact ⟨members, by simp [Value.mapMember, hget], .refl _ _⟩
  | some inner =>
      have hmem := Entries.mem_keys_of_get? hget
      exact ⟨_, Value.mapMember_object_of_get? hget f, .insert hmem _⟩

namespace Flow

/-! ## Nodes -/

/-- A node without data stays as it is.  Of a node with data, all else stays, and the
data block is converted. -/
inductive NodeFramed : Value → Value → Prop
  | kept {node : Value} (hdata : node.member? "data" = none) : NodeFramed node node
  | converted {old new data : Members Value}
      (hsame : Entries.SameExcept ["data"] old new)
      (hold : Entries.get? old "data" = some (.object data))
      (hnew : Entries.get? new "data" = some (.object (NodeData.migrate data))) :
      NodeFramed (.object old) (.object new)

theorem nodeFramed_migratedNode {node : Value} (hnode : NodeReadable node) :
    NodeFramed node (migratedNode node) := by
  cases hdata : node.member? "data" with
  | none =>
      rw [migratedNode, Value.mapMember_of_member?_none hdata]
      exact .kept hdata
  | some value =>
      obtain ⟨data, rfl⟩ := hnode value hdata
      have hnew := member?_data_migratedNode node
      rw [hdata, Option.map_some, migratedData] at hnew
      obtain ⟨members, rfl, hget⟩ := Value.eq_object_of_member? hdata
      obtain ⟨updated, hupdated, hsame⟩ :=
        Value.mapMember_object_same "data" migratedData members
      rw [migratedNode, hupdated] at hnew ⊢
      exact .converted hsame hget hnew

/-! ## The flow -/

/-- A flow keeps all its members but the identifier and the nodes.  An identifier that
is no integer is kept too, and the nodes are framed one by one. -/
structure Framed (old new : Members Value) : Prop where
  same : Entries.SameExcept ["id", "nodes"] old new
  id_kept : ∀ id, Entries.get? old "id" = some id →
    (∀ (number : Number) (n : ℤ), id = .number number → ¬number.IntegerText n) →
      Entries.get? new "id" = some id
  nodes_framed : ∀ value, Entries.get? old "nodes" = some value →
    ∃ nodes updated, value = .array nodes ∧
      Entries.get? new "nodes" = some (.array updated) ∧
      List.Forall₂ NodeFramed nodes updated

theorem framed_migrated {old : Members Value} (hreadable : Readable (.object old)) :
    ∃ new, migrated (.object old) = .object new ∧ Framed old new := by
  obtain ⟨middle, hmiddle, hid⟩ := Value.mapMember_object_same "id" migratedId old
  obtain ⟨new, hnew, hnodes⟩ :=
    Value.mapMember_object_same "nodes" migratedNodes middle
  have hmigrated : migrated (.object old) = .object new := by
    rw [migrated, hmiddle, hnew]
  have hnewId := member?_id_migrated (.object old)
  have hnewNodes := member?_nodes_migrated (.object old)
  rw [hmigrated] at hnewId hnewNodes
  refine ⟨new, hmigrated, ⟨hid.trans hnodes, ?_, ?_⟩⟩
  · intro id hget hkept
    rw [Value.member?, Value.member?, hget, Option.map_some] at hnewId
    have hnone : newId? id = .ok none := by
      apply newId?_eq_none
      intro number hnumber
      apply Option.eq_none_iff_forall_ne_some.mpr
      intro n hinteger
      exact hkept number n hnumber (Number.integer?_eq_some_iff.mp hinteger)
    rw [hnewId, migratedId_of_none hnone]
  · intro value hget
    rw [Value.member?, Value.member?, hget, Option.map_some] at hnewNodes
    obtain ⟨nodes, rfl, hall⟩ := hreadable.nodes_readable value hget
    refine ⟨nodes, nodes.map migratedNode, rfl, hnewNodes, ?_⟩
    rw [List.forall₂_map_right_iff, List.forall₂_same]
    exact fun node hmem => nodeFramed_migratedNode (hall node hmem)

end Flow

namespace Document

/-! ## The document -/

/-- A wrapper keeps all its members but the flow, which is framed; so is a flow that
stands by itself. -/
inductive Framed : Value → Value → Prop
  | wrapped {root updated old new : Members Value}
      (hsame : Entries.SameExcept ["flow"] root updated)
      (hold : Entries.get? root "flow" = some (.object old))
      (hnew : Entries.get? updated "flow" = some (.object new))
      (hflow : Flow.Framed old new) : Framed (.object root) (.object updated)
  | bare {old new : Members Value} (hbare : "flow" ∉ Entries.keys old)
      (hflow : Flow.Framed old new) : Framed (.object old) (.object new)

/-- A migration changes nothing but the identifier of the flow, if it is an integer,
and the data blocks of its nodes, which are converted. -/
theorem migrate_framed {document : Value} {migration : Migration}
    (hok : migrate document = .ok migration) : Framed document migration.document := by
  obtain ⟨hreadable, rfl⟩ := migrate_eq_ok_iff.mp hok
  obtain ⟨old, hold⟩ := hreadable.is_object
  rw [hold] at hreadable
  obtain ⟨new, hnew, hframed⟩ := Flow.framed_migrated hreadable
  rw [flow, wrappedFlow?_eq_member?] at hold
  change Framed document (migrated document)
  rw [migrated, isWrapped, wrappedFlow?_eq_member?]
  cases hwrapped : document.member? "flow" with
  | none =>
      rw [hwrapped, Option.getD_none] at hold
      subst hold
      rw [Option.isSome_none, if_neg (by decide), hnew]
      exact .bare (Entries.get?_eq_none_iff.mp hwrapped) hframed
  | some inner =>
      rw [hwrapped, Option.getD_some] at hold
      subst hold
      obtain ⟨root, rfl, hget⟩ := Value.eq_object_of_member? hwrapped
      obtain ⟨updated, hupdated, hsame⟩ :=
        Value.mapMember_object_same "flow" Flow.migrated root
      have hflow := Value.member?_mapMember "flow" "flow" Flow.migrated (.object root)
      rw [hupdated, if_pos rfl, hwrapped, Option.map_some, hnew] at hflow
      rw [Option.isSome_some, if_pos rfl, hupdated]
      exact .wrapped hsame hget hflow hframed

theorem migrate_framed_wrappedExample :
    ∃ migration, migrate wrappedExample = .ok migration ∧
      Framed wrappedExample migration.document ∧
      migration.document ≠ wrappedExample := by
  obtain ⟨migration, hok⟩ : ∃ migration, migrate wrappedExample = .ok migration :=
    exists_migration (by decide +kernel)
  refine ⟨migration, hok, migrate_framed hok, ?_⟩
  have hchanged : (migrate wrappedExample).toOption.map Migration.document ≠
      some wrappedExample := by decide +kernel
  rw [hok] at hchanged
  exact fun hsame => hchanged (congrArg some hsame)

end Document

end FlowMigration

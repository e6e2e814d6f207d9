import FlowMigration.Flow.Conformance
import FlowMigration.Proofs.Json.Member

/-!
# Laws of the conversion of node data

What one member of the old block adds to the new one, and from it what a whole block
becomes: the sequence of the new keys, where the new values come from, and that a
block in the new layout, and no other, is left as it is.
-/

namespace FlowMigration.NodeData

open Json (Members Value)

/-- The key of the new block that a key leads to, if it is not dropped. -/
def newKey? (key : String) : Option String :=
  match role key with
  | .renamed newKey => some newKey
  | .form => some "config"
  | .dropped => none
  | .kept => some key

theorem role_eq_kept_iff {key : String} : role key = .kept ↔ key ∉ oldKeys := by
  simp only [role, oldKeys, List.mem_cons, List.not_mem_nil, or_false]
  split_ifs <;> simp_all

theorem role_targets_form : role "targets_form" = .form := by decide

theorem role_eq_form_iff {key : String} :
    role key = .form ↔ key = "targets_form" := by
  constructor
  · intro hrole
    simp only [role] at hrole
    split_ifs at hrole with hsources htargets hform hjson hui
    exact hform
  · rintro rfl
    exact role_targets_form

/-- The keys that lead to another key, each with that key. -/
def leads : List (String × String) :=
  [("sources", "outputs"), ("targets", "inputs"), ("targets_form", "config")]

theorem newKey?_eq_some_iff {key new : String} :
    newKey? key = some new ↔ (key, new) ∈ leads ∨ key ∉ oldKeys ∧ key = new := by
  simp only [newKey?, role, leads, oldKeys, List.mem_cons, List.not_mem_nil, or_false,
    Prod.mk.injEq]
  split_ifs <;> simp_all [eq_comm]

section Lead

variable {old new : String}

theorem ne_of_lead (hlead : (old, new) ∈ leads) : old ≠ new := by
  have hall : ∀ pair ∈ leads, pair.1 ≠ pair.2 := by decide
  exact hall _ hlead

theorem not_old_of_lead (hlead : (old, new) ∈ leads) : new ∉ oldKeys := by
  have hall : ∀ pair ∈ leads, pair.2 ∉ oldKeys := by decide
  exact hall _ hlead

/-- Only one other key leads to a key. -/
theorem eq_or_eq_of_lead (hlead : (old, new) ∈ leads) {key : String}
    (hkey : newKey? key = some new) : key = old ∨ key = new := by
  have hone : ∀ pair ∈ leads, ∀ other ∈ leads, pair.2 = other.2 → pair.1 = other.1 := by
    decide
  rcases newKey?_eq_some_iff.mp hkey with hother | ⟨-, hsame⟩
  · exact Or.inl (hone _ hother _ hlead rfl)
  · exact Or.inr hsame

end Lead

/-- No old key is made. -/
theorem not_old_of_newKey? {key new : String} (hnew : newKey? key = some new) :
    new ∉ oldKeys := by
  rcases newKey?_eq_some_iff.mp hnew with hlead | ⟨hkey, rfl⟩
  · exact not_old_of_lead hlead
  · exact hkey

theorem newKey?_eq_config_iff {key : String} :
    newKey? key = some "config" ↔ key = "config" ∨ key = "targets_form" := by
  constructor
  · intro hnew
    have hlead : ("targets_form", "config") ∈ leads := by decide
    exact (eq_or_eq_of_lead hlead hnew).symm
  · rintro (rfl | rfl) <;> decide

namespace Draft

/-- Adds the members of an old block in turn. -/
def addAll (draft : Draft) (data : Members Value) : Draft :=
  data.foldl (fun draft member => draft.add member.1 member.2) draft

@[simp]
theorem addAll_nil (draft : Draft) : draft.addAll [] = draft := rfl

@[simp]
theorem addAll_cons (draft : Draft) (member : String × Value)
    (rest : Members Value) :
    draft.addAll (member :: rest) = (draft.add member.1 member.2).addAll rest := rfl

theorem addAll_append (draft : Draft) (left right : Members Value) :
    draft.addAll (left ++ right) = (draft.addAll left).addAll right :=
  List.foldl_append

/-! ## What one member adds -/

theorem add_of_not_old {key : String} (hkey : key ∉ oldKeys) (draft : Draft)
    (value : Value) :
    draft.add key value =
      { draft with block := Entries.insert draft.block key value } := by
  rw [add, role_eq_kept_iff.mpr hkey]

theorem block_defaultConfig (draft : Draft) :
    draft.defaultConfig.block = draft.block ∨
      draft.defaultConfig.block =
        Entries.insert draft.block "config" (.object []) := by
  rw [defaultConfig]
  split
  · exact Or.inl rfl
  · exact Or.inr rfl

theorem keys_defaultConfig {draft : Draft}
    (hnodup : (Entries.keys draft.block).Nodup) :
    Entries.keys draft.defaultConfig.block =
      (Entries.keys draft.block ++ ["config"]).eraseDups := by
  rw [← Entries.keys_insert_eq_eraseDups hnodup "config" (.object []), defaultConfig]
  split
  · next hconfig =>
      rw [Entries.keys_insert_of_mem (Entries.contains_iff.mp hconfig)]
  · rfl

theorem keys_add {draft : Draft} (hnodup : (Entries.keys draft.block).Nodup)
    (key : String) (value : Value) :
    Entries.keys (draft.add key value).block =
      (Entries.keys draft.block ++ (newKey? key).toList).eraseDups := by
  rw [add, newKey?]
  cases hrole : role key with
  | renamed newKey => exact Entries.keys_insert_eq_eraseDups hnodup _ _
  | form =>
      cases hform : formData? value with
      | some config => exact Entries.keys_insert_eq_eraseDups hnodup _ _
      | none => exact keys_defaultConfig hnodup
  | dropped => simp [Entries.eraseDups_eq_self hnodup]
  | kept => exact Entries.keys_insert_eq_eraseDups hnodup _ _

theorem mem_keys_defaultConfig {draft : Draft} {newKey : String} :
    newKey ∈ Entries.keys draft.defaultConfig.block ↔
      newKey ∈ Entries.keys draft.block ∨ newKey = "config" := by
  rw [← Entries.mem_keys_insert (Value.object []), defaultConfig]
  split
  · next hconfig =>
      rw [Entries.keys_insert_of_mem (Entries.contains_iff.mp hconfig)]
  · rfl

/-- A member adds the key that it leads to, and no other. -/
theorem mem_keys_add {draft : Draft} {key newKey : String} {value : Value} :
    newKey ∈ Entries.keys (draft.add key value).block ↔
      newKey ∈ Entries.keys draft.block ∨ newKey? key = some newKey := by
  rw [add, newKey?]
  cases hrole : role key with
  | renamed renamedKey => simp [Entries.mem_keys_insert, eq_comm]
  | form =>
      cases hdata : formData? value with
      | some config => simp [Entries.mem_keys_insert, eq_comm]
      | none => simp [mem_keys_defaultConfig, eq_comm]
  | dropped => simp
  | kept => simp [Entries.mem_keys_insert, eq_comm]

theorem nodup_keys_add {draft : Draft} (hnodup : (Entries.keys draft.block).Nodup)
    (key : String) (value : Value) :
    (Entries.keys (draft.add key value).block).Nodup := by
  rw [keys_add hnodup]
  exact Entries.nodup_eraseDups _

/-! ## What a run of members adds -/

/-- The keys of the new block, in order, are those that the members lead to,
without repetitions. -/
theorem keys_addAll {draft : Draft} (hnodup : (Entries.keys draft.block).Nodup)
    (data : Members Value) :
    Entries.keys (draft.addAll data).block =
      (Entries.keys draft.block ++
        (Entries.keys data).filterMap newKey?).eraseDups := by
  induction data generalizing draft with
  | nil => simp [Entries.eraseDups_eq_self hnodup]
  | cons member rest ih =>
      rw [addAll_cons, ih (nodup_keys_add hnodup _ _), keys_add hnodup,
        Entries.eraseDups_eraseDups_append, List.append_assoc]
      cases hnew : newKey? member.1 <;> simp [hnew]

/-- The same for a whole block, which starts from nothing. -/
theorem keys_addAll_empty (data : Members Value) :
    Entries.keys (empty.addAll data).block =
      ((Entries.keys data).filterMap newKey?).eraseDups :=
  @keys_addAll empty List.nodup_nil data

/-- Members whose keys are kept are inserted in turn, and nothing is counted. -/
theorem addAll_of_not_old {data : Members Value}
    (hkeys : ∀ key ∈ Entries.keys data, key ∉ oldKeys) :
    empty.addAll data = ⟨Entries.ofPairs data, 0⟩ := by
  induction data using List.reverseRecOn with
  | nil => rfl
  | append_singleton data member ih =>
      have hdata : ∀ key ∈ Entries.keys data, key ∉ oldKeys := fun key hkey =>
        hkeys key (by rw [Entries.keys_append]; exact List.mem_append_left _ hkey)
      have hmember : member.1 ∉ oldKeys :=
        hkeys member.1 (by rw [Entries.keys_append]; simp)
      rw [addAll_append, ih hdata, addAll_cons, addAll_nil,
        add_of_not_old hmember, Entries.ofPairs_append_singleton]

end Draft

/-! ## The new block -/

theorem draft_eq (data : Members Value) :
    draft data = (Draft.empty.addAll data).defaultConfig := rfl

/-- The keys of the new block are those that the old keys lead to, each where it
first occurs, and then `config` unless it is among them. -/
theorem keys_migrate (data : Members Value) :
    Entries.keys (migrate data) =
      ((Entries.keys data).filterMap newKey? ++ ["config"]).eraseDups := by
  have hnodup : (Entries.keys (Draft.empty.addAll data).block).Nodup := by
    rw [Draft.keys_addAll_empty]
    exact Entries.nodup_eraseDups _
  rw [migrate, draft_eq, Draft.keys_defaultConfig hnodup, Draft.keys_addAll_empty,
    Entries.eraseDups_eraseDups_append]

theorem nodup_keys_migrate (data : Members Value) :
    (Entries.keys (migrate data)).Nodup := by
  rw [keys_migrate]
  exact Entries.nodup_eraseDups _

/-- Whatever the old block holds, the new one is in the new layout. -/
theorem conforms_migrate (data : Members Value) : Conforms (migrate data) where
  has_config := by
    rw [keys_migrate, List.mem_eraseDups]
    simp
  no_old_key := by
    intro old hold hmem
    rw [keys_migrate, List.mem_eraseDups, List.mem_append, List.mem_filterMap] at hmem
    rcases hmem with ⟨key, -, hnew⟩ | hconfig
    · exact not_old_of_newKey? hnew hold
    · rw [List.mem_singleton] at hconfig
      subst hconfig
      revert hold
      decide

/-- A block in the new layout is rebuilt, and nothing is counted. -/
theorem draft_of_conforms {data : Members Value}
    (hnodup : (Entries.keys data).Nodup) (hconforms : Conforms data) :
    draft data = ⟨data, 0⟩ := by
  have hkeys : ∀ key ∈ Entries.keys data, key ∉ oldKeys := fun key hmem hold =>
    hconforms.no_old_key key hold hmem
  rw [draft_eq, Draft.addAll_of_not_old hkeys, Entries.ofPairs_eq_self hnodup,
    Draft.defaultConfig, if_pos (Entries.contains_iff.mpr hconforms.has_config)]

theorem migrate_eq_self_iff {data : Members Value}
    (hnodup : (Entries.keys data).Nodup) :
    migrate data = data ↔ Conforms data := by
  constructor
  · intro hsame
    rw [← hsame]
    exact conforms_migrate data
  · intro hconforms
    rw [migrate, draft_of_conforms hnodup hconforms]

/-! ## The new values -/

section Values

variable {P : Value → Prop}

theorem Draft.forall_values_defaultConfig {draft : Draft}
    (hempty : P (.object [])) (hblock : ∀ member ∈ draft.block, P member.2) :
    ∀ member ∈ draft.defaultConfig.block, P member.2 := by
  intro member hmem
  rcases draft.block_defaultConfig with hsame | hnew
  · exact hblock member (hsame ▸ hmem)
  · rw [hnew] at hmem
    rcases Entries.mem_insert hmem with rfl | hold
    · exact hempty
    · exact hblock member hold

theorem Draft.forall_values_add {draft : Draft} {key : String} {value : Value}
    (hempty : P (.object []))
    (hform : ∀ config, formData? value = some config → P config) (hvalue : P value)
    (hblock : ∀ member ∈ draft.block, P member.2) :
    ∀ member ∈ (draft.add key value).block, P member.2 := by
  have hinsert : ∀ (newKey : String) (new : Value), P new →
      ∀ member ∈ Entries.insert draft.block newKey new, P member.2 := by
    intro newKey new hnew member hmem
    rcases Entries.mem_insert hmem with rfl | hold
    · exact hnew
    · exact hblock member hold
  rw [Draft.add]
  cases hrole : role key with
  | renamed newKey => exact hinsert newKey value hvalue
  | form =>
      cases hdata : formData? value with
      | some config => exact hinsert "config" config (hform config hdata)
      | none => exact Draft.forall_values_defaultConfig hempty hblock
  | dropped => exact hblock
  | kept => exact hinsert key value hvalue

/-- What holds of the values of the old block, of every `form_data` and of an empty
object holds of the values of the new block. -/
theorem forall_values_migrate {data : Members Value} (hempty : P (.object []))
    (hform : ∀ form config, P form → formData? form = some config → P config)
    (hdata : ∀ member ∈ data, P member.2) :
    ∀ member ∈ migrate data, P member.2 := by
  have hrun : ∀ draft : Draft, (∀ member ∈ draft.block, P member.2) →
      ∀ member ∈ (draft.addAll data).block, P member.2 := by
    induction data with
    | nil => exact fun draft hblock => hblock
    | cons member rest ih =>
        intro draft hblock
        have hvalue := hdata member List.mem_cons_self
        refine ih (fun other hother => hdata other (List.mem_cons_of_mem _ hother)) _
          (Draft.forall_values_add hempty ?_ hvalue hblock)
        exact fun config => hform member.2 config hvalue
  rw [migrate, draft_eq]
  apply Draft.forall_values_defaultConfig hempty
  apply hrun
  simp [Draft.empty]

end Values

theorem formData?_eq_member? (form : Value) :
    formData? form = form.member? "form_data" := by
  cases form <;> rfl

/-- The new block nests no deeper than the old one, a default `config` apart. -/
theorem depth_migrate_le (data : Members Value) :
    (Value.object (migrate data)).depth ≤ max (Value.object data).depth 2 := by
  have hdata := Value.depthMembers_le_iff.mp (le_refl (Value.depthMembers data))
  rw [Value.depth_object data, Nat.add_max_add_right _ 1 1, Value.depth_object_le_iff]
  apply forall_values_migrate (P := fun value =>
    value.depth ≤ max (Value.depthMembers data) 1)
  · exact le_max_right _ _
  · intro form config hform hdata
    rw [formData?_eq_member?] at hdata
    exact (Value.depth_of_member?_lt hdata).le.trans hform
  · exact fun member hmem => (hdata member hmem).trans (le_max_left _ _)

/-- What is said of the keys of a block holds of no keys and is kept when the block is
migrated. -/
structure KeptKeys (P : List String → Prop) : Prop where
  nil : P []
  migrate : ∀ data : Members Value, P (Entries.keys data) → P (Entries.keys (migrate data))

theorem keptKeys_nodup : KeptKeys List.Nodup where
  nil := List.nodup_nil
  migrate := fun data _ => nodup_keys_migrate data

/-- No key is made but those of the new layout. -/
theorem keptKeys_not_mem {key : String} (hkey : ∀ lead ∈ leads, lead.2 ≠ key) :
    KeptKeys fun keys => key ∉ keys where
  nil := List.not_mem_nil
  migrate := by
    intro data hold hnew
    rw [keys_migrate, List.mem_eraseDups, List.mem_append, List.mem_filterMap,
      List.mem_singleton] at hnew
    rcases hnew with ⟨old, hmem, hlead⟩ | hconfig
    · rcases newKey?_eq_some_iff.mp hlead with hlead | ⟨-, rfl⟩
      · exact hkey _ hlead rfl
      · exact hold hmem
    · exact hkey ("targets_form", "config") (by decide) hconfig.symm

theorem eachObject_migrate {P : List String → Prop} (hkept : KeptKeys P)
    {data : Members Value} (hdata : (Value.object data).EachObject P) :
    (Value.object (migrate data)).EachObject P := by
  rw [Value.eachObject_object_iff] at hdata ⊢
  refine ⟨hkept.migrate data hdata.1, forall_values_migrate ?_ ?_ hdata.2⟩
  · exact Value.eachObject_object_iff.mpr ⟨hkept.nil, by simp⟩
  · intro form config hform hconfig
    rw [formData?_eq_member?] at hconfig
    exact hform.of_member? hconfig

end FlowMigration.NodeData

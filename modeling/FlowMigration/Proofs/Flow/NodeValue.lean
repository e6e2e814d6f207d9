import FlowMigration.Proofs.Flow.Accounting

/-!
# The values of a converted block

A block is converted member by member, and several members may write to the same key.
The last one that gives a value to a key decides it, and an empty `config` stands only
where none does.  From this follows what stands under every key of the new block, read
off the old block and the order of its keys.
-/

namespace FlowMigration

open Json (Members Value)

namespace Entries

variable {κ α : Type} [DecidableEq κ]

/-- The value of the later one of two keys, or of the only one that is there. -/
def later? (entries : Entries κ α) (left right : κ) : Option α :=
  match get? entries left, get? entries right with
  | some first, some second =>
      if (keys entries).idxOf left < (keys entries).idxOf right then some second
      else some first
  | some first, none => some first
  | none, found => found

end Entries

namespace NodeData

/-! ## What a member gives -/

/-- The value that a member of the old block gives to a key of the new one. -/
def given? (new : String) (member : String × Value) : Option Value :=
  if newKey? member.1 = some new then
    if member.1 = "targets_form" then formData? member.2 else some member.2
  else none

/-- The values that the members of a block give to a key, in order. -/
def givenValues (data : Members Value) (new : String) : List Value :=
  data.filterMap (given? new)

/-- What stands under a key to which no member gives a value. -/
def default? (new : String) : Option Value :=
  if new = "config" then some (.object []) else none

theorem Draft.get?_defaultConfig (draft : Draft) (new : String) :
    Entries.get? draft.defaultConfig.block new =
      (Entries.get? draft.block new).or (default? new) := by
  rw [defaultConfig, default?]
  by_cases hnew : "config" = new
  · subst hnew
    cases hget : Entries.get? draft.block "config" with
    | none => simp [Entries.contains, hget, Entries.get?_insert]
    | some value => simp [Entries.contains, hget]
  · rw [if_neg (Ne.symm hnew), Option.or_none]
    split
    · rfl
    · simp [Entries.get?_insert, hnew]

/-- A value that is given replaces what was there.  A form without `form_data` may add
the default, which is why the default stands on both sides. -/
theorem Draft.get?_add (draft : Draft) (key : String) (value : Value) (new : String) :
    (Entries.get? (draft.add key value).block new).or (default? new) =
      (given? new (key, value)).or
        ((Entries.get? draft.block new).or (default? new)) := by
  have hform := @role_eq_form_iff key
  rw [add, given?, newKey?]
  cases hrole : role key with
  | renamed renamedKey =>
      simp only [hrole, reduceCtorEq, false_iff] at hform
      by_cases hnew : renamedKey = new
      · simp [Entries.get?_insert, hform, hnew]
      · simp [Entries.get?_insert, hnew]
  | form =>
      simp only [hrole, true_iff] at hform
      cases formData? value with
      | some config =>
          by_cases hnew : "config" = new
          · simp [Entries.get?_insert, hform, hnew]
          · simp [Entries.get?_insert, hnew]
      | none => simp [get?_defaultConfig, hform, Option.or_assoc]
  | dropped => simp
  | kept =>
      simp only [hrole, reduceCtorEq, false_iff] at hform
      by_cases hnew : key = new
      · simp [Entries.get?_insert, hnew, hnew ▸ hform]
      · simp [Entries.get?_insert, hnew]

/-- The last member that gives a value to a key of the new block decides it. -/
theorem get?_migrate (data : Members Value) (new : String) :
    Entries.get? (migrate data) new =
      (givenValues data new).getLast?.or (default? new) := by
  rw [migrate, draft_eq, Draft.get?_defaultConfig]
  -- The last member decides, so members are taken off the end.
  induction data using List.reverseRecOn with
  | nil => rfl
  | append_singleton data member ih =>
      have hvalues : givenValues (data ++ [member]) new =
          givenValues data new ++ (given? new member).toList := by
        cases hgiven : given? new member <;> simp [givenValues, hgiven]
      rw [Draft.addAll_append, Draft.addAll_cons, Draft.addAll_nil, Draft.get?_add, ih,
        hvalues, List.getLast?_append, Option.or_assoc]
      cases given? new member <;> rfl

/-! ## Which keys give a value -/

section Given

variable {key new : String} {value : Value}

theorem given?_of_not_lead (hnew : newKey? key ≠ some new) :
    given? new (key, value) = none :=
  if_neg hnew

theorem given?_self (hkey : key ∉ oldKeys) : given? key (key, value) = some value := by
  have hnew : newKey? key = some key := newKey?_eq_some_iff.mpr (Or.inr ⟨hkey, rfl⟩)
  have hform : key ≠ "targets_form" := by
    rintro rfl
    exact hkey (by decide)
  rw [given?, if_pos hnew, if_neg hform]

theorem given?_of_renamed (hrole : role key = .renamed new) :
    given? new (key, value) = some value := by
  have hform : key ≠ "targets_form" := by
    intro hkey
    rw [role_eq_form_iff.mpr hkey] at hrole
    cases hrole
  rw [given?, newKey?, hrole, if_pos rfl, if_neg hform]

theorem given?_of_form : given? "config" ("targets_form", value) = formData? value := by
  rw [given?, if_pos (show newKey? "targets_form" = some "config" by decide), if_pos rfl]

end Given

/-! ## The last of two keys -/

theorem getLast?_givenValues_cons (member : String × Value) (rest : Members Value)
    (new : String) :
    (givenValues (member :: rest) new).getLast? =
      (givenValues rest new).getLast?.or (given? new member) := by
  rw [givenValues, List.filterMap_cons]
  cases given? new member with
  | none => simp [givenValues]
  | some value =>
      rw [List.getLast?_cons, givenValues]
      cases (List.filterMap (given? new) rest).getLast? <;> rfl

section Pair

variable {data : Members Value} {old new : String}

/-- If `old` and `new` are the only keys that lead to `new`, the later one of them that
gives a value decides it; `new` always gives one. -/
theorem getLast?_givenValues (hnodup : (Entries.keys data).Nodup) (hne : old ≠ new)
    (hnew : new ∉ oldKeys)
    (hother : ∀ key, newKey? key = some new → key = old ∨ key = new) :
    (givenValues data new).getLast? =
      (if new ∈ Entries.keys data ∧
          (Entries.keys data).idxOf old < (Entries.keys data).idxOf new then none
        else (Entries.get? data old).bind fun value => given? new (old, value)).or
        (Entries.get? data new) := by
  induction data with
  | nil => rfl
  | cons member rest ih =>
      obtain ⟨key, value⟩ := member
      rw [Entries.keys_cons, List.nodup_cons] at hnodup
      rw [getLast?_givenValues_cons, ih hnodup.2, Entries.keys_cons]
      have hrest := Entries.get?_eq_none_iff.mpr hnodup.1
      by_cases hold : key = old
      · subst hold
        cases hget : Entries.get? rest new with
        | none =>
            have hmem := Entries.get?_eq_none_iff.mp hget
            simp [Entries.get?, hrest, hget, hne, Ne.symm hne, hmem]
        | some found =>
            have hmem := Entries.mem_keys_of_get? hget
            simp [Entries.get?, hrest, hget, hne, hmem]
      · by_cases hkey : key = new
        · subst hkey
          simp [Entries.get?, hrest, hold, given?_self hnew, hnodup.1]
        · have hnone : given? new (key, value) = none :=
            given?_of_not_lead fun hlead => (hother key hlead).elim hold hkey
          simp [Entries.get?, hold, hkey, Ne.symm hkey, hnone, List.idxOf_cons_ne]

end Pair

/-! ## What stands under each key -/

/-- The `config` of the new block, read off the old one: the `form_data` of the form,
unless the old block has a `config` that comes after the form. -/
def configOf (data : Members Value) : Value :=
  let kept := (Entries.get? data "config").getD (.object [])
  if "config" ∈ Entries.keys data ∧
      (Entries.keys data).idxOf "targets_form" < (Entries.keys data).idxOf "config" then
    kept
  else ((Entries.get? data "targets_form").bind (Value.member? "form_data")).getD kept

section Values

variable {data : Members Value} (hnodup : (Entries.keys data).Nodup)
include hnodup

/-- A key to which another one is renamed has the value of the later one of them. -/
theorem get?_migrate_of_renamed {old new : String} (hlead : (old, new) ∈ leads)
    (hrole : role old = .renamed new) (hconfig : new ≠ "config") :
    Entries.get? (migrate data) new = Entries.later? data old new := by
  rw [get?_migrate, getLast?_givenValues hnodup (ne_of_lead hlead)
    (not_old_of_lead hlead) (fun _ => eq_or_eq_of_lead hlead), default?, if_neg hconfig,
    Option.or_none, Entries.later?]
  simp only [given?_of_renamed hrole]
  cases hleft : Entries.get? data old with
  | none => simp
  | some first =>
      cases hright : Entries.get? data new with
      | none =>
          have hmem := Entries.get?_eq_none_iff.mp hright
          simp [hmem]
      | some second =>
          have hmem := Entries.mem_keys_of_get? hright
          simp only [Option.bind_some, hmem, true_and]
          split
          · rfl
          · rfl

theorem get?_migrate_config :
    Entries.get? (migrate data) "config" = some (configOf data) := by
  have hlead : ("targets_form", "config") ∈ leads := by decide
  rw [get?_migrate, getLast?_givenValues hnodup (ne_of_lead hlead)
    (not_old_of_lead hlead) (fun _ => eq_or_eq_of_lead hlead), default?, if_pos rfl,
    configOf]
  simp only [given?_of_form, formData?_eq_member?]
  split
  · simp [Option.or_some]
  · simp [Option.or_some]

/-- A key that no other one leads to keeps its value. -/
theorem get?_migrate_of_kept {key : String} (hkey : key ∉ oldKeys)
    (hlead : ∀ old, (old, key) ∉ leads) :
    Entries.get? (migrate data) key = Entries.get? data key := by
  have hconfig : key ≠ "config" := by
    rintro rfl
    exact hlead "targets_form" (by decide)
  have hdropped : "json_schema" ≠ key := by
    rintro rfl
    exact hkey (by decide)
  have hnone : newKey? "json_schema" ≠ some key := by
    rw [show newKey? "json_schema" = none by decide]
    exact Option.some_ne_none key |>.symm
  -- A dropped key takes the place of the other key, and gives no value.
  rw [get?_migrate, getLast?_givenValues hnodup hdropped hkey, default?, if_neg hconfig]
  · simp [given?_of_not_lead hnone]
  · intro other hother
    rcases newKey?_eq_some_iff.mp hother with hmem | ⟨-, hsame⟩
    · exact absurd hmem (hlead other)
    · exact Or.inr hsame

end Values

/-- What stands under every key of the new block.  The old keys are gone, a renamed key
has the value of its later source, the `config` is always there, and every other key
has the value that it had. -/
theorem get?_migrate_every_key {data : Members Value}
    (hnodup : (Entries.keys data).Nodup) :
    (∀ key ∈ oldKeys, Entries.get? (migrate data) key = none) ∧
      Entries.get? (migrate data) "outputs" =
        Entries.later? data "sources" "outputs" ∧
      Entries.get? (migrate data) "inputs" =
        Entries.later? data "targets" "inputs" ∧
      Entries.get? (migrate data) "config" = some (configOf data) ∧
      ∀ key, key ∉ oldKeys → key ∉ ["outputs", "inputs", "config"] →
        Entries.get? (migrate data) key = Entries.get? data key := by
  refine ⟨?_, ?_, ?_, get?_migrate_config hnodup, ?_⟩
  · intro key hold
    apply Entries.get?_eq_none_iff.mpr
    exact (conforms_migrate data).no_old_key key hold
  · exact get?_migrate_of_renamed hnodup (by decide) (by decide) (by decide)
  · exact get?_migrate_of_renamed hnodup (by decide) (by decide) (by decide)
  · intro key hkey hother
    apply get?_migrate_of_kept hnodup hkey
    intro old hlead
    exact hother (List.mem_map_of_mem (f := Prod.snd) hlead)

/-- A block in which every renamed key is there under its new name too, once before and
once after the old one, and a `config` comes before the form. -/
def crowdedBlock : Members Value :=
  [("outputs", .bool false), ("config", .bool false), ("targets", .bool false),
    ("note", .null), ("sources", .bool true), ("inputs", .bool true),
    ("targets_form", .object [("form_data", .null)]), ("ui_schema", .null),
    ("size", .null)]

theorem get?_migrate_every_key_crowdedBlock :
    (Entries.keys crowdedBlock).Nodup ∧
      Entries.get? (migrate crowdedBlock) "targets_form" = none ∧
      Entries.get? (migrate crowdedBlock) "outputs" = some (.bool true) ∧
      Entries.get? (migrate crowdedBlock) "inputs" = some (.bool true) ∧
      Entries.get? (migrate crowdedBlock) "config" = some .null ∧
      Entries.get? (migrate crowdedBlock) "note" = some .null := by
  have hnodup : (Entries.keys crowdedBlock).Nodup := by decide
  obtain ⟨hgone, houtputs, hinputs, hconfig, hkept⟩ := get?_migrate_every_key hnodup
  exact ⟨hnodup, hgone "targets_form" (by decide), houtputs, hinputs, hconfig,
    hkept "note" (by decide) (by decide)⟩

end NodeData

end FlowMigration

import FlowMigration.Proofs.Flow.NodeValue

/-!
# The order of the keys of a converted block

The place of a key in the new block is fixed when it is first written to, its value when
it is last written to.  So the keys of the new block are the new names of the old keys in
the order in which they are first met, and `config` comes last if no key leads to it.
-/

namespace FlowMigration.NodeData

open Json (Members Value)

/-- The name that a key has in the new block, if it is not dropped. -/
def newName (key : String) : String :=
  (Entries.get? leads key).getD key

/-- The keys of the new block, read off those of the old one. -/
def newKeys (keys : List String) : List String :=
  let firsts := ((keys.filter (· ∉ droppedNames)).map newName).eraseDups
  if "config" ∈ firsts then firsts else firsts ++ ["config"]

/-- The place of the first key that is called `new` in the new block; without one it is
the place after all keys. -/
def firstSource (keys : List String) (new : String) : ℕ :=
  keys.findIdx (newName · = new)

/-- The keys that are written or removed by the conversion. -/
def touchedNames : List String :=
  oldKeys ++ ["outputs", "inputs", "config"]

/-! ## New names -/

theorem newName_of_not_old {key : String} (hkey : key ∉ oldKeys) : newName key = key := by
  have hall : ∀ key ∈ Entries.keys leads, key ∈ oldKeys := by decide
  have hnone := Entries.get?_eq_none_iff.mpr fun hmem => hkey (hall key hmem)
  rw [newName, hnone, Option.getD_none]

theorem newKey?_eq_newName (key : String) :
    newKey? key = if key ∈ droppedNames then none else some (newName key) := by
  by_cases hkey : key ∈ oldKeys
  · have hall : ∀ key ∈ oldKeys,
        newKey? key = if key ∈ droppedNames then none else some (newName key) := by
      decide
    exact hall key hkey
  · have hall : ∀ key ∈ droppedNames, key ∈ oldKeys := by decide
    rw [if_neg fun hmem => hkey (hall key hmem), newName_of_not_old hkey]
    exact newKey?_eq_some_iff.mpr (Or.inr ⟨hkey, rfl⟩)

/-- A key that is dropped would keep its name, so no new key is called like it. -/
theorem newKey?_eq_some_iff_newName {key new : String} (hnew : new ∉ oldKeys) :
    newKey? key = some new ↔ newName key = new := by
  have hall : ∀ key ∈ droppedNames, newName key ∈ oldKeys := by decide
  rw [newKey?_eq_newName]
  split
  · next hkey =>
      simp only [reduceCtorEq, false_iff]
      rintro rfl
      exact hnew (hall key hkey)
  · rw [Option.some.injEq]

theorem newName_eq_iff {key new : String} (hnew : new ∉ touchedNames) :
    newName key = new ↔ key = new := by
  by_cases hkey : key ∈ oldKeys
  · have hall : ∀ key ∈ oldKeys, newName key ∈ touchedNames ∧ key ∈ touchedNames := by
      decide
    obtain ⟨hname, hmem⟩ := hall key hkey
    constructor
    · rintro rfl
      exact absurd hname hnew
    · rintro rfl
      exact absurd hmem hnew
  · rw [newName_of_not_old hkey]

theorem filterMap_newKey? (keys : List String) :
    keys.filterMap newKey? = (keys.filter (· ∉ droppedNames)).map newName := by
  induction keys with
  | nil => rfl
  | cons key rest ih =>
      rw [List.filterMap_cons, newKey?_eq_newName, List.filter_cons]
      by_cases hkey : key ∈ droppedNames
      · simp [hkey, ih]
      · simp [hkey, ih]

/-! ## The order of the new keys -/

theorem keys_migrate_eq_newKeys (data : Members Value) :
    Entries.keys (migrate data) = newKeys (Entries.keys data) := by
  rw [keys_migrate, filterMap_newKey?, Entries.eraseDups_concat, newKeys]
  simp only [List.mem_eraseDups]

/-- The `config` that may be added counts as a key after all others. -/
theorem keys_migrate_eq_eraseDups (data : Members Value) :
    Entries.keys (migrate data) =
      ((Entries.keys data ++ ["config"]).filterMap newKey?).eraseDups := by
  have hconfig : ["config"].filterMap newKey? = ["config"] := by decide
  rw [keys_migrate, List.filterMap_append, hconfig]

theorem findIdx_newKey? {keys : List String} {new : String}
    (hnew : new ∈ (keys ++ ["config"]).filterMap newKey?) :
    (keys ++ ["config"]).findIdx (newKey? · = some new) = firstSource keys new := by
  obtain ⟨source, hsource, hlead⟩ := List.mem_filterMap.mp hnew
  have hname : ∀ key, newKey? key = some new ↔ newName key = new := fun key =>
    newKey?_eq_some_iff_newName (not_old_of_newKey? hlead)
  simp only [hname, firstSource, List.findIdx_append]
  split
  · rfl
  · next hnone =>
      -- No key is called `new`, so it is the `config` that is added.
      have hlast : keys.findIdx (newName · = new) = keys.length :=
        le_antisymm List.findIdx_le_length (Nat.le_of_not_lt hnone)
      have hconfig : newName "config" = new := by
        rcases List.mem_append.mp hsource with hmem | hmem
        · rw [List.findIdx_eq_length] at hlast
          have hother := hlast source hmem
          simp [(hname source).mp hlead] at hother
        · rw [List.mem_singleton] at hmem
          exact hmem ▸ (hname source).mp hlead
      simp [hlast, hconfig]

/-- Any two keys of the new block stand in the order of their first sources. -/
theorem idxOf_keys_migrate_lt_iff {data : Members Value} {left right : String}
    (hleft : left ∈ Entries.keys (migrate data))
    (hright : right ∈ Entries.keys (migrate data)) :
    (Entries.keys (migrate data)).idxOf left <
        (Entries.keys (migrate data)).idxOf right ↔
      firstSource (Entries.keys data) left < firstSource (Entries.keys data) right := by
  rw [keys_migrate_eq_eraseDups, List.mem_eraseDups] at hleft hright
  rw [keys_migrate_eq_eraseDups, Entries.idxOf_eraseDups_lt_iff,
    Entries.idxOf_filterMap_lt_iff, findIdx_newKey? hleft, findIdx_newKey? hright]

theorem firstSource_of_untouched {key : String} (hkey : key ∉ touchedNames)
    (keys : List String) : firstSource keys key = keys.idxOf key := by
  simp only [firstSource, newName_eq_iff hkey]
  rfl

theorem mem_keys_migrate_of_untouched {data : Members Value} {key : String}
    (hmem : key ∈ Entries.keys data) (hkey : key ∉ touchedNames) :
    key ∈ Entries.keys (migrate data) := by
  have hold : key ∉ oldKeys := fun hold => hkey (List.mem_append_left _ hold)
  have hnew : newKey? key = some key := newKey?_eq_some_iff.mpr (Or.inr ⟨hold, rfl⟩)
  rw [keys_migrate, List.mem_eraseDups]
  exact List.mem_append_left _ (List.mem_filterMap.mpr ⟨key, hmem, hnew⟩)

/-- The keys of the new block are the new names of the old keys, each once, where it is
first met, and then `config` if it is not among them.  So two keys of the new block stand
as their first sources do, and two keys that the conversion does not touch stand as they
did. -/
theorem keys_migrate_in_order (data : Members Value) :
    Entries.keys (migrate data) = newKeys (Entries.keys data) ∧
      (Entries.keys (migrate data)).Nodup ∧
      (∀ left ∈ Entries.keys (migrate data), ∀ right ∈ Entries.keys (migrate data),
        ((Entries.keys (migrate data)).idxOf left <
            (Entries.keys (migrate data)).idxOf right ↔
          firstSource (Entries.keys data) left <
            firstSource (Entries.keys data) right)) ∧
      ∀ left ∈ Entries.keys data, ∀ right ∈ Entries.keys data,
        left ∉ touchedNames → right ∉ touchedNames →
          ((Entries.keys (migrate data)).idxOf left <
              (Entries.keys (migrate data)).idxOf right ↔
            (Entries.keys data).idxOf left < (Entries.keys data).idxOf right) := by
  refine ⟨keys_migrate_eq_newKeys data, nodup_keys_migrate data, ?_, ?_⟩
  · intro left hleft right hright
    exact idxOf_keys_migrate_lt_iff hleft hright
  · intro left hleft right hright hkept hkeptRight
    rw [idxOf_keys_migrate_lt_iff (mem_keys_migrate_of_untouched hleft hkept)
      (mem_keys_migrate_of_untouched hright hkeptRight),
      firstSource_of_untouched hkept, firstSource_of_untouched hkeptRight]

/-- In `crowdedBlock`, `outputs` and `config` stand before the keys that are renamed to
them, and `inputs` after. -/
theorem keys_migrate_in_order_crowdedBlock :
    Entries.keys (migrate crowdedBlock) =
        ["outputs", "config", "inputs", "note", "size"] ∧
      (Entries.keys (migrate crowdedBlock)).idxOf "inputs" <
        (Entries.keys (migrate crowdedBlock)).idxOf "note" ∧
      (Entries.keys (migrate crowdedBlock)).idxOf "note" <
        (Entries.keys (migrate crowdedBlock)).idxOf "size" := by
  obtain ⟨hkeys, -, hfirst, hkept⟩ := keys_migrate_in_order crowdedBlock
  have hnew : Entries.keys (migrate crowdedBlock) =
      ["outputs", "config", "inputs", "note", "size"] := hkeys.trans (by decide)
  refine ⟨hnew, ?_, ?_⟩
  · exact (hfirst "inputs" (by rw [hnew]; decide) "note" (by rw [hnew]; decide)).mpr
      (by decide)
  · exact (hkept "note" (by decide) "size" (by decide) (by decide) (by decide)).mpr
      (by decide)

end FlowMigration.NodeData

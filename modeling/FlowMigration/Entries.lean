/-!
# Ordered entries

Entries with a key each are kept in a list, in order.  A key that is inserted again
keeps its position and takes the new value, and a key that is new goes to the end.
-/

namespace FlowMigration

abbrev Entries (κ α : Type) := List (κ × α)

namespace Entries

variable {κ α : Type} [DecidableEq κ]

def keys (entries : Entries κ α) : List κ :=
  entries.map Prod.fst

def get? : Entries κ α → κ → Option α
  | [], _ => none
  | (k, value) :: rest, key => if k = key then some value else get? rest key

def contains (entries : Entries κ α) (key : κ) : Bool :=
  (get? entries key).isSome

def insert : Entries κ α → κ → α → Entries κ α
  | [], key, value => [(key, value)]
  | (k, old) :: rest, key, value =>
      if k = key then (k, value) :: rest else (k, old) :: insert rest key value

/-- What a list of pairs leaves when the pairs are inserted in turn: a repeated key
has its first position and its last value. -/
def ofPairs (pairs : List (κ × α)) : Entries κ α :=
  pairs.foldl (fun entries pair => insert entries pair.1 pair.2) []

theorem get?_insert (entries : Entries κ α) (key other : κ) (value : α) :
    get? (insert entries key value) other =
      if key = other then some value else get? entries other := by
  induction entries with
  | nil => rfl
  | cons pair rest ih =>
      obtain ⟨k, old⟩ := pair
      by_cases hkey : k = key
      · subst hkey
        by_cases hother : k = other <;> simp [insert, get?, hother]
      · by_cases hother : k = other
        · subst hother
          have hne : ¬key = k := fun h => hkey h.symm
          simp [insert, get?, hkey, hne]
        · simp [insert, get?, hkey, hother, ih]

/-- Inserting a key changes the sequence of keys only if the key is new. -/
theorem keys_insert (entries : Entries κ α) (key : κ) (value : α) :
    keys (insert entries key value) =
      if key ∈ keys entries then keys entries else keys entries ++ [key] := by
  induction entries with
  | nil => simp [insert, keys]
  | cons pair rest ih =>
      obtain ⟨k, old⟩ := pair
      by_cases hkey : k = key
      · simp [insert, keys, hkey]
      · have hne : key ≠ k := fun h => hkey h.symm
        simp only [keys] at ih
        by_cases hmem : key ∈ List.map Prod.fst rest
        · simp [insert, keys, hkey, hne, ih, hmem]
        · simp [insert, keys, hkey, hne, ih, hmem]

theorem isSome_get?_iff (entries : Entries κ α) (key : κ) :
    (get? entries key).isSome ↔ key ∈ keys entries := by
  induction entries with
  | nil => simp [get?, keys]
  | cons pair rest ih =>
      obtain ⟨k, value⟩ := pair
      simp only [keys] at ih
      by_cases hkey : k = key
      · simp [get?, keys, hkey]
      · have hne : key ≠ k := fun h => hkey h.symm
        simp [get?, keys, hkey, hne, ih]

/-- Keys that are distinct stay distinct when one is inserted. -/
theorem nodup_keys_insert {entries : Entries κ α} (hnodup : (keys entries).Nodup)
    (key : κ) (value : α) : (keys (insert entries key value)).Nodup := by
  rw [keys_insert]
  split
  · exact hnodup
  · next hnew =>
      rw [List.nodup_append]
      refine ⟨hnodup, by simp, ?_⟩
      intro a ha b hb
      rw [List.mem_singleton.mp hb]
      exact fun heq => hnew (heq ▸ ha)

/-- Whatever keys are repeated, the entries that are kept have distinct keys. -/
theorem nodup_keys_ofPairs (pairs : List (κ × α)) :
    (keys (ofPairs pairs)).Nodup := by
  have hfold : ∀ entries : Entries κ α, (keys entries).Nodup →
      (keys (pairs.foldl (fun entries pair => insert entries pair.1 pair.2)
        entries)).Nodup := by
    induction pairs with
    | nil => exact fun _ hnodup => hnodup
    | cons pair rest ih =>
        exact fun entries hnodup => ih _ (nodup_keys_insert hnodup pair.1 pair.2)
  exact hfold [] List.nodup_nil

end Entries

end FlowMigration

import FlowMigration.Entries
import Mathlib

/-!
# Laws of ordered entries

Entries with distinct keys are determined by the sequence of their keys and by what
is found under each.  The laws below say what an insertion and a run of insertions
do to both, and that inserting what is there already changes nothing.
-/

namespace FlowMigration.Entries

variable {κ α : Type} [DecidableEq κ]

omit [DecidableEq κ] in
@[simp]
theorem keys_nil : keys ([] : Entries κ α) = [] := rfl

omit [DecidableEq κ] in
@[simp]
theorem keys_cons (pair : κ × α) (rest : Entries κ α) :
    keys (pair :: rest) = pair.1 :: keys rest := rfl

omit [DecidableEq κ] in
theorem keys_append (left right : Entries κ α) :
    keys (left ++ right) = keys left ++ keys right :=
  List.map_append

omit [DecidableEq κ] in
theorem mem_keys_iff {entries : Entries κ α} {key : κ} :
    key ∈ keys entries ↔ ∃ value, (key, value) ∈ entries := by
  simp [keys]

/-! ## Finding -/

theorem get?_eq_none_iff {entries : Entries κ α} {key : κ} :
    get? entries key = none ↔ key ∉ keys entries := by
  rw [← isSome_get?_iff, Bool.not_eq_true, Option.isSome_eq_false_iff,
    Option.isNone_iff_eq_none]

theorem contains_iff {entries : Entries κ α} {key : κ} :
    contains entries key = true ↔ key ∈ keys entries :=
  isSome_get?_iff entries key

theorem mem_keys_of_get? {entries : Entries κ α} {key : κ} {value : α}
    (hget : get? entries key = some value) : key ∈ keys entries := by
  rw [← isSome_get?_iff, hget]
  rfl

theorem mem_of_get? {entries : Entries κ α} {key : κ} {value : α}
    (hget : get? entries key = some value) : (key, value) ∈ entries := by
  induction entries with
  | nil => simp [get?] at hget
  | cons pair rest ih =>
      obtain ⟨k, old⟩ := pair
      by_cases hkey : k = key
      · subst hkey
        simp only [get?, if_true, Option.some.injEq] at hget
        simp [hget]
      · simp only [get?, hkey, if_false] at hget
        exact List.mem_cons_of_mem _ (ih hget)

/-- With distinct keys, every entry is found under its key. -/
theorem get?_of_mem {entries : Entries κ α} {key : κ} {value : α}
    (hnodup : (keys entries).Nodup) (hmem : (key, value) ∈ entries) :
    get? entries key = some value := by
  induction entries with
  | nil => simp at hmem
  | cons pair rest ih =>
      obtain ⟨k, old⟩ := pair
      rw [keys_cons, List.nodup_cons] at hnodup
      rcases List.mem_cons.mp hmem with heq | htail
      · cases heq
        simp [get?]
      · have hne : k ≠ key := by
          rintro rfl
          exact hnodup.1 (mem_keys_iff.mpr ⟨value, htail⟩)
        simpa [get?, hne] using ih hnodup.2 htail

theorem get?_eq_some_iff {entries : Entries κ α} (hnodup : (keys entries).Nodup)
    {key : κ} {value : α} : get? entries key = some value ↔ (key, value) ∈ entries :=
  ⟨mem_of_get?, get?_of_mem hnodup⟩

/-- Entries with distinct keys are determined by their keys, in order, and by what
is found under each. -/
theorem eq_of_keys_eq {left right : Entries κ α} (hnodup : (keys left).Nodup)
    (hkeys : keys left = keys right)
    (hget : ∀ key, get? left key = get? right key) : left = right := by
  induction left generalizing right with
  | nil =>
      cases right with
      | nil => rfl
      | cons pair rest => simp at hkeys
  | cons pair rest ih =>
      cases right with
      | nil => simp at hkeys
      | cons other others =>
          obtain ⟨k, value⟩ := pair
          obtain ⟨l, content⟩ := other
          simp only [keys_cons, List.cons.injEq] at hkeys
          obtain ⟨rfl, htail⟩ := hkeys
          rw [keys_cons, List.nodup_cons] at hnodup
          have hhead := hget k
          simp only [get?, if_true, Option.some.injEq] at hhead
          have hrest : rest = others := by
            apply ih hnodup.2 htail
            intro key
            by_cases hkey : k = key
            · subst hkey
              have hleft := get?_eq_none_iff.mpr hnodup.1
              rw [htail] at hnodup
              rw [hleft, get?_eq_none_iff.mpr hnodup.1]
            · simpa [get?, hkey] using hget key
          rw [hhead, hrest]

theorem get?_eq_of_perm {left right : Entries κ α} (hnodup : (keys left).Nodup)
    (hperm : left.Perm right) (key : κ) : get? left key = get? right key := by
  have hright : (keys right).Nodup := (hperm.map Prod.fst).nodup_iff.mp hnodup
  ext value
  rw [get?_eq_some_iff hnodup, get?_eq_some_iff hright, hperm.mem_iff]

/-- Entries with distinct keys are determined up to their order by what is found under
each key. -/
theorem perm_of_get?_eq {left right : Entries κ α} (hleft : (keys left).Nodup)
    (hright : (keys right).Nodup) (hget : ∀ key, get? left key = get? right key) :
    left.Perm right := by
  apply (List.perm_ext_iff_of_nodup (List.Nodup.of_map _ hleft)
    (List.Nodup.of_map _ hright)).mpr
  intro entry
  rw [← get?_eq_some_iff hleft, ← get?_eq_some_iff hright, hget]

/-! ## Inserting -/

/-- Inserting what is found already changes nothing. -/
theorem insert_of_get? {entries : Entries κ α} {key : κ} {value : α}
    (hget : get? entries key = some value) : insert entries key value = entries := by
  induction entries with
  | nil => simp [get?] at hget
  | cons pair rest ih =>
      obtain ⟨k, old⟩ := pair
      by_cases hkey : k = key
      · simp only [get?, hkey, if_true, Option.some.injEq] at hget
        simp [insert, hkey, hget]
      · simp only [get?, hkey, if_false] at hget
        simp [insert, hkey, ih hget]

theorem keys_insert_of_mem {entries : Entries κ α} {key : κ}
    (hmem : key ∈ keys entries) (value : α) :
    keys (insert entries key value) = keys entries := by
  rw [keys_insert, if_pos hmem]

theorem mem_keys_insert {entries : Entries κ α} {key other : κ} (value : α) :
    other ∈ keys (insert entries key value) ↔ other ∈ keys entries ∨ other = key := by
  rw [keys_insert]
  split
  · next hmem =>
      constructor
      · exact Or.inl
      · rintro (hold | rfl)
        · exact hold
        · exact hmem
  · simp

/-- Every entry after an insertion was there before, or is the new one. -/
theorem mem_insert {entries : Entries κ α} {key : κ} {value : α} {entry : κ × α}
    (hmem : entry ∈ insert entries key value) :
    entry = (key, value) ∨ entry ∈ entries := by
  induction entries with
  | nil => simpa [insert] using hmem
  | cons pair rest ih =>
      obtain ⟨k, old⟩ := pair
      by_cases hkey : k = key
      · simp only [insert, hkey, if_true, List.mem_cons] at hmem ⊢
        exact hmem.imp_right Or.inr
      · simp only [insert, hkey, if_false, List.mem_cons] at hmem ⊢
        rcases hmem with hhead | htail
        · exact Or.inr (Or.inl hhead)
        · exact (ih htail).imp_right Or.inr

/-- The first entry with a key has what is found under the key. -/
theorem exists_append_of_get? {entries : Entries κ α} {key : κ} {value : α}
    (hget : get? entries key = some value) :
    ∃ before after, entries = before ++ (key, value) :: after ∧ key ∉ keys before := by
  induction entries with
  | nil => simp [get?] at hget
  | cons pair rest ih =>
      obtain ⟨k, old⟩ := pair
      by_cases hkey : k = key
      · subst hkey
        simp only [get?, if_true, Option.some.injEq] at hget
        exact ⟨[], rest, by rw [hget, List.nil_append], by simp⟩
      · simp only [get?, hkey, if_false] at hget
        obtain ⟨before, after, rfl, hbefore⟩ := ih hget
        refine ⟨(k, old) :: before, after, rfl, ?_⟩
        rw [keys_cons, List.mem_cons, not_or]
        exact ⟨Ne.symm hkey, hbefore⟩

/-- An insertion replaces the value of the first entry with the key, in its place. -/
theorem insert_append_cons {before : Entries κ α} {key : κ} (hbefore : key ∉ keys before)
    (old value : α) (after : Entries κ α) :
    insert (before ++ (key, old) :: after) key value = before ++ (key, value) :: after := by
  induction before with
  | nil => simp [insert]
  | cons pair rest ih =>
      obtain ⟨k, other⟩ := pair
      rw [keys_cons, List.mem_cons, not_or] at hbefore
      simp [insert, Ne.symm hbefore.1, ih hbefore.2]

/-! ## Runs of insertions -/

theorem ofPairs_append_singleton (pairs : List (κ × α)) (pair : κ × α) :
    ofPairs (pairs ++ [pair]) = insert (ofPairs pairs) pair.1 pair.2 := by
  simp [ofPairs]

theorem eraseDups_concat (keys : List κ) (key : κ) :
    (keys ++ [key]).eraseDups =
      if key ∈ keys then keys.eraseDups else keys.eraseDups ++ [key] := by
  rw [List.eraseDups_append]
  by_cases hmem : key ∈ keys
  · simp [hmem, List.removeAll]
  · simp [hmem, List.removeAll, List.eraseDups_cons]

theorem keys_ofPairs (pairs : List (κ × α)) :
    keys (ofPairs pairs) = (keys pairs).eraseDups := by
  induction pairs using List.reverseRecOn with
  | nil => rfl
  | append_singleton pairs pair ih =>
      rw [ofPairs_append_singleton, keys_insert, ih, keys_append, keys_cons, keys_nil,
        eraseDups_concat]
      simp only [List.mem_eraseDups]

theorem get?_ofPairs (pairs : List (κ × α)) (key : κ) :
    get? (ofPairs pairs) key = get? pairs.reverse key := by
  induction pairs using List.reverseRecOn with
  | nil => rfl
  | append_singleton pairs pair ih =>
      rw [ofPairs_append_singleton, get?_insert, ih, List.reverse_append]
      rfl

theorem eraseDups_eq_self {keys : List κ} (hnodup : keys.Nodup) :
    keys.eraseDups = keys := by
  induction keys with
  | nil => rfl
  | cons key rest ih =>
      rw [List.nodup_cons] at hnodup
      rw [List.eraseDups_cons, List.filter_eq_self.mpr, ih hnodup.2]
      intro other hother
      have hne : other ≠ key := fun heq => hnodup.1 (heq ▸ hother)
      simpa using hne

theorem nodup_eraseDups (keys : List κ) : keys.eraseDups.Nodup := by
  have hnodup := nodup_keys_ofPairs (keys.map fun key => (key, ()))
  rw [keys_ofPairs] at hnodup
  simpa [Entries.keys, Function.comp_def] using hnodup

/-- Repetitions that are erased first make no difference. -/
theorem eraseDups_eraseDups_append (left right : List κ) :
    (left.eraseDups ++ right).eraseDups = (left ++ right).eraseDups := by
  have hremove : right.removeAll left.eraseDups = right.removeAll left := by
    simp [List.removeAll, List.mem_eraseDups]
  rw [List.eraseDups_append, List.eraseDups_append,
    eraseDups_eq_self (nodup_eraseDups left), hremove]

theorem keys_insert_eq_eraseDups {entries : Entries κ α}
    (hnodup : (keys entries).Nodup) (key : κ) (value : α) :
    keys (insert entries key value) = (keys entries ++ [key]).eraseDups := by
  rw [keys_insert, eraseDups_concat, eraseDups_eq_self hnodup]

/-- Inserting entries with distinct keys in turn rebuilds them. -/
theorem ofPairs_eq_self {entries : Entries κ α} (hnodup : (keys entries).Nodup) :
    ofPairs entries = entries := by
  have hreverse : (keys entries.reverse).Nodup := by
    rw [keys, List.map_reverse]
    exact List.nodup_reverse.mpr hnodup
  apply eq_of_keys_eq (nodup_keys_ofPairs entries)
  · rw [keys_ofPairs, eraseDups_eq_self hnodup]
  · intro key
    rw [get?_ofPairs]
    cases hget : get? entries key with
    | none =>
        rw [get?_eq_none_iff] at hget ⊢
        simpa [keys] using hget
    | some value =>
        exact get?_of_mem hreverse (List.mem_reverse.mpr (mem_of_get? hget))

/-! ## The order in which keys are first met -/

/-- Keys are first met in the order in which what they come from is. -/
theorem idxOf_filterMap_lt_iff (f : α → Option κ) (sources : List α)
    (left right : κ) :
    (sources.filterMap f).idxOf left < (sources.filterMap f).idxOf right ↔
      sources.findIdx (f · = some left) < sources.findIdx (f · = some right) := by
  induction sources with
  | nil => simp
  | cons source rest ih =>
      cases hkey : f source with
      | none => simp [hkey, List.findIdx_cons, ih]
      | some key =>
          by_cases hleft : key = left
          · by_cases hright : key = right
            · simp [hkey, List.findIdx_cons, hleft, ← hright]
            · simp [hkey, List.findIdx_cons, hright, ← hleft]
          · by_cases hright : key = right
            · simp [hkey, List.findIdx_cons, hright]
            · simp [hkey, List.findIdx_cons, hleft, hright, ih]

theorem idxOf_filter_lt_iff {p : κ → Bool} {left right : κ} (hleft : p left = true)
    (hright : p right = true) (keys : List κ) :
    (keys.filter p).idxOf left < (keys.filter p).idxOf right ↔
      keys.idxOf left < keys.idxOf right := by
  have hfind : ∀ key, p key = true →
      keys.findIdx (Option.guard p · = some key) = keys.idxOf key := by
    intro key hkey
    rw [List.idxOf]
    congr 1
    funext other
    by_cases hother : other = key
    · simp [hother, Option.guard, hkey]
    · simp [hother, Option.guard]
  rw [← List.filterMap_eq_filter, idxOf_filterMap_lt_iff, hfind left hleft,
    hfind right hright]

/-- Keys are first met in the same order when repetitions are erased. -/
theorem idxOf_eraseDups_lt_iff (keys : List κ) (left right : κ) :
    keys.eraseDups.idxOf left < keys.eraseDups.idxOf right ↔
      keys.idxOf left < keys.idxOf right := by
  match keys with
  | [] => simp
  | key :: rest =>
      rw [List.eraseDups_cons]
      by_cases hleft : key = left
      · subst hleft
        by_cases hright : key = right
        · simp [hright]
        · simp [hright]
      · by_cases hright : key = right
        · subst hright
          simp [hleft]
        · have hrest :=
            idxOf_eraseDups_lt_iff (rest.filter fun other => !other == key) left right
          rw [idxOf_filter_lt_iff (by simpa using Ne.symm hleft)
            (by simpa using Ne.symm hright)] at hrest
          simp [hleft, hright, hrest]
termination_by keys.length
decreasing_by
  rw [List.length_cons]
  exact Nat.lt_succ_of_le (List.length_filter_le _ rest)

end FlowMigration.Entries

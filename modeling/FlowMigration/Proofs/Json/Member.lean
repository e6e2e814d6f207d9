import FlowMigration.Json.Value
import FlowMigration.Proofs.Entries

/-!
# Members of a value

A migration works on the value under one key of an object, on a value inside that
one, and so on.  `Value.mapMember` is one such step: it replaces the value under a
key and leaves all else, and every position, as it is.  The laws say what a step does
to other keys, when it changes nothing, and how it bears on nesting depth and on what
holds of the keys of every object.
-/

namespace FlowMigration.Json.Value

/-! ## Depth and keys of the parts -/

theorem depthElements_le_iff {elements : List Value} {bound : ℕ} :
    depthElements elements ≤ bound ↔
      ∀ element ∈ elements, element.depth ≤ bound := by
  induction elements with
  | nil => simp [depthElements]
  | cons element rest ih => simp [depthElements, ih]

theorem depthMembers_le_iff {members : Members Value} {bound : ℕ} :
    depthMembers members ≤ bound ↔ ∀ member ∈ members, member.2.depth ≤ bound := by
  induction members with
  | nil => simp [depthMembers]
  | cons member rest ih =>
      obtain ⟨key, value⟩ := member
      rw [depthMembers, max_le_iff, ih]
      simp

section EachObject

variable {P : List String → Prop}

theorem eachObjectElements_iff {elements : List Value} :
    EachObjectElements P elements ↔ ∀ element ∈ elements, element.EachObject P := by
  induction elements with
  | nil => simp [EachObjectElements]
  | cons element rest ih => simp [EachObjectElements, ih]

theorem eachObjectMembers_iff {members : Members Value} :
    EachObjectMembers P members ↔ ∀ member ∈ members, member.2.EachObject P := by
  induction members with
  | nil => simp [EachObjectMembers]
  | cons member rest ih =>
      obtain ⟨key, value⟩ := member
      rw [EachObjectMembers, ih]
      simp

theorem eachObject_object_iff {members : Members Value} :
    (Value.object members).EachObject P ↔
      P (Entries.keys members) ∧ ∀ member ∈ members, member.2.EachObject P := by
  rw [EachObject, eachObjectMembers_iff]

theorem eachObject_array_iff {elements : List Value} :
    (Value.array elements).EachObject P ↔
      ∀ element ∈ elements, element.EachObject P := by
  rw [EachObject, eachObjectElements_iff]

end EachObject

theorem distinctKeys_object_iff {members : Members Value} :
    (Value.object members).DistinctKeys ↔
      (Entries.keys members).Nodup ∧ ∀ member ∈ members, member.2.DistinctKeys :=
  eachObject_object_iff

theorem distinctKeys_array_iff {elements : List Value} :
    (Value.array elements).DistinctKeys ↔
      ∀ element ∈ elements, element.DistinctKeys :=
  eachObject_array_iff

theorem depth_object (members : Members Value) :
    (Value.object members).depth = depthMembers members + 1 := by
  rw [depth]

theorem depth_array (elements : List Value) :
    (Value.array elements).depth = depthElements elements + 1 := by
  rw [depth]

theorem depth_object_le_iff {members : Members Value} {bound : ℕ} :
    (Value.object members).depth ≤ bound + 1 ↔
      ∀ member ∈ members, member.2.depth ≤ bound := by
  rw [depth_object, Nat.succ_le_succ_iff, depthMembers_le_iff]

theorem depth_array_le_iff {elements : List Value} {bound : ℕ} :
    (Value.array elements).depth ≤ bound + 1 ↔
      ∀ element ∈ elements, element.depth ≤ bound := by
  rw [depth_array, Nat.succ_le_succ_iff, depthElements_le_iff]

/-- Induction on the nesting of a value. -/
@[elab_as_elim]
theorem nested_induction {motive : Value → Prop}
    (flat : ∀ found, found.depth = 0 → motive found)
    (array : ∀ elements, (∀ element ∈ elements, motive element) → motive (.array elements))
    (object : ∀ members, (∀ member ∈ members, motive member.2) → motive (.object members))
    (found : Value) : motive found := by
  have hlevels : ∀ levels (found : Value), found.depth ≤ levels → motive found := by
    intro levels
    induction levels with
    | zero => exact fun found hdepth => flat found (Nat.le_zero.mp hdepth)
    | succ levels ih =>
        intro found hdepth
        cases found with
        | null | bool | number | string => exact flat _ rfl
        | array elements =>
            rw [depth_array_le_iff] at hdepth
            exact array elements fun element hmem => ih element (hdepth element hmem)
        | object members =>
            rw [depth_object_le_iff] at hdepth
            exact object members fun member hmem => ih member.2 (hdepth member hmem)
  exact hlevels found.depth found le_rfl

/-! ## The value under a key -/

/-- The value under a key; only an object has any. -/
def member? (key : String) : Value → Option Value
  | .object members => Entries.get? members key
  | _ => none

/-- The same value with the one under a key, if it is there, put through `f`. -/
def mapMember (key : String) (f : Value → Value) : Value → Value
  | .object members =>
      match Entries.get? members key with
      | some inner => .object (Entries.insert members key (f inner))
      | none => .object members
  | value => value

theorem eq_object_of_member? {key : String} {value inner : Value}
    (hmember : value.member? key = some inner) :
    ∃ members, value = .object members ∧
      Entries.get? members key = some inner := by
  cases value with
  | object members => exact ⟨members, rfl, hmember⟩
  | _ => simp [member?] at hmember

theorem mapMember_of_member?_none {key : String} {value : Value}
    (hmember : value.member? key = none) (f : Value → Value) :
    value.mapMember key f = value := by
  cases value with
  | object members =>
      rw [member?] at hmember
      simp [mapMember, hmember]
  | _ => rfl

theorem mapMember_object_of_get? {key : String} {members : Members Value}
    {inner : Value} (hget : Entries.get? members key = some inner)
    (f : Value → Value) :
    (Value.object members).mapMember key f =
      .object (Entries.insert members key (f inner)) := by
  simp [mapMember, hget]

theorem member?_mapMember (key other : String) (f : Value → Value) (value : Value) :
    (value.mapMember key f).member? other =
      if key = other then (value.member? other).map f else value.member? other := by
  cases hmember : value.member? key with
  | none =>
      rw [mapMember_of_member?_none hmember]
      split
      · next heq => simp [← heq, hmember]
      · rfl
  | some inner =>
      obtain ⟨members, rfl, hget⟩ := eq_object_of_member? hmember
      rw [mapMember_object_of_get? hget, member?, Entries.get?_insert]
      split
      · next heq => simp [← heq, hmember]
      · rfl

/-- Replacing a value keeps the sequence of keys. -/
theorem mapMember_object (key : String) (f : Value → Value)
    (members : Members Value) :
    ∃ updated, (Value.object members).mapMember key f = .object updated ∧
      Entries.keys updated = Entries.keys members := by
  cases hget : Entries.get? members key with
  | none => exact ⟨members, by simp [mapMember, hget], rfl⟩
  | some inner =>
      exact ⟨_, mapMember_object_of_get? hget f,
        Entries.keys_insert_of_mem (Entries.mem_keys_of_get? hget) _⟩

/-- Nothing changes exactly if `f` leaves the value under the key alone. -/
theorem mapMember_eq_self_iff {key : String} {f : Value → Value} {value : Value} :
    value.mapMember key f = value ↔
      ∀ inner, value.member? key = some inner → f inner = inner := by
  constructor
  · intro hsame inner hmember
    have hnew := member?_mapMember key key f value
    rw [hsame, hmember] at hnew
    simpa using hnew.symm
  · intro hfixed
    cases hmember : value.member? key with
    | none => exact mapMember_of_member?_none hmember f
    | some inner =>
        obtain ⟨members, rfl, hget⟩ := eq_object_of_member? hmember
        rw [mapMember_object_of_get? hget, hfixed inner hmember,
          Entries.insert_of_get? hget]

/-! ## Depth and keys after a step -/

theorem depth_of_member?_lt {key : String} {value inner : Value}
    (hmember : value.member? key = some inner) : inner.depth < value.depth := by
  obtain ⟨members, rfl, hget⟩ := eq_object_of_member? hmember
  have hparts := depthMembers_le_iff.mp (le_refl (depthMembers members))
  exact Nat.lt_succ_of_le (hparts _ (Entries.mem_of_get? hget))

theorem depth_mapMember_le {key : String} {f : Value → Value} {bound : ℕ}
    {value : Value}
    (hbound : ∀ inner, value.member? key = some inner →
      (f inner).depth ≤ max inner.depth bound) :
    (value.mapMember key f).depth ≤ max value.depth (bound + 1) := by
  cases hmember : value.member? key with
  | none =>
      rw [mapMember_of_member?_none hmember]
      exact le_max_left _ _
  | some inner =>
      have hinner := hbound inner hmember
      have hlt := depth_of_member?_lt hmember
      obtain ⟨members, rfl, hget⟩ := eq_object_of_member? hmember
      have hparts := depthMembers_le_iff.mp (le_refl (depthMembers members))
      rw [depth_object] at hlt
      rw [mapMember_object_of_get? hget, depth_object members, Nat.add_max_add_right,
        depth_object_le_iff]
      intro member hmem
      rcases Entries.mem_insert hmem with rfl | hold
      · exact hinner.trans (max_le_max_right bound (Nat.le_of_lt_succ hlt))
      · exact (hparts member hold).trans (le_max_left _ _)

theorem EachObject.of_member? {P : List String → Prop} {key : String} {value inner : Value}
    (hvalue : value.EachObject P) (hmember : value.member? key = some inner) :
    inner.EachObject P := by
  obtain ⟨members, rfl, hget⟩ := eq_object_of_member? hmember
  exact (eachObject_object_iff.mp hvalue).2 _ (Entries.mem_of_get? hget)

theorem DistinctKeys.of_member? {key : String} {value inner : Value}
    (hdistinct : value.DistinctKeys) (hmember : value.member? key = some inner) :
    inner.DistinctKeys :=
  EachObject.of_member? hdistinct hmember

/-- A step keeps the keys of the object that it is made in. -/
theorem EachObject.mapMember {P : List String → Prop} {key : String} {f : Value → Value}
    {value : Value} (hvalue : value.EachObject P)
    (hinner : ∀ inner, inner.EachObject P → (f inner).EachObject P) :
    (value.mapMember key f).EachObject P := by
  cases hmember : value.member? key with
  | none => rwa [mapMember_of_member?_none hmember]
  | some inner =>
      have hold := hvalue.of_member? hmember
      obtain ⟨members, rfl, hget⟩ := eq_object_of_member? hmember
      have hkeys := Entries.keys_insert_of_mem (Entries.mem_keys_of_get? hget) (f inner)
      rw [eachObject_object_iff] at hvalue
      rw [mapMember_object_of_get? hget, eachObject_object_iff, hkeys]
      refine ⟨hvalue.1, fun member hmem => ?_⟩
      rcases Entries.mem_insert hmem with rfl | hpart
      · exact hinner inner hold
      · exact hvalue.2 member hpart

end FlowMigration.Json.Value

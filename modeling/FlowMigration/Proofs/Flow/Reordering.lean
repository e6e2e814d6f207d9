import FlowMigration.Proofs.Flow.NodeValue

/-!
# Blocks whose order matters

Several members of a block may give a value to one key of the new block, and the last of
them decides it.  So the order of the members matters exactly if two of them give
different values to one key, which takes an old key together with the key that it leads
to.  What is counted as renamed, taken from a form or dropped never depends on the order.
-/

namespace FlowMigration.NodeData

open Json (Members Value)

/-! ## Members that agree -/

/-- All members that give a value to one key give it the same one. -/
def Agreed (data : Members Value) : Prop :=
  ∀ new, ∀ first ∈ givenValues data new, ∀ second ∈ givenValues data new,
    first = second

theorem getLast?_eq_of_perm {α : Type} {left right : List α} (hperm : left.Perm right)
    (hsame : ∀ first ∈ left, ∀ second ∈ left, first = second) :
    left.getLast? = right.getLast? := by
  cases hleft : left.getLast? with
  | none =>
      rw [List.getLast?_eq_none_iff] at hleft
      subst hleft
      rw [List.nil_perm.mp hperm, List.getLast?_nil]
  | some first =>
      cases hright : right.getLast? with
      | none =>
          rw [List.getLast?_eq_none_iff] at hright
          subst hright
          rw [List.perm_nil.mp hperm] at hleft
          cases hleft
      | some second =>
          have hmem := hperm.mem_iff.mpr (List.mem_of_getLast? hright)
          rw [hsame first (List.mem_of_getLast? hleft) second hmem]

section Order

variable {data left right : Members Value}

/-- If the members agree, it does not matter which of them comes last. -/
theorem perm_migrate_of_agreed (hagreed : Agreed left) (hperm : left.Perm right) :
    (migrate left).Perm (migrate right) := by
  apply Entries.perm_of_get?_eq (nodup_keys_migrate left) (nodup_keys_migrate right)
  intro new
  have hvalues : (givenValues left new).Perm (givenValues right new) :=
    hperm.filterMap (given? new)
  rw [get?_migrate, get?_migrate, getLast?_eq_of_perm hvalues (hagreed new)]

theorem get?_migrate_concat {member : String × Value} {new : String} {value : Value}
    (hgiven : given? new member = some value) (front : Members Value) :
    Entries.get? (migrate (front ++ [member])) new = some value := by
  rw [get?_migrate, givenValues, List.filterMap_append]
  simp [hgiven]

/-- Every member can be put last. -/
theorem exists_perm_concat {member : String × Value} (hmem : member ∈ data) :
    ∃ front, (front ++ [member]).Perm data := by
  obtain ⟨before, after, rfl⟩ := List.append_of_mem hmem
  exact ⟨before ++ after,
    (List.perm_append_singleton member (before ++ after)).trans List.perm_middle.symm⟩

/-- If the order does not matter, the members agree: each of them decides its key when
it is put last. -/
theorem agreed_of_perm_migrate
    (hsame : ∀ left right, left.Perm data → right.Perm data →
      (migrate left).Perm (migrate right)) : Agreed data := by
  intro new first hfirst second hsecond
  obtain ⟨member, hmember, hgiven⟩ := List.mem_filterMap.mp hfirst
  obtain ⟨other, hother, hgivenOther⟩ := List.mem_filterMap.mp hsecond
  obtain ⟨front, hfront⟩ := exists_perm_concat hmember
  obtain ⟨rest, hrest⟩ := exists_perm_concat hother
  have hget := Entries.get?_eq_of_perm (nodup_keys_migrate _)
    (hsame _ _ hfront hrest) new
  rw [get?_migrate_concat hgiven, get?_migrate_concat hgivenOther] at hget
  exact Option.some.inj hget

end Order

/-! ## Which members disagree -/

theorem newKey?_of_given? {key new : String} {value given : Value}
    (hgiven : given? new (key, value) = some given) : newKey? key = some new := by
  by_contra hlead
  rw [given?_of_not_lead hlead] at hgiven
  cases hgiven

/-- With distinct keys, only an old key and the key that it leads to can disagree. -/
theorem agreed_iff_leads {data : Members Value} (hnodup : (Entries.keys data).Nodup) :
    Agreed data ↔ ∀ old new, (old, new) ∈ leads → ∀ value given kept,
      Entries.get? data old = some value → given? new (old, value) = some given →
        Entries.get? data new = some kept → given = kept := by
  constructor
  · intro hagreed old new hlead value given kept hvalue hgiven hkept
    have hself := @given?_self new kept (not_old_of_lead hlead)
    exact hagreed new given
      (List.mem_filterMap.mpr ⟨_, Entries.mem_of_get? hvalue, hgiven⟩) kept
      (List.mem_filterMap.mpr ⟨_, Entries.mem_of_get? hkept, hself⟩)
  · intro hleads new first hfirst second hsecond
    obtain ⟨⟨key, value⟩, hmember, hgiven⟩ := List.mem_filterMap.mp hfirst
    obtain ⟨⟨other, content⟩, hother, hgivenOther⟩ := List.mem_filterMap.mp hsecond
    have hget := Entries.get?_of_mem hnodup hmember
    have hgetOther := Entries.get?_of_mem hnodup hother
    have hkey := newKey?_of_given? hgiven
    have hkeyOther := newKey?_of_given? hgivenOther
    by_cases hsame : key = other
    · subst hsame
      rw [hget, Option.some.injEq] at hgetOther
      rw [hgetOther, hgivenOther, Option.some.injEq] at hgiven
      exact hgiven.symm
    · -- Of two keys that lead to `new`, one is `new` itself.
      rcases newKey?_eq_some_iff.mp hkey with hlead | ⟨hold, rfl⟩
      · obtain rfl := (eq_or_eq_of_lead hlead hkeyOther).resolve_left (Ne.symm hsame)
        rw [given?_self (not_old_of_lead hlead)] at hgivenOther
        exact hleads key other hlead value first second hget hgiven
          (hgetOther.trans hgivenOther)
      · rcases newKey?_eq_some_iff.mp hkeyOther with hlead | ⟨-, hself⟩
        · rw [given?_self hold] at hgiven
          exact (hleads other key hlead content second first hgetOther hgivenOther
            (hget.trans hgiven)).symm
        · exact absurd hself.symm hsame

/-- Where a block has an old key and the key that it leads to, both give the same
value. -/
structure OrderFree (data : Members Value) : Prop where
  outputs_agree : ∀ source output, Entries.get? data "sources" = some source →
    Entries.get? data "outputs" = some output → source = output
  inputs_agree : ∀ target input, Entries.get? data "targets" = some target →
    Entries.get? data "inputs" = some input → target = input
  config_agrees : ∀ form formData config,
    Entries.get? data "targets_form" = some (.object form) →
      Entries.get? form "form_data" = some formData →
        Entries.get? data "config" = some config → formData = config

theorem agreed_iff_orderFree {data : Members Value}
    (hnodup : (Entries.keys data).Nodup) : Agreed data ↔ OrderFree data := by
  rw [agreed_iff_leads hnodup]
  constructor
  · intro hleads
    refine ⟨fun source output hsource houtput => ?_, fun target input htarget hinput => ?_,
      fun form formData config hform hdata hconfig => ?_⟩
    · exact hleads "sources" "outputs" (by decide) source source output hsource
        (given?_of_renamed (by decide)) houtput
    · exact hleads "targets" "inputs" (by decide) target target input htarget
        (given?_of_renamed (by decide)) hinput
    · exact hleads "targets_form" "config" (by decide) (.object form) formData config hform
        (given?_of_form.trans hdata) hconfig
  · intro hfree old new hlead value given kept hvalue hgiven hkept
    simp only [leads, List.mem_cons, List.not_mem_nil, or_false, Prod.mk.injEq] at hlead
    rcases hlead with ⟨rfl, rfl⟩ | ⟨rfl, rfl⟩ | ⟨rfl, rfl⟩
    · rw [given?_of_renamed (by decide), Option.some.injEq] at hgiven
      exact hfree.outputs_agree given kept (hgiven ▸ hvalue) hkept
    · rw [given?_of_renamed (by decide), Option.some.injEq] at hgiven
      exact hfree.inputs_agree given kept (hgiven ▸ hvalue) hkept
    · rw [given?_of_form, formData?_eq_member?] at hgiven
      obtain ⟨form, rfl, hdata⟩ := Value.eq_object_of_member? hgiven
      exact hfree.config_agrees form given kept hvalue hdata hkept

/-! ## What is counted in any order -/

/-- Keys are counted one by one, and so is a form with `form_data`. -/
theorem tally_draft_of_perm {left right : Members Value} (hperm : left.Perm right) :
    (draft left).tally.renamedKeys = (draft right).tally.renamedKeys ∧
      (draft left).tally.configsFromFormData =
        (draft right).tally.configsFromFormData ∧
      (draft left).tally.droppedKeys = (draft right).tally.droppedKeys := by
  have hkeys : (Entries.keys left).Perm (Entries.keys right) := hperm.map Prod.fst
  rw [draft_eq, draft_eq, Draft.tally_addAll, Draft.tally_addAll]
  simp only [Tally.renamedKeys_add, Tally.configsFromFormData_add,
    Tally.droppedKeys_add, hkeys.countP_eq, hperm.countP_eq, and_self]

/-- The order of the members of a block does not matter exactly if no old key disagrees
with the key that it leads to.  Three of the counts never depend on it. -/
theorem perm_migrate_iff_orderFree {data : Members Value}
    (hnodup : (Entries.keys data).Nodup) :
    ((∀ left right, left.Perm data → right.Perm data →
        (migrate left).Perm (migrate right)) ↔ OrderFree data) ∧
      ∀ other, other.Perm data →
        (draft other).tally.renamedKeys = (draft data).tally.renamedKeys ∧
          (draft other).tally.configsFromFormData =
            (draft data).tally.configsFromFormData ∧
          (draft other).tally.droppedKeys = (draft data).tally.droppedKeys := by
  refine ⟨?_, fun other hperm => tally_draft_of_perm hperm⟩
  rw [← agreed_iff_orderFree hnodup]
  constructor
  · exact agreed_of_perm_migrate
  · intro hagreed left right hleft hright
    have hdata := perm_migrate_of_agreed hagreed hleft.symm
    exact hdata.symm.trans (perm_migrate_of_agreed hagreed hright.symm)

/-- The `sources` and `outputs` of `crowdedBlock` differ, so that its order matters. -/
theorem perm_migrate_iff_orderFree_crowdedBlock :
    (Entries.keys crowdedBlock).Nodup ∧
      ¬(∀ left right, left.Perm crowdedBlock → right.Perm crowdedBlock →
        (migrate left).Perm (migrate right)) ∧
      (draft crowdedBlock.reverse).tally.renamedKeys = 2 := by
  have hnodup : (Entries.keys crowdedBlock).Nodup := by decide
  obtain ⟨horder, hcounts⟩ := perm_migrate_iff_orderFree hnodup
  refine ⟨hnodup, fun hsame => ?_, ?_⟩
  · have hagree := (horder.mp hsame).outputs_agree (.bool true) (.bool false) rfl rfl
    exact absurd hagree (by decide)
  · exact (hcounts _ (List.reverse_perm crowdedBlock)).1.trans rfl

end FlowMigration.NodeData

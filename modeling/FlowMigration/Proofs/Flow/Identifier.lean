import FlowMigration.Proofs.Flow.Fault
import FlowMigration.Proofs.Flow.Uuid

/-!
# Which identifiers are replaced

Whether an identifier is replaced is a matter of its text.  A number that has the mark of
a fraction or of an exponent is left alone, however integral its value.  An integer is
replaced by the text of the 128-bit identifier with the same value; if 128 bits do not
hold the integer, the error tells its text.
-/

namespace FlowMigration

open Json (Number Value)

theorem Uuid.exists_value_eq {n : ℤ} (hfits : 0 ≤ n ∧ n < 2 ^ 128) :
    ∃ uuid : Uuid, n = uuid.value :=
  ⟨⟨n.toNat, by omega⟩, (Int.toNat_of_nonneg hfits.1).symm⟩

namespace Flow

/-- What becomes of an identifier, by its text: nothing, another text, or a complaint. -/
inductive IdDecision : Value → Except Complaint (Option String) → Prop
  | noNumber {id : Value} (hkind : ∀ number, id ≠ .number number) :
      IdDecision id (.ok none)
  | noInteger {number : Number} {mark : Char} (hmark : mark ∈ Number.marks)
      (hmem : mark ∈ number.text) : IdDecision (.number number) (.ok none)
  | replaced {number : Number} {n : ℤ} {text : List Char}
      (hinteger : number.IntegerText n) (hfits : 0 ≤ n ∧ n < 2 ^ 128)
      (htext : Uuid.TextOf n.toNat text) :
      IdDecision (.number number) (.ok (some (String.ofList text)))
  | outOfRange {number : Number} {n : ℤ} (hinteger : number.IntegerText n)
      (hrange : n < 0 ∨ 2 ^ 128 ≤ n) :
      IdDecision (.number number)
        (.error (.flowIdOutOfRange (String.ofList number.text)))

/-- The text that an identifier is replaced by, or what the error tells. -/
def toldId (id : Value) : Except Complaint (Option String) :=
  ((newId? id).map (Option.map toString)).mapError MigrationError.complaint

theorem toldId_of_decision {id : Value} {outcome : Except Complaint (Option String)}
    (hdecision : IdDecision id outcome) : toldId id = outcome := by
  cases hdecision with
  | noNumber hkind =>
      cases id with
      | number number => exact absurd rfl (hkind number)
      | _ => rfl
  | noInteger hmark hmem =>
      have hnone := Number.integer?_eq_none_iff.mpr ⟨_, hmark, hmem⟩
      rw [toldId, newId?, hnone]
      rfl
  | @replaced number n text hinteger hfits htext =>
      obtain ⟨uuid, rfl⟩ := Uuid.exists_value_eq hfits
      rw [Int.toNat_natCast] at htext
      rw [toldId, newId?_eq_some_iff.mpr ⟨number, rfl, hinteger⟩,
        Uuid.eq_text_of_textOf htext uuid.value_lt]
      rfl
  | @outOfRange number n hinteger hrange =>
      rw [toldId, newId?_eq_error_iff.mpr ⟨number, n, rfl, hinteger, hrange, rfl⟩]
      rfl

theorem exists_decision (id : Value) : ∃ outcome, IdDecision id outcome := by
  cases id with
  | number number =>
      cases hinteger : number.integer? with
      | none =>
          obtain ⟨mark, hmark, hmem⟩ := Number.integer?_eq_none_iff.mp hinteger
          exact ⟨_, .noInteger hmark hmem⟩
      | some n =>
          have htext := Number.integer?_eq_some_iff.mp hinteger
          by_cases hfits : 0 ≤ n ∧ n < 2 ^ 128
          · obtain ⟨uuid, rfl⟩ := Uuid.exists_value_eq hfits
            exact ⟨_, .replaced htext hfits (Uuid.textOf_text uuid)⟩
          · exact ⟨_, .outOfRange htext (by omega)⟩
  | _ => exact ⟨_, .noNumber (by simp)⟩

/-- The text of an identifier decides what becomes of it, and decides it uniquely. -/
theorem idDecision_iff_told {id : Value} {outcome : Except Complaint (Option String)} :
    IdDecision id outcome ↔ toldId id = outcome := by
  constructor
  · exact toldId_of_decision
  · rintro rfl
    obtain ⟨outcome, hdecision⟩ := exists_decision id
    rwa [toldId_of_decision hdecision]

end Flow

end FlowMigration

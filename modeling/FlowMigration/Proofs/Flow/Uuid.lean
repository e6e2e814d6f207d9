import FlowMigration.Text.Hex
import FlowMigration.Proofs.Json.Reader.Quoted

/-!
# The text of a flow identifier

The text of an identifier is 32 lower-case hexadecimal digits in groups of 8, 4, 4, 4 and
12, and the digits denote the value of the identifier when they are read as one number.
No other text of this form denotes the same value.
-/

namespace FlowMigration

namespace Hex

def lowerDigits : List Char :=
  ['0', '1', '2', '3', '4', '5', '6', '7', '8', '9', 'a', 'b', 'c', 'd', 'e', 'f']

theorem mem_lowerDigits_iff {c : Char} :
    c ∈ lowerDigits ↔ ∃ value < 16, digit value = c := by
  have hdigits : lowerDigits = (List.range 16).map digit := by decide
  simp [hdigits]

/-- A lower-case digit is the one that is written for its value. -/
theorem digit_of_digitValue? {c : Char} (hc : c ∈ lowerDigits) {value : ℕ}
    (hvalue : digitValue? c = some value) : digit value = c := by
  obtain ⟨written, hlt, rfl⟩ := mem_lowerDigits_iff.mp hc
  rw [digitValue?_digit hlt, Option.some.injEq] at hvalue
  rw [hvalue]

theorem mem_lowerDigits_of_mem_digits {width n : ℕ} :
    ∀ c ∈ digits width n, c ∈ lowerDigits := by
  induction width generalizing n with
  | zero => simp [digits]
  | succ width ih =>
      intro c hc
      rw [digits, List.mem_append, List.mem_singleton] at hc
      rcases hc with hc | rfl
      · exact ih c hc
      · exact mem_lowerDigits_iff.mpr ⟨n % 16, Nat.mod_lt n (by decide), rfl⟩

/-- Lower-case digits are recovered from the number that they denote. -/
theorem digits_of_value? {cs : List Char} {n : ℕ} (hlower : ∀ c ∈ cs, c ∈ lowerDigits)
    (hvalue : value? cs = some n) : digits cs.length n = cs := by
  -- The last digit is the remainder modulo sixteen, so digits are taken off the end.
  induction cs using List.reverseRecOn generalizing n with
  | nil => rfl
  | append_singleton cs c ih =>
      rw [List.forall_mem_append, List.forall_mem_singleton] at hlower
      rw [value?, valueAfter?_append] at hvalue
      obtain ⟨leading, hleading, hlast⟩ := Option.bind_eq_some_iff.mp hvalue
      obtain ⟨d, hd, hn⟩ := Option.bind_eq_some_iff.mp hlast
      rw [valueAfter?, Option.some.injEq] at hn
      have hlt := digitValue?_lt hd
      have hdiv : n / 16 = leading := by omega
      have hmod : n % 16 = d := by omega
      rw [List.length_append, List.length_singleton, digits, hdiv, hmod,
        ih hlower.1 hleading, digit_of_digitValue? hlower.2 hd]

end Hex

namespace Uuid

/-- The text is the hyphenated one of `n`: groups of lower-case digits with hyphens
between them, and the digits denote `n`. -/
def TextOf (n : ℕ) (text : List Char) : Prop :=
  ∃ groups : List (List Char), groups.map List.length = [8, 4, 4, 4, 12] ∧
    (∀ c ∈ groups.flatten, c ∈ Hex.lowerDigits) ∧
      Hex.value? groups.flatten = some n ∧ text = ['-'].intercalate groups

theorem hyphenate_flatten {groups : List (List Char)}
    (hlengths : groups.map List.length = [8, 4, 4, 4, 12]) :
    hyphenate groups.flatten = ['-'].intercalate groups := by
  simp only [List.map_eq_cons_iff, List.map_eq_nil_iff] at hlengths
  obtain ⟨first, _, rfl, hfirst, second, _, rfl, hsecond, third, _, rfl, hthird, fourth, _,
    rfl, hfourth, fifth, _, rfl, -, rfl⟩ := hlengths
  simp [hyphenate, List.drop_append, List.drop_eq_nil_of_le, hfirst, hsecond, hthird,
    hfourth]

theorem exists_groups {digits : List Char} (hlength : digits.length = 32) :
    ∃ groups : List (List Char), groups.map List.length = [8, 4, 4, 4, 12] ∧
      groups.flatten = digits := by
  refine ⟨[digits.take 8, (digits.drop 8).take 4, (digits.drop 12).take 4,
    (digits.drop 16).take 4, digits.drop 20], ?_, ?_⟩
  · simp [hlength]
  · have hrest : ∀ count,
        (digits.drop count).take 4 ++ digits.drop (count + 4) = digits.drop count := by
      intro count
      rw [← List.drop_drop, List.take_append_drop]
    simp only [List.flatten_cons, List.flatten_nil, List.append_nil]
    rw [hrest 16, hrest 12, hrest 8, List.take_append_drop]

theorem textOf_text (uuid : Uuid) : TextOf uuid.value uuid.text := by
  obtain ⟨groups, hlengths, hdigits⟩ := exists_groups (Hex.length_digits 32 uuid.value)
  refine ⟨groups, hlengths, ?_, ?_, ?_⟩
  · rw [hdigits]
    exact Hex.mem_lowerDigits_of_mem_digits
  · rw [hdigits, Hex.value?_digits, Nat.mod_eq_of_lt]
    exact uuid.value_lt
  · rw [text, ← hdigits, hyphenate_flatten hlengths]

/-- A text of this form is the one that is written for the value. -/
theorem eq_text_of_textOf {n : ℕ} {cs : List Char} (htext : TextOf n cs)
    (hlt : n < 0x100000000000000000000000000000000) : cs = text ⟨n, hlt⟩ := by
  obtain ⟨groups, hlengths, hlower, hvalue, rfl⟩ := htext
  have hlength : groups.flatten.length = 32 := by
    rw [List.length_flatten, hlengths]
    rfl
  rw [text, ← hlength, Hex.digits_of_value? hlower hvalue, hyphenate_flatten hlengths]

end Uuid

end FlowMigration

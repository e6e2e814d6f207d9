import FlowMigration.Proofs.Flow.Conformance
import FlowMigration.Proofs.Flow.Identifier
import FlowMigration.Proofs.Flow.UuidForm

/-!
# The order of flow identifiers

Texts of identifiers compare as the values do, byte by byte: the digits stand most
significant first, and the hyphens, which stand in the same places in every text, do not bear
on the order.  So two flows with integer identifiers get the same text exactly if the integers
are equal.
-/

namespace FlowMigration

open Json (Number Value)

/-! ## Lists compared from the left -/

section Comparison

variable {α β : Type} [LT α] [LT β]

/-- Lists of one length are compared before what follows them is. -/
theorem append_lt_append_iff {left right : List α} (hlength : left.length = right.length)
    (more others : List α) :
    left ++ more < right ++ others ↔ left < right ∨ left = right ∧ more < others := by
  induction left generalizing right with
  | nil =>
      rw [List.eq_nil_of_length_eq_zero hlength.symm]
      simp
  | cons a left ih =>
      cases right with
      | nil => cases hlength
      | cons b right =>
          have hrest := ih (Nat.succ.inj hlength)
          rw [List.cons_append, List.cons_append, List.cons_lt_cons_iff, List.cons_lt_cons_iff,
            hrest, List.cons.injEq]
          tauto

/-- Marks that stand in the same places do not bear on the order. -/
theorem intercalate_lt_iff {mark : List α} (hmark : ¬mark < mark)
    {groups others : List (List α)}
    (hlengths : groups.map List.length = others.map List.length) :
    mark.intercalate groups < mark.intercalate others ↔ groups.flatten < others.flatten := by
  induction groups generalizing others with
  | nil =>
      rw [List.map_nil, eq_comm, List.map_eq_nil_iff] at hlengths
      simp [hlengths]
  | cons first groups ih =>
      cases others with
      | nil => cases hlengths
      | cons head others =>
          rw [List.map_cons, List.map_cons, List.cons.injEq] at hlengths
          have hrest := ih hlengths.2
          cases groups with
          | nil =>
              have hnil := List.map_eq_nil_iff.mp hlengths.2.symm
              simp [hnil, List.intercalate]
          | cons second groups =>
              cases others with
              | nil => cases hlengths.2
              | cons next others =>
                  rw [List.intercalate_cons_cons, List.intercalate_cons_cons,
                    List.append_assoc, List.append_assoc]
                  calc
                    _ ↔ first < head ∨ first = head ∧
                          mark ++ mark.intercalate (second :: groups) <
                            mark ++ mark.intercalate (next :: others) :=
                      append_lt_append_iff hlengths.1 _ _
                    _ ↔ first < head ∨ first = head ∧
                          (second :: groups).flatten < (next :: others).flatten := by
                      rw [append_lt_append_iff rfl, hrest]
                      simp [hmark]
                    _ ↔ first ++ (second :: groups).flatten <
                          head ++ (next :: others).flatten :=
                      (append_lt_append_iff hlengths.1 _ _).symm

/-- A map that keeps the order of the elements keeps the order of lists. -/
theorem map_lt_map_iff {f : α → β} {left right : List α}
    (hlt : ∀ a ∈ left, ∀ b ∈ right, (f a < f b ↔ a < b))
    (heq : ∀ a ∈ left, ∀ b ∈ right, (f a = f b ↔ a = b)) :
    left.map f < right.map f ↔ left < right := by
  induction left generalizing right with
  | nil => cases right <;> simp
  | cons a left ih =>
      cases right with
      | nil => simp
      | cons b right =>
          simp only [List.forall_mem_cons] at hlt heq
          rw [List.map_cons, List.map_cons, List.cons_lt_cons_iff, List.cons_lt_cons_iff,
            hlt.1.1, heq.1.1, ih (fun c hc => (hlt.2 c hc).2) (fun c hc => (heq.2 c hc).2)]

end Comparison

/-! ## Digits -/

namespace Hex

theorem digit_lt_iff {left right : ℕ} (hleft : left < 16) (hright : right < 16) :
    digit left < digit right ↔ left < right := by
  have hall : ∀ a b : Fin 16, digit a < digit b ↔ a < b := by decide
  exact hall ⟨left, hleft⟩ ⟨right, hright⟩

theorem digits_eq_iff {width n m : ℕ} (hn : n < 16 ^ width) (hm : m < 16 ^ width) :
    digits width n = digits width m ↔ n = m := by
  constructor
  · intro hsame
    have hvalue := congrArg value? hsame
    rw [value?_digits, value?_digits, Option.some.injEq] at hvalue
    calc
      n = n % 16 ^ width := (Nat.mod_eq_of_lt hn).symm
      _ = m % 16 ^ width := hvalue
      _ = m := Nat.mod_eq_of_lt hm
  · exact congrArg (digits width)

/-- Digits of one width compare as the numbers do that they denote. -/
theorem digits_lt_iff {width n m : ℕ} (hn : n < 16 ^ width) (hm : m < 16 ^ width) :
    digits width n < digits width m ↔ n < m := by
  induction width generalizing n m with
  | zero =>
      rw [pow_zero, Nat.lt_one_iff] at hn hm
      simp [hn, hm, digits]
  | succ width ih =>
      rw [pow_succ] at hn hm
      have hn' : n / 16 < 16 ^ width := Nat.div_lt_of_lt_mul (by omega)
      have hm' : m / 16 < 16 ^ width := Nat.div_lt_of_lt_mul (by omega)
      have hlength : (digits width (n / 16)).length = (digits width (m / 16)).length := by
        rw [length_digits, length_digits]
      have hlast : [digit (n % 16)] < [digit (m % 16)] ↔ n % 16 < m % 16 := by
        rw [← digit_lt_iff (Nat.mod_lt n (by decide)) (Nat.mod_lt m (by decide))]
        simp [List.cons_lt_cons_iff]
      rw [digits, digits, append_lt_append_iff hlength, ih hn' hm', digits_eq_iff hn' hm', hlast]
      omega

/-- The two digits of a byte. -/
def byteDigits (byte : UInt8) : List Char :=
  digits 2 byte.toNat

end Hex

namespace Uuid

theorem lt_iff_exists_value (n : ℕ) : n < 2 ^ 128 ↔ ∃ uuid : Uuid, uuid.value = n := by
  constructor
  · exact fun hlt => ⟨⟨n, hlt⟩, rfl⟩
  · rintro ⟨uuid, rfl⟩
    exact uuid.value_lt

/-- The last bytes of a number, most significant first. -/
def bigEndian : ℕ → ℕ → List UInt8
  | 0, _ => []
  | count + 1, n => bigEndian count (n / 256) ++ [UInt8.ofNat (n % 256)]

theorem digits_eq_bigEndian (count n : ℕ) :
    Hex.digits (2 * count) n = (bigEndian count n).flatMap Hex.byteDigits := by
  induction count generalizing n with
  | zero => rfl
  | succ count ih =>
      have hbyte : Hex.byteDigits (UInt8.ofNat (n % 256)) =
          [Hex.digit (n / 16 % 16), Hex.digit (n % 16)] := by
        have hhigh : n % 256 / 16 % 16 = n / 16 % 16 := by omega
        have hlow : n % 256 % 16 = n % 16 := by omega
        simp [Hex.byteDigits, Hex.digits, hhigh, hlow]
      calc
        Hex.digits (2 * (count + 1)) n =
            Hex.digits (2 * count) (n / 16 / 16) ++ [Hex.digit (n / 16 % 16)] ++
              [Hex.digit (n % 16)] := rfl
        _ = (bigEndian count (n / 256)).flatMap Hex.byteDigits ++
              Hex.byteDigits (UInt8.ofNat (n % 256)) := by
          rw [hbyte, Nat.div_div_eq_div_mul, ih, List.append_assoc, List.singleton_append]
        _ = (bigEndian (count + 1) n).flatMap Hex.byteDigits := by
          simp [bigEndian]

theorem text_eq_bigEndian (uuid : Uuid) :
    uuid.text = hyphenate ((bigEndian 16 uuid.value).flatMap Hex.byteDigits) := by
  rw [text, ← digits_eq_bigEndian]

/-! ## The order of the texts -/

/-- The texts of identifiers compare as their values do. -/
theorem text_lt_iff (left right : Uuid) : left.text < right.text ↔ left.value < right.value := by
  obtain ⟨groups, hlengths, hgroups⟩ := exists_groups (Hex.length_digits 32 left.value)
  obtain ⟨others, hothers, hdigits⟩ := exists_groups (Hex.length_digits 32 right.value)
  have hsame : groups.map List.length = others.map List.length := hlengths.trans hothers.symm
  calc
    left.text < right.text ↔ ['-'].intercalate groups < ['-'].intercalate others := by
      rw [text, text, ← hgroups, ← hdigits, hyphenate_flatten hlengths,
        hyphenate_flatten hothers]
    _ ↔ Hex.digits 32 left.value < Hex.digits 32 right.value := by
      rw [intercalate_lt_iff (lt_irrefl _) hsame, hgroups, hdigits]
    _ ↔ left.value < right.value := Hex.digits_lt_iff left.value_lt right.value_lt

/-- The bytes of a text. -/
def bytesOf (text : String) : List UInt8 :=
  text.toUTF8.data.toList

/-- The text is in ASCII, so that each character is one byte. -/
def Ascii (cs : List Char) : Prop :=
  ∀ c ∈ cs, c.toNat ≤ 127

theorem ascii_text (uuid : Uuid) : Ascii uuid.text := by
  have hdigit : ∀ c ∈ Hex.lowerDigits, c.toNat ≤ 127 := by simp [Hex.lowerDigits]
  have hform := (textOf_text uuid).form
  intro c hc
  by_cases heq : c = '-'
  · rw [heq]
    decide
  · exact hdigit c (hform.lower c hc heq)

theorem bytesOf_ofList {cs : List Char} (hascii : Ascii cs) :
    bytesOf (String.ofList cs) = cs.map Char.toUInt8 := by
  have hencode : cs.flatMap String.utf8EncodeChar = cs.map Char.toUInt8 := by
    rw [← List.flatMap_pure_eq_map]
    apply List.flatMap_congr
    intro c hc
    apply String.utf8EncodeChar_eq_singleton
    rw [Char.utf8Size_eq_one_iff, UInt32.le_iff_toNat_le]
    exact hascii c hc
  rw [bytesOf, String.toUTF8_eq_toByteArray, String.toByteArray_ofList, List.utf8Encode,
    hencode, List.data_toByteArray]

theorem toNat_toUInt8 {c : Char} (hc : c.toNat ≤ 127) : c.toUInt8.toNat = c.toNat := by
  rw [Char.toUInt8, UInt32.toNat_toUInt8]
  exact Nat.mod_eq_of_lt (Nat.lt_of_le_of_lt hc (by decide))

theorem toUInt8_lt_iff {a b : Char} (ha : a.toNat ≤ 127) (hb : b.toNat ≤ 127) :
    a.toUInt8 < b.toUInt8 ↔ a < b := by
  rw [UInt8.lt_iff_toNat_lt, toNat_toUInt8 ha, toNat_toUInt8 hb, Char.lt_def,
    UInt32.lt_iff_toNat_lt]
  rfl

theorem toUInt8_eq_iff {a b : Char} (ha : a.toNat ≤ 127) (hb : b.toNat ≤ 127) :
    a.toUInt8 = b.toUInt8 ↔ a = b := by
  rw [← UInt8.toNat_inj, toNat_toUInt8 ha, toNat_toUInt8 hb, Char.toNat_inj]

/-- The bytes of the texts compare as the values do. -/
theorem bytesOf_lt_iff (left right : Uuid) :
    bytesOf (toString left) < bytesOf (toString right) ↔ left.value < right.value := by
  have hleft := ascii_text left
  have hright := ascii_text right
  calc
    bytesOf (toString left) < bytesOf (toString right) ↔
        left.text.map Char.toUInt8 < right.text.map Char.toUInt8 := by
      rw [← bytesOf_ofList hleft, ← bytesOf_ofList hright]
      rfl
    _ ↔ left.text < right.text := by
      apply map_lt_map_iff
      · exact fun a ha b hb => toUInt8_lt_iff (hleft a ha) (hright b hb)
      · exact fun a ha b hb => toUInt8_eq_iff (hleft a ha) (hright b hb)
    _ ↔ left.value < right.value := text_lt_iff left right

end Uuid

/-! ## Identifiers of flows -/

namespace Document

/-- The flow of a document has an identifier that is written as the integer `n`. -/
def IntegerId (document : Value) (n : ℤ) : Prop :=
  ∃ number, (flow document).member? "id" = some (.number number) ∧ number.IntegerText n

theorem IntegerId.exists_uuid {document : Value} {n : ℤ} {migration : Migration}
    (hid : IntegerId document n) (hok : migrate document = .ok migration) :
    ∃ uuid : Uuid, n = uuid.value ∧
      (flow migration.document).member? "id" = some (.string (toString uuid)) := by
  obtain ⟨number, hmember, hinteger⟩ := hid
  obtain ⟨hreadable, rfl⟩ := migrate_eq_ok_iff.mp hok
  obtain ⟨new, hnew⟩ := hreadable.id_fits _ hmember
  have hsome := Number.integer?_eq_some_iff.mpr hinteger
  cases new with
  | none =>
      rw [Flow.no_integer_of_newId?_none hnew rfl] at hsome
      cases hsome
  | some uuid =>
      obtain ⟨_, heq, hvalue⟩ := Flow.newId?_eq_some_iff.mp hnew
      cases heq
      rw [Number.integer?_eq_some_iff.mpr hvalue, Option.some.injEq] at hsome
      refine ⟨uuid, hsome.symm, ?_⟩
      rw [flow_migrated, Flow.member?_id_migrated, hmember, Option.map_some,
        Flow.migratedId_of_some hnew]

/-- Flows with integer identifiers get the same new one exactly if the integers are equal. -/
theorem sameId_iff {first second : Value} {one other : Migration} {n m : ℤ}
    (hone : migrate first = .ok one) (hother : migrate second = .ok other)
    (hfirst : IntegerId first n) (hsecond : IntegerId second m) :
    (flow one.document).member? "id" = (flow other.document).member? "id" ↔ n = m := by
  obtain ⟨left, rfl, hleft⟩ := hfirst.exists_uuid hone
  obtain ⟨right, rfl, hright⟩ := hsecond.exists_uuid hother
  rw [hleft, hright, Option.some.injEq, Value.string.injEq, Uuid.toString_injective.eq_iff,
    Nat.cast_inj, Uuid.value_injective.eq_iff]

end Document

namespace Uuid

/-- The numbers below `2 ^ 128` and the texts of the right form correspond to each other, in
order.  The text of a number is that of its sixteen bytes, most significant first, with two
digits for each; it has the form, and its digits denote the number.  Every text of the form is
the text of the number that its digits denote, and the bytes of the texts compare as the
numbers do.  So flows with integer identifiers get the same new one exactly if the integers
are equal. -/
theorem texts_order_isomorphic :
    (∀ n : ℕ, n < 2 ^ 128 ↔ ∃ uuid : Uuid, uuid.value = n) ∧
      (∀ uuid : Uuid, uuid.text = hyphenate ((bigEndian 16 uuid.value).flatMap Hex.byteDigits) ∧
        Form uuid.text ∧ Hex.value? (digitsOf uuid.text) = some uuid.value) ∧
      (∀ cs, Form cs → ∃ uuid : Uuid,
        Hex.value? (digitsOf cs) = some uuid.value ∧ uuid.text = cs) ∧
      (∀ left right : Uuid, left.value < right.value ↔
        bytesOf (toString left) < bytesOf (toString right)) ∧
      ∀ (first second : Value) (one other : Migration) (n m : ℤ),
        Document.migrate first = .ok one → Document.migrate second = .ok other →
          Document.IntegerId first n → Document.IntegerId second m →
            ((Document.flow one.document).member? "id" =
              (Document.flow other.document).member? "id" ↔ n = m) := by
  refine ⟨lt_iff_exists_value, ?_, fun cs hform => hform.exists_uuid,
    fun left right => (bytesOf_lt_iff left right).symm, ?_⟩
  · intro uuid
    have htext := textOf_text uuid
    exact ⟨text_eq_bigEndian uuid, htext.form, htext.value?_digitsOf⟩
  · intro first second one other n m hone hother hfirst hsecond
    exact Document.sameId_iff hone hother hfirst hsecond

/-- A flow with nothing but an identifier. -/
def bareFlow (id : Number) : Value :=
  .object [("id", .number id)]

/-- Zero with a minus sign. -/
def minusZero : Number :=
  { Number.ofNat 0 with negative := true }

theorem texts_order_isomorphic_minusZero :
    (∃ uuid : Uuid, Hex.value? (digitsOf (text ⟨255, by decide⟩)) = some uuid.value ∧
      uuid.text = text ⟨255, by decide⟩) ∧
      ∃ one other, Document.migrate (bareFlow (Number.ofNat 0)) = .ok one ∧
        Document.migrate (bareFlow minusZero) = .ok other ∧
        (Document.flow one.document).member? "id" =
          (Document.flow other.document).member? "id" := by
  obtain ⟨-, hforms, htexts, -, hids⟩ := texts_order_isomorphic
  have hone : ∃ one, Document.migrate (bareFlow (Number.ofNat 0)) = .ok one :=
    Document.exists_migration (by decide +kernel)
  have hother : ∃ other, Document.migrate (bareFlow minusZero) = .ok other :=
    Document.exists_migration (by decide +kernel)
  obtain ⟨one, hone⟩ := hone
  obtain ⟨other, hother⟩ := hother
  have hzero : Document.IntegerId (bareFlow (Number.ofNat 0)) 0 :=
    ⟨_, rfl, Number.integer?_eq_some_iff.mp (by decide +kernel)⟩
  have hminus : Document.IntegerId (bareFlow minusZero) 0 :=
    ⟨_, rfl, Number.integer?_eq_some_iff.mp (by decide +kernel)⟩
  exact ⟨htexts _ (hforms ⟨255, by decide⟩).2.1, one, other, hone, hother,
    (hids _ _ _ _ 0 0 hone hother hzero hminus).mpr rfl⟩

end Uuid

end FlowMigration

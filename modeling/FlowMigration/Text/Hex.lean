/-!
# Hexadecimal text

Numbers are written with lower-case digits and read with digits of either case.
A digit, and hence a run of digits of a fixed width, can be recovered from its text.

An identifier is a 128-bit value, written as 32 digits, most significant first, in
groups of 8, 4, 4, 4 and 12.
-/

namespace FlowMigration.Hex

/-- The lower-case digit of a value below sixteen. -/
def digit (value : Nat) : Char :=
  Char.ofNat (if value < 10 then 48 + value else 87 + value)

/-- The value of a digit, in either case. -/
def digitValue? (c : Char) : Option Nat :=
  if 48 ≤ c.toNat ∧ c.toNat ≤ 57 then some (c.toNat - 48)
  else if 97 ≤ c.toNat ∧ c.toNat ≤ 102 then some (c.toNat - 87)
  else if 65 ≤ c.toNat ∧ c.toNat ≤ 70 then some (c.toNat - 55)
  else none

/-- The last `width` digits of a number, most significant first. -/
def digits : Nat → Nat → List Char
  | 0, _ => []
  | width + 1, n => digits width (n / 16) ++ [digit (n % 16)]

/-- The number that a run of digits denotes when it continues the digits of
`leading`. -/
def valueAfter? (leading : Nat) : List Char → Option Nat
  | [] => some leading
  | c :: cs => (digitValue? c).bind fun d => valueAfter? (16 * leading + d) cs

/-- The number that a run of digits denotes, if it holds digits only. -/
def value? (cs : List Char) : Option Nat :=
  valueAfter? 0 cs

/-- The digits of a number without leading zeros; zero is one digit. -/
def minimal (n : Nat) : List Char :=
  digits (n.log2 / 4 + 1) n

theorem digitValue?_digit {value : Nat} (hvalue : value < 16) :
    digitValue? (digit value) = some value := by
  have hall : ∀ v : Fin 16, digitValue? (digit v) = some v.val := by decide
  exact hall ⟨value, hvalue⟩

theorem valueAfter?_append (leading : Nat) (left right : List Char) :
    valueAfter? leading (left ++ right) =
      (valueAfter? leading left).bind fun n => valueAfter? n right := by
  induction left generalizing leading with
  | nil => rfl
  | cons c cs ih =>
      simp only [List.cons_append, valueAfter?]
      cases digitValue? c with
      | none => rfl
      | some d => simpa using ih (16 * leading + d)

theorem length_digits (width n : Nat) : (digits width n).length = width := by
  induction width generalizing n with
  | zero => rfl
  | succ width ih => simp [digits, ih]

/-- Reading back what was written gives the number, as far as the width holds
it. -/
theorem value?_digits (width n : Nat) :
    value? (digits width n) = some (n % Nat.pow 16 width) := by
  induction width generalizing n with
  | zero => simp [digits, value?, valueAfter?, Nat.pow, Nat.mod_one]
  | succ width ih =>
      have hlast := digitValue?_digit (Nat.mod_lt n (by decide : 0 < 16))
      have hhead := ih (n / 16)
      simp only [value?] at hhead
      simp only [digits, value?, valueAfter?_append, hhead, Option.bind_some,
        valueAfter?, hlast, Option.some.injEq]
      rw [show Nat.pow 16 (width + 1) = 16 * Nat.pow 16 width from Nat.mul_comm _ _,
        Nat.mod_mul]
      omega

end FlowMigration.Hex

namespace FlowMigration

/-- A value below `2 ^ 128`, the bound written out in base sixteen. -/
structure Uuid where
  value : Nat
  value_lt : value < 0x100000000000000000000000000000000
deriving DecidableEq, Repr

namespace Uuid

/-- The identifier with the value `n`, when 128 bits hold it. -/
def ofInt? (n : Int) : Option Uuid :=
  if h : 0 ≤ n ∧ n < 0x100000000000000000000000000000000 then
    some ⟨n.toNat, by omega⟩
  else none

/-- Writes a hyphen between the groups of a run of 32 digits. -/
def hyphenate (digits : List Char) : List Char :=
  digits.take 8 ++ '-' :: (digits.drop 8).take 4 ++
    '-' :: (digits.drop 12).take 4 ++ '-' :: (digits.drop 16).take 4 ++
    '-' :: digits.drop 20

def text (uuid : Uuid) : List Char :=
  hyphenate (Hex.digits 32 uuid.value)

instance : ToString Uuid :=
  ⟨fun uuid => String.ofList uuid.text⟩

end Uuid

end FlowMigration

/-!
# Decimal numerals

A numeral is a non-empty run of decimal digits.  Leading zeros are kept, so a
numeral is a text and not only the number it denotes; `Numeral.ofNat` writes the
numeral without leading zeros.
-/

namespace FlowMigration

/-- A decimal digit. -/
abbrev Digit := Fin 10

namespace Digit

def char (d : Digit) : Char :=
  Char.ofNat (48 + d.val)

def ofChar? (c : Char) : Option Digit :=
  if h : 48 ≤ c.toNat ∧ c.toNat - 48 < 10 then some ⟨c.toNat - 48, h.2⟩ else none

theorem ofChar?_char (d : Digit) : ofChar? d.char = some d := by
  revert d
  decide

end Digit

/-- A non-empty run of decimal digits. -/
structure Numeral where
  first : Digit
  rest : List Digit
deriving DecidableEq, Repr

namespace Numeral

def digits (numeral : Numeral) : List Digit :=
  numeral.first :: numeral.rest

def text (numeral : Numeral) : List Char :=
  numeral.digits.map Digit.char

/-- The number that the digits denote in base ten. -/
def value (numeral : Numeral) : Nat :=
  numeral.digits.foldl (fun total d => 10 * total + d.val) 0

/-- A numeral has no leading zero unless it is zero itself. -/
def Canonical (numeral : Numeral) : Prop :=
  numeral.first = 0 → numeral.rest = []

instance (numeral : Numeral) : Decidable numeral.Canonical :=
  inferInstanceAs (Decidable (numeral.first = 0 → numeral.rest = []))

/-- Appends a digit on the right. -/
def push (numeral : Numeral) (d : Digit) : Numeral :=
  ⟨numeral.first, numeral.rest ++ [d]⟩

/-- The numeral of a number, without leading zeros. -/
def ofNat (n : Nat) : Numeral :=
  if h : n < 10 then ⟨⟨n, h⟩, []⟩
  else (ofNat (n / 10)).push ⟨n % 10, Nat.mod_lt n (by decide)⟩

/-- Splits a text after its leading digits. -/
def splitDigits : List Char → List Digit × List Char
  | [] => ([], [])
  | c :: cs =>
      match Digit.ofChar? c with
      | none => ([], c :: cs)
      | some d =>
          let (digits, unread) := splitDigits cs
          (d :: digits, unread)

/-- Reads the longest numeral that a text starts with. -/
def scan? (cs : List Char) : Option (Numeral × List Char) :=
  match splitDigits cs with
  | ([], _) => none
  | (first :: rest, unread) => some (⟨first, rest⟩, unread)

/-- Reads a text that is a numeral as a whole. -/
def ofText? (cs : List Char) : Option Numeral :=
  match scan? cs with
  | some (numeral, []) => some numeral
  | _ => none

theorem value_push (numeral : Numeral) (d : Digit) :
    (numeral.push d).value = 10 * numeral.value + d.val := by
  simp [push, value, digits, List.foldl_append]

/-- Writing a number and reading the digits back gives the number. -/
theorem value_ofNat (n : Nat) : (ofNat n).value = n := by
  fun_induction ofNat n with
  | case1 n h => simp [value, digits]
  | case2 n h ih =>
      rw [value_push, ih]
      exact Nat.div_add_mod n 10

theorem ofNat_first_ne_zero {n : Nat} (hpos : 0 < n) : (ofNat n).first ≠ 0 := by
  fun_induction ofNat n with
  | case1 n h =>
      intro hzero
      have := congrArg Fin.val hzero
      simp at this
      omega
  | case2 n h ih => exact ih (by omega)

/-- No leading zero is written. -/
theorem ofNat_canonical (n : Nat) : (ofNat n).Canonical := by
  intro hzero
  cases n with
  | zero => simp [ofNat]
  | succ n => exact absurd hzero (ofNat_first_ne_zero (Nat.succ_pos n))

end Numeral

end FlowMigration

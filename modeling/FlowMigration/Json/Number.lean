import FlowMigration.Text.Numeral

/-!
# JSON numbers

A number is kept as it is written, of any length and precision.  Only the
exponent is normalized: its marker is a lower-case `e` and its sign is always
written.  The structure holds exactly the parts of such a text, so every value of
the type is a JSON number.
-/

namespace FlowMigration.Json

structure Exponent where
  negative : Bool
  digits : Numeral
deriving DecidableEq, Repr

structure Number where
  negative : Bool
  whole : Numeral
  fraction : Option Numeral
  exponent : Option Exponent
  whole_canonical : whole.Canonical
deriving DecidableEq, Repr

namespace Number

def signText (negative : Bool) : List Char :=
  if negative then ['-'] else []

def fractionText : Option Numeral → List Char
  | none => []
  | some digits => '.' :: digits.text

def exponentText : Option Exponent → List Char
  | none => []
  | some exponent =>
      'e' :: (if exponent.negative then '-' else '+') :: exponent.digits.text

/-- The text of a number. -/
def text (number : Number) : List Char :=
  signText number.negative ++ number.whole.text ++
    fractionText number.fraction ++ exponentText number.exponent

instance : ToString Number :=
  ⟨fun number => String.ofList number.text⟩

/-- The natural number `n`, written without fraction and exponent. -/
def ofNat (n : Nat) : Number where
  negative := false
  whole := Numeral.ofNat n
  fraction := none
  exponent := none
  whole_canonical := Numeral.ofNat_canonical n

/-- The value of a number that is written without fraction and exponent.  A
number with either is no integer here, however integral its value. -/
def integer? (number : Number) : Option Int :=
  match number.fraction, number.exponent with
  | none, none =>
      some (if number.negative then -number.whole.value else number.whole.value)
  | _, _ => none

/-- The value of a number that is written with digits only. -/
def natural? (number : Number) : Option Nat :=
  if number.negative then none else number.integer?.map Int.toNat

theorem integer?_ofNat (n : Nat) : (ofNat n).integer? = some (n : Int) := by
  simp [integer?, ofNat, Numeral.value_ofNat]

theorem natural?_ofNat (n : Nat) : (ofNat n).natural? = some n := by
  simp [natural?, integer?_ofNat]
  rfl

end Number

end FlowMigration.Json

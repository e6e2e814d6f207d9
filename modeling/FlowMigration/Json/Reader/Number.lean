import FlowMigration.Json.Number
import FlowMigration.Json.Scan

/-!
# Reading numbers

A number ends at the first character that does not continue it.  Its digits are
kept as they are; only the exponent is normalized.
-/

namespace FlowMigration.Json.Reader

def digits : Scan Numeral := fun cs =>
  match Numeral.scan? cs, cs with
  | some (numeral, rest), _ => .ok (numeral, rest)
  | none, [] => .error { cause := .endInValue, unread := [] }
  | none, c :: cs => .error { cause := .invalidNumber, unread := c :: cs }

/-- Reads the digits before the point.  A digit after a leading zero is a fault,
at that digit. -/
def whole : Scan { numeral : Numeral // numeral.Canonical } := fun cs => do
  let (numeral, rest) ← digits cs
  if h : numeral.Canonical then .ok (⟨numeral, h⟩, rest)
  else .error { cause := .invalidNumber, unread := cs.drop 1 }

def fraction : Scan (Option Numeral)
  | '.' :: cs => do
      let (numeral, rest) ← digits cs
      .ok (some numeral, rest)
  | cs => .ok (none, cs)

/-- Splits a sign off an exponent; an exponent without one is positive. -/
def exponentSign : List Char → Bool × List Char
  | '-' :: cs => (true, cs)
  | '+' :: cs => (false, cs)
  | cs => (false, cs)

def exponent : Scan (Option Exponent)
  | [] => .ok (none, [])
  | c :: cs =>
      if c = 'e' ∨ c = 'E' then do
        let (negative, cs) := exponentSign cs
        let (numeral, rest) ← digits cs
        .ok (some ⟨negative, numeral⟩, rest)
      else .ok (none, c :: cs)

/-- Reads what follows the sign of a number. -/
def magnitude (negative : Bool) : Scan Number := fun cs => do
  let (⟨numeral, hcanonical⟩, cs) ← whole cs
  let (fraction, cs) ← fraction cs
  let (exponent, cs) ← exponent cs
  .ok (⟨negative, numeral, fraction, exponent, hcanonical⟩, cs)

def signed : Scan Number
  | '-' :: cs => magnitude true cs
  | cs => magnitude false cs

/-- The number of bytes that count as read from a fault in the text of a number on.  A
digit that has to follow a sign or the marker of an exponent is read before it is looked
at, so that a wrong one is passed. -/
def bytesPassed (text unread : List Char) : Nat :=
  match (text.take (text.length - unread.length)).getLast? with
  | some c => if c ∈ ['-', '+', 'e', 'E'] then 2 else 1
  | none => 1

/-- Reads a number from a text that holds nothing else. -/
def wholeNumber (text : List Char) : Except Fault Number :=
  match signed text with
  | .ok (number, []) => .ok number
  | .ok (_, unread) => .error { cause := .invalidNumber, unread, inner := some text }
  | .error fault =>
      .error
        { fault with
          ahead := bytesPassed text fault.unread
          inner := some text }

end FlowMigration.Json.Reader

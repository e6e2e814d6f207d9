import FlowMigration.Text.Numeral

/-!
# Indentation width

The width is given by an option, or else by an environment variable, or else it is
two.  A value of the variable that does not denote a width is ignored, and so is white
space around one: the characters with the Unicode property White_Space.
-/

namespace FlowMigration.WhiteSpace

/-- The ranges of the property White_Space. -/
def ranges : List (Nat × Nat) :=
  [(0x9, 0xD), (0x20, 0x20), (0x85, 0x85), (0xA0, 0xA0), (0x1680, 0x1680),
    (0x2000, 0x200A), (0x2028, 0x2029), (0x202F, 0x202F), (0x205F, 0x205F),
    (0x3000, 0x3000)]

def isWhiteSpace (c : Char) : Bool :=
  ranges.any fun (first, last) => first ≤ c.toNat && c.toNat ≤ last

/-- Removes the white space at both ends. -/
def trim (cs : List Char) : List Char :=
  ((cs.dropWhile isWhiteSpace).reverse.dropWhile isWhiteSpace).reverse

end FlowMigration.WhiteSpace

namespace FlowMigration.Indent

/-- The width when nothing else is asked for. -/
def standard : Nat := 2

/-- The largest width that can be asked for, the last number of 64 bits. -/
def largest : Nat := 0xFFFFFFFFFFFFFFFF

/-- The environment variable that may hold a width. -/
def variableName : String := "FLOW_MIGRATE_INDENT"

/-- Removes one plus sign from the front. -/
def dropPlus : List Char → List Char
  | '+' :: cs => cs
  | cs => cs

/-- The width that a decimal text denotes.  It may have a plus sign in front and
any number of leading zeros. -/
def ofText? (cs : List Char) : Option Nat :=
  match Numeral.ofText? (dropPlus cs) with
  | some numeral => if numeral.value ≤ largest then some numeral.value else none
  | none => none

/-- The width that the bytes of the environment variable denote.  White space
around it is ignored. -/
def ofBytes? (bytes : ByteArray) : Option Nat :=
  match String.fromUTF8? bytes with
  | some text => ofText? (WhiteSpace.trim text.toList)
  | none => none

/-- The width after the environment variable, if it is set, has been looked at. -/
def override (start : Nat) (setting : Option ByteArray) : Nat :=
  (setting.bind ofBytes?).getD start

end FlowMigration.Indent

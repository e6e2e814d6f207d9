import FlowMigration.Json.Scan
import FlowMigration.Text.Hex

/-!
# Reading strings

A string is read up to its closing quote.  How a hexadecimal escape is read is a
parameter: in a document the surrogates have to come in pairs, and in a value that
is only skipped they need not.
-/

namespace FlowMigration.Json.Reader

/-- The character that a one-letter escape stands for. -/
def shortEscape? : Char → Option Char
  | '"' => some '"'
  | '\\' => some '\\'
  | '/' => some '/'
  | 'b' => some '\x08'
  | 'f' => some '\x0c'
  | 'n' => some '\n'
  | 'r' => some '\r'
  | 't' => some '\t'
  | _ => none

/-- The fault of an escape whose next four bytes are not hexadecimal digits.
When fewer than four bytes are left, it is the end of the text instead. -/
def hexFault (cs : List Char) : Fault :=
  if byteLength cs < 4 then { cause := .endInString, unread := [] }
  else { cause := .invalidEscape, unread := cs, ahead := 4 }

/-- Reads the four digits of one UTF-16 code unit. -/
def codeUnit : Scan Nat
  | a :: b :: c :: d :: cs =>
      match Hex.value? [a, b, c, d] with
      | some unit => .ok (unit, cs)
      | none => .error (hexFault (a :: b :: c :: d :: cs))
  | cs => .error (hexFault cs)

def isLeading (unit : Nat) : Bool :=
  0xD800 ≤ unit && unit < 0xDC00

def isTrailing (unit : Nat) : Bool :=
  0xDC00 ≤ unit && unit < 0xE000

/-- The character of a pair of surrogates. -/
def pairedChar (leading trailing : Nat) : Char :=
  Char.ofNat (0x10000 + (leading - 0xD800) * 0x400 + (trailing - 0xDC00))

/-- Reads a character that must follow a leading surrogate. -/
def hexEscapeMark (mark : Char) : Scan Unit
  | [] => .error { cause := .endInString, unread := [] }
  | c :: cs =>
      if c = mark then .ok ((), cs)
      else .error { cause := .hexEscapeCutShort, unread := c :: cs }

/-- Reads the character of a hexadecimal escape.  Surrogates must come in
pairs. -/
def hexEscape : Scan Char := fun cs => do
  let (unit, cs) ← codeUnit cs
  if isTrailing unit then
    .error { cause := .loneSurrogate, unread := cs, ahead := 0 }
  else if isLeading unit then
    let ((), cs) ← hexEscapeMark '\\' cs
    let ((), cs) ← hexEscapeMark 'u' cs
    let (trailing, cs) ← codeUnit cs
    if isTrailing trailing then .ok (pairedChar unit trailing, cs)
    else .error { cause := .loneSurrogate, unread := cs, ahead := 0 }
  else .ok (Char.ofNat unit, cs)

/-- Reads a hexadecimal escape without asking what character it stands for. -/
def anyHexEscape : Scan Char := fun cs => do
  let (unit, cs) ← codeUnit cs
  .ok (Char.ofNat unit, cs)

/-- Reads what follows a backslash. -/
def escape (hex : Scan Char) : Scan Char
  | [] => .error { cause := .endInString, unread := [] }
  | c :: cs =>
      match shortEscape? c with
      | some char => .ok (char, cs)
      | none =>
          if c = 'u' then hex cs
          else .error { cause := .invalidEscape, unread := c :: cs }

/-- Reads the characters of a string up to the closing quote; `done` holds the
characters before them, the last one first. -/
def characters (hex : Scan Char) : Nat → List Char → Scan (List Char)
  | 0, _, _ => .error { cause := .endInString, unread := [] }
  | _ + 1, _, [] => .error { cause := .endInString, unread := [] }
  | steps + 1, done, c :: cs =>
      if c = '"' then .ok (done.reverse, cs)
      else if c = '\\' then do
        let (char, cs) ← escape hex cs
        characters hex steps (char :: done) cs
      else if c.toNat < 0x20 then
        .error { cause := .controlCharacter, unread := c :: cs }
      else characters hex steps (c :: done) cs

/-- Reads a string whose opening quote has been read. -/
def string (hex : Scan Char) (steps : Nat) : Scan String := fun cs => do
  let (chars, cs) ← characters hex steps [] cs
  .ok (String.ofList chars, cs)

end FlowMigration.Json.Reader

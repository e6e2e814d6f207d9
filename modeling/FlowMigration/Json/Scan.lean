/-!
# Scanners

A scanner takes what it reads off the front of a text and returns it with the rest
of the text, or the fault that it stopped at.  A fault keeps the cause and the text
that has not been read.  The position that is reported is found afterwards from the
whole text: lines and columns are counted in bytes, and a line ends at a newline.
-/

namespace FlowMigration.Json

/-! ## Faults -/

/-- The kind of a value, as an error names it. -/
inductive Kind where
  | null
  | bool (value : Bool)
  | number
  | string
  | array
  | object
deriving DecidableEq, Repr

def Kind.name : Kind → String
  | .null => "null"
  | .bool value => "boolean `" ++ toString value ++ "`"
  | .number => "number"
  | .string => "string"
  | .array => "sequence"
  | .object => "map"

inductive Cause where
  | endInValue
  | endInList
  | endInObject
  | endInString
  | expectedValue
  | expectedIdent
  | invalidNumber
  | numberNotQuoted (found : Kind)
  | trailingComma
  | expectedCommaOrBracket
  | expectedCommaOrBrace
  | expectedColon
  | keyNotString
  | trailingCharacters
  | tooDeep
  | controlCharacter
  | invalidEscape
  | loneSurrogate
  | hexEscapeCutShort
deriving DecidableEq, Repr

def Cause.message : Cause → String
  | .endInValue => "EOF while parsing a value"
  | .endInList => "EOF while parsing a list"
  | .endInObject => "EOF while parsing an object"
  | .endInString => "EOF while parsing a string"
  | .expectedValue => "expected value"
  | .expectedIdent => "expected ident"
  | .invalidNumber => "invalid number"
  | .numberNotQuoted found =>
      "invalid type: " ++ found.name ++ ", expected string containing a number"
  | .trailingComma => "trailing comma"
  | .expectedCommaOrBracket => "expected `,` or `]`"
  | .expectedCommaOrBrace => "expected `,` or `\x7d`"
  | .expectedColon => "expected `:`"
  | .keyNotString => "key must be a string"
  | .trailingCharacters => "trailing characters"
  | .tooDeep => "recursion limit exceeded"
  | .controlCharacter =>
      "control character (\\u0000-\\u001F) found while parsing a string"
  | .invalidEscape => "invalid escape"
  | .loneSurrogate => "lone leading surrogate in hex escape"
  | .hexEscapeCutShort => "unexpected end of hex escape"

/-- Why a scanner stopped and how far it had come: `unread` is the text from the
offending place on, and `ahead` is the number of its bytes that count as read.  A
fault inside a string that has a text of its own is located in that text. -/
structure Fault where
  cause : Cause
  unread : List Char
  ahead : Nat := 1
  inner : Option (List Char) := none
deriving DecidableEq, Repr

/-- A cause with its place in the text.  Lines are counted from one; the column is
the number of bytes of the line that had been read. -/
structure ReadError where
  cause : Cause
  line : Nat
  column : Nat
deriving DecidableEq, Repr

namespace ReadError

def message (error : ReadError) : String :=
  error.cause.message ++ " at line " ++ toString error.line ++ " column " ++
    toString error.column

end ReadError

/-- The number of bytes that encode a text. -/
def byteLength (cs : List Char) : Nat :=
  cs.foldl (fun total c => total + c.utf8Size) 0

namespace Fault

/-- The number of bytes of the text that count as read. -/
def bytesRead (fault : Fault) (source : List Char) : Nat :=
  min (byteLength source)
    (byteLength source - byteLength fault.unread + fault.ahead)

/-- Finds the place of a fault in the whole text. -/
def locate (fault : Fault) (whole : List Char) : ReadError :=
  let source := fault.inner.getD whole
  let bytes := (source.flatMap String.utf8EncodeChar).take (fault.bytesRead source)
  let newline : UInt8 := 10
  { cause := fault.cause
    line := bytes.count newline + 1
    column := (bytes.reverse.takeWhile (· != newline)).length }

end Fault

/-! ## Blanks, words and whole texts -/

abbrev Scan (α : Type) := List Char → Except Fault (α × List Char)

namespace Reader

def isBlank (c : Char) : Bool :=
  c == ' ' || c == '\n' || c == '\t' || c == '\r'

def skipBlanks (cs : List Char) : List Char :=
  cs.dropWhile isBlank

/-- Reads the remaining letters of a word. -/
def word : List Char → Scan Unit
  | [], cs => .ok ((), cs)
  | _ :: _, [] => .error { cause := .endInValue, unread := [] }
  | letter :: letters, c :: cs =>
      if c = letter then word letters cs
      else .error { cause := .expectedIdent, unread := c :: cs }

/-- Reads a whole text with `scan`, after which only blanks may follow. -/
def toEnd {α : Type} (scan : Scan α) (cs : List Char) : Except Fault α := do
  let (result, rest) ← scan cs
  match skipBlanks rest with
  | [] => .ok result
  | rest => .error { cause := .trailingCharacters, unread := rest }

end Reader

end FlowMigration.Json

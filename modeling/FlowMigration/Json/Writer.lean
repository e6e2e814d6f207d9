import FlowMigration.Json.Value
import FlowMigration.Text.Hex

/-!
# Writing JSON

One writer serves every layout.  A layout decides what separates the parts of a
container, and nothing else: the compact layout writes no blanks, and an indented
layout writes each element or member on a line of its own.
-/

namespace FlowMigration.Json

inductive Layout where
  | compact
  | indented (width : Nat)
deriving DecidableEq, Repr

namespace Layout

/-- The blanks of one level. -/
def unit (width : Nat) : List Char :=
  List.replicate width ' '

/-- What stands before an element or a closing bracket that is `level` containers
deep. -/
def lineBreak : Layout → Nat → List Char
  | .compact, _ => []
  | .indented width, level => '\n' :: (List.replicate level (unit width)).flatten

/-- What stands between a key and its value. -/
def colon : Layout → List Char
  | .compact => [':']
  | .indented _ => [':', ' ']

end Layout

namespace Writer

/-- A character as it is written inside a string.  Only quotes, backslashes and
control characters are escaped. -/
def escaped (c : Char) : List Char :=
  if c = '"' then ['\\', '"']
  else if c = '\\' then ['\\', '\\']
  else if c = '\x08' then ['\\', 'b']
  else if c = '\x0c' then ['\\', 'f']
  else if c = '\n' then ['\\', 'n']
  else if c = '\r' then ['\\', 'r']
  else if c = '\t' then ['\\', 't']
  else if c.toNat < 0x20 then '\\' :: 'u' :: Hex.digits 4 c.toNat
  else [c]

def quoted (text : String) : List Char :=
  '"' :: text.toList.flatMap escaped ++ ['"']

mutual

/-- The text of a value that stands inside `level` containers. -/
def value (layout : Layout) (level : Nat) : Value → List Char
  | .null => ['n', 'u', 'l', 'l']
  | .bool true => ['t', 'r', 'u', 'e']
  | .bool false => ['f', 'a', 'l', 's', 'e']
  | .number number => number.text
  | .string text => quoted text
  | .array [] => ['[', ']']
  | .array (first :: rest) =>
      '[' :: layout.lineBreak (level + 1) ++ value layout (level + 1) first ++
        moreElements layout (level + 1) rest ++ layout.lineBreak level ++ [']']
  | .object [] => ['{', '}']
  | .object ((key, first) :: rest) =>
      '{' :: layout.lineBreak (level + 1) ++ quoted key ++ layout.colon ++
        value layout (level + 1) first ++ moreMembers layout (level + 1) rest ++
        layout.lineBreak level ++ ['}']

/-- The elements after the first, each with the comma before it. -/
def moreElements (layout : Layout) (level : Nat) : List Value → List Char
  | [] => []
  | element :: rest =>
      ',' :: layout.lineBreak level ++ value layout level element ++
        moreElements layout level rest

/-- The members after the first, each with the comma before it. -/
def moreMembers (layout : Layout) (level : Nat) :
    List (String × Value) → List Char
  | [] => []
  | (key, content) :: rest =>
      ',' :: layout.lineBreak level ++ quoted key ++ layout.colon ++
        value layout level content ++ moreMembers layout level rest

end

end Writer

/-- The text of a value without blanks. -/
def Value.compact (value : Value) : String :=
  String.ofList (Writer.value .compact 0 value)

/-- The text of a document with `indent` blanks per level and a final newline.  The
width is any number: memory is taken to be without limit, also for widths that no
machine can hold a line of. -/
def Value.render (value : Value) (indent : Nat) : String :=
  String.ofList (Writer.value (.indented indent) 0 value ++ ['\n'])

end FlowMigration.Json

import FlowMigration.Json.Reader.Container
import FlowMigration.Json.Reader.Number
import FlowMigration.Json.Reader.Quoted
import FlowMigration.Json.Value

/-!
# Reading documents

Nested values are read by structural recursion on the number of containers that may
still be opened.  A document is one value with blanks around it, nested at most
`maxDepth` deep.  In an object, a repeated key keeps its first position and takes
the last value.

A reader may know a key that marks numbers.  An object that starts with it is read as
the number in the string under the key, which has to be the only one.  At any later
place it is a key like any other.
-/

namespace FlowMigration.Json

/-- The number of containers that may be open at once in a document. -/
def maxDepth : Nat := 127

def Value.kind : Value → Kind
  | .null => .null
  | .bool value => .bool value
  | .number _ => .number
  | .string _ => .string
  | .array _ => .array
  | .object _ => .object

namespace Reader

/-- Reads a value that is neither quoted nor in brackets. -/
def bare : Scan Value
  | [] => .error { cause := .endInValue, unread := [] }
  | 'n' :: cs => do
      let ((), cs) ← word ['u', 'l', 'l'] cs
      .ok (.null, cs)
  | 't' :: cs => do
      let ((), cs) ← word ['r', 'u', 'e'] cs
      .ok (.bool true, cs)
  | 'f' :: cs => do
      let ((), cs) ← word ['a', 'l', 's', 'e'] cs
      .ok (.bool false, cs)
  | c :: cs =>
      if c = '-' ∨ (Digit.ofChar? c).isSome then do
        let (number, cs) ← signed (c :: cs)
        .ok (.number number, cs)
      else .error { cause := .expectedValue, unread := c :: cs }

/-! ## Marked numbers -/

/-- What follows the first key of an object, if it is the key that marks a number. -/
def afterMark? (mark : Option String) (hex : Scan Char) (steps : Nat)
    (cs : List Char) : Option (List Char) :=
  match skipBlanks cs with
  | '"' :: cs =>
      match string hex steps cs with
      | .ok (key, cs) => if some key = mark then some cs else none
      | .error _ => none
  | _ => none

/-- Reads the string that a marked number is written in. -/
def quotedNumber (hex : Scan Char) (steps : Nat) : Scan Number := fun cs =>
  match skipBlanks cs with
  | '"' :: cs => do
      let (text, cs) ← string hex steps cs
      let number ← wholeNumber text.toList
      .ok (number, cs)
  | '[' :: cs =>
      .error { cause := .numberNotQuoted .array, unread := '[' :: cs, ahead := 0 }
  | '{' :: cs =>
      .error { cause := .numberNotQuoted .object, unread := '{' :: cs, ahead := 0 }
  | cs => do
      let (found, cs) ← bare cs
      .error { cause := .numberNotQuoted found.kind, unread := cs, ahead := 0 }

/-- Reads the closing brace after a marked number. -/
def closingBrace : Scan Unit := fun cs =>
  match skipBlanks cs with
  | [] => .error { cause := .endInObject, unread := [] }
  | c :: cs =>
      if c = '}' then .ok ((), cs)
      else if c = ',' then .error { cause := .trailingComma, unread := c :: cs }
      else .error { cause := .trailingCharacters, unread := c :: cs }

/-- Reads the rest of a marked number, from after the key. -/
def markedNumber (hex : Scan Char) (steps : Nat) : Scan Number := fun cs => do
  let ((), cs) ← colon cs
  let (number, cs) ← quotedNumber hex steps cs
  let ((), cs) ← closingBrace cs
  .ok (number, cs)

/-! ## Values -/

/-- Reads the rest of an object whose opening brace has been read. -/
def object (mark : Option String) (hex : Scan Char) (steps : Nat)
    (content : Scan Value) : Scan Value := fun cs =>
  match afterMark? mark hex steps cs with
  | some cs => do
      let (number, cs) ← markedNumber hex steps cs
      .ok (.number number, cs)
  | none => do
      let (pairs, cs) ←
        items .object (member (string hex steps) fun _ => content) steps cs
      .ok (.object (Entries.ofPairs pairs), cs)

/-- Reads a value; `nested` reads the values inside a container, and without it
no container may be opened. -/
def valueOver (mark : Option String) (hex : Scan Char) (steps : Nat)
    (nested : Option (Scan Value)) : Scan Value := fun cs =>
  match skipBlanks cs with
  | '"' :: cs => do
      let (text, cs) ← string hex steps cs
      .ok (.string text, cs)
  | '[' :: cs =>
      match nested with
      | none => .error { cause := .tooDeep, unread := '[' :: cs }
      | some element => do
          let (elements, cs) ← items .array element steps cs
          .ok (.array elements, cs)
  | '{' :: cs =>
      match nested with
      | none => .error { cause := .tooDeep, unread := '{' :: cs }
      | some content => object mark hex steps content cs
  | cs => bare cs

/-- Reads a value in which `levels` nested containers may be opened. -/
def value (mark : Option String) (hex : Scan Char) (steps : Nat) : Nat → Scan Value
  | 0, cs => valueOver mark hex steps none cs
  | levels + 1, cs =>
      valueOver mark hex steps (some (value mark hex steps levels)) cs

/-- Reads a document from its characters. -/
def document (cs : List Char) : Except Fault Value :=
  toEnd (value (some numberKey) hexEscape cs.length maxDepth) cs

end Reader

/-- Reads a document. -/
def read (text : String) : Except ReadError Value :=
  (Reader.document text.toList).mapError fun fault => fault.locate text.toList

end FlowMigration.Json

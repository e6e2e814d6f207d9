import FlowMigration.Json.Scan

/-!
# Reading containers

Arrays and objects are read by one loop over their items.  The loop is bounded by a
number of steps, for which the length of the text is always enough because every
item takes at least one character.
-/

namespace FlowMigration.Json.Reader

/-- A kind of container: its closing bracket and the faults that name it. -/
structure Container where
  closing : Char
  unended : Cause
  expected : Cause

def Container.array : Container :=
  ⟨']', .endInList, .expectedCommaOrBracket⟩

def Container.object : Container :=
  ⟨'}', .endInObject, .expectedCommaOrBrace⟩

variable {α : Type}

/-- Reads items with commas between them, up to the closing bracket. -/
def itemsAndClosing (kind : Container) (item : Scan α) : Nat → Scan (List α)
  | 0, _ => .error { cause := kind.unended, unread := [] }
  | steps + 1, cs => do
      let (first, cs) ← item cs
      match skipBlanks cs with
      | [] => .error { cause := kind.unended, unread := [] }
      | c :: cs =>
          if c = kind.closing then .ok ([first], cs)
          else if c = ',' then
            let cs := skipBlanks cs
            if cs.head? = some kind.closing then
              .error { cause := .trailingComma, unread := cs }
            else
              let (others, cs) ← itemsAndClosing kind item steps cs
              .ok (first :: others, cs)
          else .error { cause := kind.expected, unread := c :: cs }

/-- Reads the rest of a container whose opening bracket has been read. -/
def items (kind : Container) (item : Scan α) (steps : Nat) : Scan (List α) :=
  fun cs =>
    match skipBlanks cs with
    | [] => .error { cause := kind.unended, unread := [] }
    | c :: cs =>
        if c = kind.closing then .ok ([], cs)
        else itemsAndClosing kind item steps (c :: cs)

/-- Reads the colon between a key and its value. -/
def colon : Scan Unit := fun cs =>
  match skipBlanks cs with
  | [] => .error { cause := .endInObject, unread := [] }
  | c :: cs =>
      if c = ':' then .ok ((), cs)
      else .error { cause := .expectedColon, unread := c :: cs }

/-- Reads a key, a colon and a value; how the value is read may depend on the
key. -/
def member (key : Scan String) (value : String → Scan α) : Scan (String × α) :=
  fun cs =>
    match skipBlanks cs with
    | [] => .error { cause := .endInValue, unread := [] }
    | c :: cs =>
        if c = '"' then do
          let (name, cs) ← key cs
          let ((), cs) ← colon cs
          let (content, cs) ← value name cs
          .ok ((name, content), cs)
        else .error { cause := .keyNotString, unread := c :: cs }

end FlowMigration.Json.Reader

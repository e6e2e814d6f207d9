import FlowMigration.Json.Value
import FlowMigration.Text.Hex

/-!
# The grammar of JSON

Which texts denote which values, by rules on the text and without a reader.  The
relation for values carries the number of containers that may be nested.  Escapes
denote characters, so the surrogates of a text have to come in pairs.

There are three dialects, which differ in what they make of the key that marks a
number.  The standard one treats it like any other key, and the marked one is the one
that documents are read in.  What the texts have in common that do not use the key at
all is a dialect of its own, which is part of both.
-/

namespace FlowMigration.Json.Grammar

def Blanks (cs : List Char) : Prop :=
  ∀ c ∈ cs, c ∈ [' ', '\n', '\t', '\r']

/-! ## Numbers -/

/-- The marker has either case, and a missing sign means a positive exponent. -/
inductive ExponentText : List Char → Option Exponent → Prop
  | absent : ExponentText [] none
  | unsigned (marker : Char) (digits : Numeral) :
      marker ∈ ['e', 'E'] →
        ExponentText (marker :: digits.text) (some ⟨false, digits⟩)
  | positive (marker : Char) (digits : Numeral) :
      marker ∈ ['e', 'E'] →
        ExponentText (marker :: '+' :: digits.text) (some ⟨false, digits⟩)
  | negative (marker : Char) (digits : Numeral) :
      marker ∈ ['e', 'E'] →
        ExponentText (marker :: '-' :: digits.text) (some ⟨true, digits⟩)

def NumberText (cs : List Char) (number : Number) : Prop :=
  ∃ exponent, ExponentText exponent number.exponent ∧
    cs = Number.signText number.negative ++ number.whole.text ++
      Number.fractionText number.fraction ++ exponent

/-! ## Strings -/

/-- The one-letter escapes with the characters they denote. -/
def shortEscapes : List (Char × Char) :=
  [('"', '"'), ('\\', '\\'), ('/', '/'), ('b', '\x08'), ('f', '\x0c'),
    ('n', '\n'), ('r', '\r'), ('t', '\t')]

/-- Four hexadecimal digits with the UTF-16 code unit they denote. -/
def UnitText (cs : List Char) (unit : Nat) : Prop :=
  cs.length = 4 ∧ Hex.value? cs = some unit

inductive CharText : List Char → Char → Prop
  | plain (c : Char) :
      c ≠ '"' → c ≠ '\\' → 0x20 ≤ c.toNat → CharText [c] c
  | short (letter c : Char) :
      (letter, c) ∈ shortEscapes → CharText ['\\', letter] c
  | unit (digits : List Char) (c : Char) :
      UnitText digits c.toNat → CharText ('\\' :: 'u' :: digits) c
  | pair (leading trailing : List Char) (high low : Nat) (c : Char) :
      UnitText leading (0xD800 + high) → UnitText trailing (0xDC00 + low) →
        high < 0x400 → low < 0x400 → c.toNat = 0x10000 + 0x400 * high + low →
          CharText ('\\' :: 'u' :: leading ++ '\\' :: 'u' :: trailing) c

inductive CharsText : List Char → List Char → Prop
  | nil : CharsText [] []
  | cons {text : List Char} {c : Char} {rest chars : List Char} :
      CharText text c → CharsText rest chars →
        CharsText (text ++ rest) (c :: chars)

def StringText (cs : List Char) (text : String) : Prop :=
  ∃ body, CharsText body text.toList ∧ cs = '"' :: body ++ ['"']

/-! ## Dialects -/

inductive Dialect where
  | standard
  | unmarked
  | marked
deriving DecidableEq, Repr

/-- The lists of keys that an object may have. -/
def Dialect.Allows : Dialect → List String → Prop
  | .standard, _ => True
  | .unmarked, keys => numberKey ∉ keys
  | .marked, keys => keys.head? ≠ some numberKey

/-- The key that a reader of the dialect has to know. -/
def Dialect.mark? : Dialect → Option String
  | .marked => some numberKey
  | _ => none

/-- What stands between the braces of a marked number: the key, and under it the text
of the number as a string. -/
def MarkedText (cs : List Char) (number : Number) : Prop :=
  ∃ before key gap between quoted after text,
    Blanks before ∧ StringText key numberKey ∧ Blanks gap ∧ Blanks between ∧
      StringText quoted text ∧ NumberText text.toList number ∧ Blanks after ∧
      cs = before ++ key ++ gap ++ ':' :: between ++ quoted ++ after

/-! ## Values -/

/-- The members that the pairs of an object denote: a key stands where it first
occurs and has the value it has last. -/
structure Folded (pairs : List (String × Value)) (members : Members Value) :
    Prop where
  keys_eq : Entries.keys members = (Entries.keys pairs).eraseDups
  get?_eq : ∀ key, Entries.get? members key = Entries.get? pairs.reverse key

mutual

inductive ValueText (dialect : Dialect) : Nat → List Char → Value → Prop
  | null (levels : Nat) : ValueText dialect levels ['n', 'u', 'l', 'l'] .null
  | isTrue (levels : Nat) :
      ValueText dialect levels ['t', 'r', 'u', 'e'] (.bool true)
  | isFalse (levels : Nat) :
      ValueText dialect levels ['f', 'a', 'l', 's', 'e'] (.bool false)
  | number {cs : List Char} {number : Number} (levels : Nat) :
      NumberText cs number → ValueText dialect levels cs (.number number)
  | string {cs : List Char} {text : String} (levels : Nat) :
      StringText cs text → ValueText dialect levels cs (.string text)
  | emptyArray {blanks : List Char} (levels : Nat) :
      Blanks blanks →
        ValueText dialect (levels + 1) ('[' :: blanks ++ [']']) (.array [])
  | array {levels : Nat} {cs : List Char} {elements : List Value} :
      ElementsText dialect levels cs elements →
        ValueText dialect (levels + 1) ('[' :: cs ++ [']']) (.array elements)
  | emptyObject {blanks : List Char} (levels : Nat) :
      Blanks blanks →
        ValueText dialect (levels + 1) ('{' :: blanks ++ ['}']) (.object [])
  | object {levels : Nat} {cs : List Char} {pairs : List (String × Value)}
      {members : Members Value} :
      MembersText dialect levels cs pairs → dialect.Allows (Entries.keys pairs) →
        Folded pairs members →
          ValueText dialect (levels + 1) ('{' :: cs ++ ['}']) (.object members)
  | markedNumber {cs : List Char} {number : Number} (levels : Nat) :
      dialect = .marked → MarkedText cs number →
        ValueText dialect (levels + 1) ('{' :: cs ++ ['}']) (.number number)

/-- One element or more, with commas between them and blanks around each. -/
inductive ElementsText (dialect : Dialect) : Nat → List Char → List Value → Prop
  | last {levels : Nat} {before cs after : List Char} {element : Value} :
      Blanks before → ValueText dialect levels cs element → Blanks after →
        ElementsText dialect levels (before ++ cs ++ after) [element]
  | more {levels : Nat} {before cs after rest : List Char} {element : Value}
      {elements : List Value} :
      Blanks before → ValueText dialect levels cs element → Blanks after →
        ElementsText dialect levels rest elements →
          ElementsText dialect levels (before ++ cs ++ after ++ ',' :: rest)
            (element :: elements)

/-- One member or more, with commas between them and blanks around each key and
each value. -/
inductive MembersText (dialect : Dialect) :
    Nat → List Char → List (String × Value) → Prop
  | last {levels : Nat} {before key gap between cs after : List Char}
      {name : String} {content : Value} :
      Blanks before → StringText key name → Blanks gap → Blanks between →
        ValueText dialect levels cs content → Blanks after →
          MembersText dialect levels
            (before ++ key ++ gap ++ ':' :: between ++ cs ++ after)
            [(name, content)]
  | more {levels : Nat} {before key gap between cs after rest : List Char}
      {name : String} {content : Value} {pairs : List (String × Value)} :
      Blanks before → StringText key name → Blanks gap → Blanks between →
        ValueText dialect levels cs content → Blanks after →
          MembersText dialect levels rest pairs →
            MembersText dialect levels
              (before ++ key ++ gap ++ ':' :: between ++ cs ++ after ++
                ',' :: rest)
              ((name, content) :: pairs)

end

/-- A whole text: one value with blanks around it. -/
def DocumentText (dialect : Dialect) (levels : Nat) (cs : List Char) (value : Value) :
    Prop :=
  ∃ before body after, Blanks before ∧ ValueText dialect levels body value ∧
    Blanks after ∧ cs = before ++ body ++ after

end FlowMigration.Json.Grammar

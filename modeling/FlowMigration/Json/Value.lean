import FlowMigration.Entries
import FlowMigration.Json.Number

/-!
# JSON values

An object keeps its members in order.  The type allows an object to repeat a key;
`Value.DistinctKeys` says that none does, at any level.  One key is special to the
reader of documents, and `Value.Unmarked` says that a value does without it.
-/

namespace FlowMigration.Json

inductive Value where
  | null
  | bool (value : Bool)
  | number (value : Number)
  | string (value : String)
  | array (elements : List Value)
  | object (members : List (String × Value))

/-- The key that marks a number: the reader of documents takes an object that starts
with it for the number in the string under it. -/
def numberKey : String := "$serde_json::private::Number"

/-- The members of an object, in order. -/
abbrev Members (α : Type) := Entries String α

namespace Value

mutual

/-- The number of nested containers, the outermost one counted. -/
def depth : Value → Nat
  | .array elements => depthElements elements + 1
  | .object members => depthMembers members + 1
  | _ => 0

def depthElements : List Value → Nat
  | [] => 0
  | value :: rest => max value.depth (depthElements rest)

def depthMembers : List (String × Value) → Nat
  | [] => 0
  | (_, value) :: rest => max value.depth (depthMembers rest)

end

mutual

/-- The list of keys of every object in the value satisfies a predicate. -/
def EachObject (P : List String → Prop) : Value → Prop
  | .array elements => EachObjectElements P elements
  | .object members => P (Entries.keys members) ∧ EachObjectMembers P members
  | _ => True

def EachObjectElements (P : List String → Prop) : List Value → Prop
  | [] => True
  | value :: rest => value.EachObject P ∧ EachObjectElements P rest

def EachObjectMembers (P : List String → Prop) : List (String × Value) → Prop
  | [] => True
  | (_, value) :: rest => value.EachObject P ∧ EachObjectMembers P rest

end

/-- No object in the value repeats a key. -/
def DistinctKeys (value : Value) : Prop :=
  value.EachObject List.Nodup

/-- No object in the value has the key that marks a number. -/
def Unmarked (value : Value) : Prop :=
  value.EachObject fun keys => numberKey ∉ keys

mutual

def decideEq : (left right : Value) → Decidable (left = right)
  | .null, .null => isTrue rfl
  | .bool a, .bool b => decidable_of_iff (a = b) (by simp)
  | .number a, .number b => decidable_of_iff (a = b) (by simp)
  | .string a, .string b => decidable_of_iff (a = b) (by simp)
  | .array a, .array b =>
      have := decideEqElements a b
      decidable_of_iff (a = b) (by simp)
  | .object a, .object b =>
      have := decideEqMembers a b
      decidable_of_iff (a = b) (by simp)
  | .null, .bool _ | .null, .number _ | .null, .string _ | .null, .array _
  | .null, .object _ | .bool _, .null | .bool _, .number _ | .bool _, .string _
  | .bool _, .array _ | .bool _, .object _ | .number _, .null
  | .number _, .bool _ | .number _, .string _ | .number _, .array _
  | .number _, .object _ | .string _, .null | .string _, .bool _
  | .string _, .number _ | .string _, .array _ | .string _, .object _
  | .array _, .null | .array _, .bool _ | .array _, .number _
  | .array _, .string _ | .array _, .object _ | .object _, .null
  | .object _, .bool _ | .object _, .number _ | .object _, .string _
  | .object _, .array _ => isFalse (by simp)

def decideEqElements : (left right : List Value) → Decidable (left = right)
  | [], [] => isTrue rfl
  | a :: as, b :: bs =>
      have := decideEq a b
      have := decideEqElements as bs
      decidable_of_iff (a = b ∧ as = bs) (by simp)
  | [], _ :: _ | _ :: _, [] => isFalse (by simp)

def decideEqMembers :
    (left right : List (String × Value)) → Decidable (left = right)
  | [], [] => isTrue rfl
  | (k, a) :: as, (l, b) :: bs =>
      have := decideEq a b
      have := decideEqMembers as bs
      decidable_of_iff ((k = l ∧ a = b) ∧ as = bs) (by simp)
  | [], _ :: _ | _ :: _, [] => isFalse (by simp)

end

instance : DecidableEq Value :=
  decideEq

section Decidability

variable {P : List String → Prop} [DecidablePred P]

mutual

def decideEachObject : (value : Value) → Decidable (value.EachObject P)
  | .array elements =>
      have := decideEachObjectElements elements
      decidable_of_iff (EachObjectElements P elements) (by simp [EachObject])
  | .object members =>
      have := decideEachObjectMembers members
      decidable_of_iff (P (Entries.keys members) ∧ EachObjectMembers P members)
        (by simp [EachObject])
  | .null | .bool _ | .number _ | .string _ => isTrue (by simp [EachObject])

def decideEachObjectElements :
    (elements : List Value) → Decidable (EachObjectElements P elements)
  | [] => isTrue (by simp [EachObjectElements])
  | value :: rest =>
      have := decideEachObject value
      have := decideEachObjectElements rest
      decidable_of_iff (value.EachObject P ∧ EachObjectElements P rest)
        (by simp [EachObjectElements])

def decideEachObjectMembers :
    (members : List (String × Value)) → Decidable (EachObjectMembers P members)
  | [] => isTrue (by simp [EachObjectMembers])
  | (_, value) :: rest =>
      have := decideEachObject value
      have := decideEachObjectMembers rest
      decidable_of_iff (value.EachObject P ∧ EachObjectMembers P rest)
        (by simp [EachObjectMembers])

end

end Decidability

instance (value : Value) : Decidable value.DistinctKeys :=
  decideEachObject value

instance (value : Value) : Decidable value.Unmarked :=
  decideEachObject value

end Value

end FlowMigration.Json

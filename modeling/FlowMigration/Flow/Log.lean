import FlowMigration.Flow.Report
import FlowMigration.Text.Hex

/-!
# Logs

The events that a migration logs, with the level, the message and the fields that
each is logged with.

A run that logs has a result and the events that were logged on the way to it, in
order.  The events of a run that fails are those of the work done before the failure;
nothing is logged after it.

A list of texts is quoted so that a reader of a log can tell its characters apart:
quotes and backslashes are escaped, and a character without a glyph of its own is
written as an escape.  Characters with a glyph stay as they are, ASCII or not.
-/

namespace FlowMigration

/-! ## Visible texts -/

namespace Visible

/-- A character as it is written between quotes.  A character has a glyph of its own if
it neither combines with the one before it nor goes without a printed form; which
characters do is told by the tables of a Unicode version. -/
def shown (hasGlyph : Char → Bool) (c : Char) : List Char :=
  if c = '"' then ['\\', '"']
  else if c = '\\' then ['\\', '\\']
  else if c = '\n' then ['\\', 'n']
  else if c = '\t' then ['\\', 't']
  else if c = '\r' then ['\\', 'r']
  else if c = '\x00' then ['\\', '0']
  else if hasGlyph c then [c]
  else ['\\', 'u', '{'] ++ Hex.minimal c.toNat ++ ['}']

def quoted (hasGlyph : Char → Bool) (text : String) : List Char :=
  '"' :: text.toList.flatMap (shown hasGlyph) ++ ['"']

/-- A list of quoted texts in brackets. -/
def list (hasGlyph : Char → Bool) (texts : List String) : String :=
  String.ofList
    ('[' :: List.intercalate [',', ' '] (texts.map (quoted hasGlyph)) ++ [']'])

end Visible

/-! ## Events -/

inductive Level where
  | debug
  | info
  | warning
deriving DecidableEq, Repr

inductive Event where
  | readingFlow (source : String)
  | flowIdReplaced (old : Json.Value) (new : Uuid)
  | formDiscarded (keys : List String)
  | nodeConverted (index : Nat)
  | migrationDone (report : Report)
  | reportMade (report : Report)
deriving DecidableEq

namespace Level

def name : Level → String
  | .debug => "DEBUG"
  | .info => "INFO"
  | .warning => "WARN"

end Level

namespace Event

def level : Event → Level
  | .readingFlow _ => .info
  | .flowIdReplaced _ _ => .debug
  | .formDiscarded _ => .warning
  | .nodeConverted _ => .debug
  | .migrationDone _ => .info
  | .reportMade _ => .info

def message : Event → String
  | .readingFlow _ => "Converting flow"
  | .flowIdReplaced _ _ => "Normalized flow id"
  | .formDiscarded _ =>
      "targets_form has no form_data; discarding it and defaulting config"
  | .nodeConverted _ => "Converted node data"
  | .migrationDone _ => "Flow migration complete"
  | .reportMade _ => "Migration report"

/-- The value of a field: a text as it is, or a list of texts. -/
inductive Field where
  | text (value : String)
  | texts (values : List String)
deriving DecidableEq, Repr

/-- A field as it is written in a log. -/
def Field.shown (hasGlyph : Char → Bool) : Field → String
  | .text value => value
  | .texts values => Visible.list hasGlyph values

def fields : Event → List (String × Field)
  | .readingFlow source => [("source", .text source)]
  | .flowIdReplaced old new => [("old", .text old.compact), ("new", .text (toString new))]
  | .formDiscarded keys => [("keys", .texts keys)]
  | .nodeConverted index => [("node", .text (toString index))]
  | .migrationDone report =>
      [("wrapped", .text (toString report.wrapped)),
        ("flow_id", .text (report.flowId.getD "unchanged")),
        ("nodes", .text (toString report.tally.nodesTotal)),
        ("converted", .text (toString report.tally.nodesConverted)),
        ("renamed", .text (toString report.tally.renamedKeys)),
        ("dropped", .text (toString report.tally.droppedKeys))]
  | .reportMade report => [("report", .text report.text)]

/-- The event on one line of a log. -/
def line (hasGlyph : Char → Bool) (event : Event) : String :=
  " ".intercalate
    (event.level.name :: event.message ::
      event.fields.map fun (name, field) => name ++ "=" ++ field.shown hasGlyph)

end Event

/-! ## Runs that log -/

structure Logged (ε α : Type) where
  events : List Event
  result : Except ε α

namespace Logged

variable {ε α β : Type}

instance : Monad (Logged ε) where
  pure value := ⟨[], .ok value⟩
  map f run := ⟨run.events, run.result.map f⟩
  bind first next :=
    match first.result with
    | .error error => ⟨first.events, .error error⟩
    | .ok value =>
        let second := next value
        ⟨first.events ++ second.events, second.result⟩

/-- Logs events and goes on. -/
def log (events : List Event) : Logged ε Unit :=
  ⟨events, .ok ()⟩

def fail (error : ε) : Logged ε α :=
  ⟨[], .error error⟩

/-- The same run with its error restated. -/
def mapError {δ : Type} (restate : ε → δ) (run : Logged ε α) : Logged δ α :=
  ⟨run.events, run.result.mapError restate⟩

theorem pure_eq (value : α) : (pure value : Logged ε α) = ⟨[], .ok value⟩ :=
  rfl

/-- After a success, the events of the next run follow. -/
theorem ok_bind (events : List Event) (value : α) (next : α → Logged ε β) :
    (⟨events, .ok value⟩ : Logged ε α) >>= next =
      ⟨events ++ (next value).events, (next value).result⟩ :=
  rfl

/-- After a failure, nothing more is done. -/
theorem error_bind (events : List Event) (error : ε) (next : α → Logged ε β) :
    (⟨events, .error error⟩ : Logged ε α) >>= next = ⟨events, .error error⟩ :=
  rfl

end Logged

end FlowMigration

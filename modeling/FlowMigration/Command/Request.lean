import FlowMigration.Command.FileStore
import FlowMigration.Flow.Migration
import FlowMigration.Json.Reader

/-!
# Conversion requests

A text is converted by reading it, migrating the document and writing the result.  The
width of the indentation bears on the last step only.

A request names where a text comes from and where its conversion goes.  The source
is read to its end before anything is written, so the destination may be the same
file.
-/

namespace FlowMigration

/-! ## Errors -/

/-- What can keep a request from being carried out, one constructor for each stage:
reading the source, parsing, migrating, and writing the result to a file or to the
standard output. -/
inductive CommandError where
  | unreadableFile (path : String) (reason : FileError)
  | unreadableInput (reason : FileError)
  | malformed (error : Json.ReadError)
  | notMigrated (error : MigrationError)
  | unwritableFile (path : String) (reason : FileError)
  | unwritableOutput (reason : FileError)
deriving DecidableEq, Repr

def CommandError.message : CommandError → String
  | .unreadableFile path reason =>
      "Failed to read file " ++ path ++ ": " ++ reason.message
  | .unreadableInput reason =>
      "Invalid argument: Failed to read stdin: " ++ reason.message
  | .malformed error => "Failed to parse flow JSON: " ++ error.message
  | .notMigrated error => "Migration error: " ++ error.message
  | .unwritableFile path reason =>
      "Failed to write file " ++ path ++ ": " ++ reason.message
  | .unwritableOutput reason =>
      "IO error: Failed to write stdout: " ++ reason.message

/-! ## Texts -/

/-- The text of the migrated document, with the events logged on the way. -/
def Conversion.run (text : String) (indent : Nat) : Logged CommandError String :=
  match Json.read text with
  | .error error => Logged.fail (.malformed error)
  | .ok document => do
      let migration ←
        (Document.migrateLogged document).mapError CommandError.notMigrated
      Logged.log [.reportMade migration.report]
      pure (migration.document.render indent)

/-! ## Requests -/

inductive Source where
  | file (path : String)
  | standardInput
deriving DecidableEq, Repr

/-- Without a destination, the result is printed. -/
structure Request where
  source : Source
  destination : Option String
  indent : Nat
deriving DecidableEq, Repr

/-- The state after a request: the files, what was printed, the events that were
logged, and whether the request was carried out. -/
structure Outcome where
  files : FileStore
  printed : String
  events : List Event
  result : Except CommandError Unit

namespace Source

/-- The source that an argument names. -/
def ofArgument (argument : String) : Source :=
  if argument = "-" then .standardInput else .file argument

def description : Source → String
  | .file path => path
  | .standardInput => "<stdin>"

/-- The error of a source that cannot be read. -/
def readFailure : Source → FileError → CommandError
  | .file path => .unreadableFile path
  | .standardInput => .unreadableInput

end Source

/-- The text that bytes encode. -/
def decodeText (bytes : ByteArray) : Except FileError String :=
  match String.fromUTF8? bytes with
  | some text => .ok text
  | none => .error .notText

namespace Request

/-- Converts what was read from the source, or reports why it was not read. -/
def respond (request : Request) (loaded : Except FileError ByteArray) :
    Logged CommandError String := do
  Logged.log [.readingFlow request.source.description]
  match loaded.bind decodeText with
  | .error reason => Logged.fail (request.source.readFailure reason)
  | .ok text => Conversion.run text request.indent

/-- The bytes of the source of a request. -/
def load (request : Request) (files : FileStore) (input : ByteArray) :
    Except FileError ByteArray :=
  match request.source with
  | .file path => files.read path
  | .standardInput => .ok input

/-- Carries out a request. -/
def carryOut (request : Request) (files : FileStore) (input : ByteArray) :
    Outcome :=
  let response := request.respond (request.load files input)
  match response.result, request.destination with
  | .error error, _ => ⟨files, "", response.events, .error error⟩
  | .ok text, none => ⟨files, text, response.events, .ok ()⟩
  | .ok text, some path =>
      match files.write path text.toUTF8 with
      | .error reason =>
          ⟨files, "", response.events, .error (.unwritableFile path reason)⟩
      | .ok files => ⟨files, "", response.events, .ok ()⟩

end Request

end FlowMigration

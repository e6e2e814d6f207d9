import FlowMigration.Command.Arguments
import FlowMigration.Command.Request

/-!
# The program

A run of the program is a function of its arguments, the environment variable with
the indentation width, the files and the standard input.  The status is 0 for a run
that did what was asked, 1 for a conversion that failed, and 2 for arguments that
are not allowed.
-/

namespace FlowMigration.Program

def versionText : String := "flow-migrate 0.1.0\n"

def usageText : String :=
  "Usage: flow-migrate [OPTIONS] <SOURCE> [DESTINATION]\n"

/-- What a run leaves behind. -/
structure Run where
  status : Nat
  output : String
  errors : String
  events : List Event
  files : FileStore

/-- The line that tells how a request ended, if there is one to be told. -/
def notice (request : Request) (result : Except CommandError Unit) : String :=
  match result, request.destination with
  | .error error, _ => "Error: " ++ error.message ++ "\n"
  | .ok (), some path =>
      "Converted " ++ request.source.description ++ " -> " ++ path ++ "\n"
  | .ok (), none => ""

def status (result : Except CommandError Unit) : Nat :=
  match result with
  | .ok () => 0
  | .error _ => 1

/-- The request that arguments and environment make.  An option for the width wins
over the environment variable. -/
def request (source : String) (destination : Option String) (indent : Option Nat)
    (setting : Option ByteArray) : Request where
  source := Source.ofArgument source
  destination := destination
  indent := indent.getD (Indent.override Indent.standard setting)

/-- An event is shown when it is a warning, and every event is when asked for. -/
def shown (verbose : Bool) (event : Event) : Bool :=
  verbose || event.level == .warning

/-- Runs the program. -/
def run (arguments : List String) (setting : Option ByteArray)
    (files : FileStore) (input : ByteArray) : Run :=
  match Command.ofArguments arguments with
  | .misused => ⟨2, "", usageText, [], files⟩
  | .showVersion => ⟨0, versionText, "", [], files⟩
  | .showHelp => ⟨0, usageText, "", [], files⟩
  | .convert source destination indent verbose =>
      let request := request source destination indent setting
      let outcome := request.carryOut files input
      { status := status outcome.result
        output := outcome.printed
        errors := notice request outcome.result
        events := outcome.events.filter (shown verbose)
        files := outcome.files }

end FlowMigration.Program

import FlowMigration.Command.Program

/-!
# Command line

The program on the real files: it reads, calls the library, writes and prints.  Which
request is made, how it is answered and what is told about it is decided elsewhere.
-/

namespace FlowMigration

/-- The characters that a log line shows as they are: all but controls.  The tables of a
Unicode version would leave out more of them. -/
def hasGlyph (c : Char) : Bool :=
  0x20 ≤ c.toNat && c.toNat < 0x7F || 0xA0 ≤ c.toNat

/-- The reason that the system gives for a failure.  Its codes may come negated. -/
def FileError.ofIO : IO.Error → FileError
  | .noFileOrDirectory _ _ _ => .notFound
  | .inappropriateType file code details =>
      if code = 20 ∨ code = -20 then .notADirectory
      else if code = 21 ∨ code = -21 then .isADirectory
      else .other (toString (IO.Error.inappropriateType file code details))
  | error => .other (toString error)

/-- Runs an action and keeps its failure as a result. -/
def attempt {α : Type} (action : IO α) : IO (Except FileError α) := do
  try
    return .ok (← action)
  catch error =>
    return .error (.ofIO error)

def Source.readAll : Source → IO (Except FileError ByteArray)
  | .file path => attempt (IO.FS.readBinFile path)
  | .standardInput => attempt do (← IO.getStdin).readBinToEnd

/-- Puts a converted text where the request wants it. -/
def Request.deliver (request : Request) (text : String) :
    IO (Except CommandError Unit) := do
  match request.destination with
  | none =>
      match ← attempt (do IO.print text; (← IO.getStdout).flush) with
      | .ok () => return .ok ()
      | .error reason => return .error (.unwritableOutput reason)
  | some path =>
      match ← attempt (IO.FS.writeBinFile path text.toUTF8) with
      | .ok () => return .ok ()
      | .error reason => return .error (.unwritableFile path reason)

def Request.perform (request : Request) (verbose : Bool) : IO UInt32 := do
  let response := request.respond (← request.source.readAll)
  for event in response.events.filter (Program.shown verbose) do
    IO.eprintln (event.line hasGlyph)
  let result ←
    match response.result with
    | .ok text => request.deliver text
    | .error error => pure (.error error)
  IO.eprint (Program.notice request result)
  return UInt32.ofNat (Program.status result)

end FlowMigration

open FlowMigration in
def main (arguments : List String) : IO UInt32 := do
  match Command.ofArguments arguments with
  | .misused =>
      IO.eprint Program.usageText
      return 2
  | .showVersion =>
      IO.print Program.versionText
      return 0
  | .showHelp =>
      IO.print Program.usageText
      return 0
  | .convert source destination indent verbose =>
      let setting := (← IO.getEnv Indent.variableName).map String.toUTF8
      (Program.request source destination indent setting).perform verbose

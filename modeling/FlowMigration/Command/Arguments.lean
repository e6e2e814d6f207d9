import FlowMigration.Command.Indent

/-!
# Command-line arguments

Arguments are taken from left to right, and the first that settles the matter does:
one that is not allowed, or one that asks for the version or for help.  Options may
stand anywhere before the argument `--`, after which every argument is a path.  A
single `-` is a path as well.
-/

namespace FlowMigration

/-- What has been given so far. -/
structure Arguments where
  source : Option String := none
  destination : Option String := none
  indent : Option Nat := none
  verbose : Bool := false
deriving DecidableEq, Repr

/-- What a command line asks for. -/
inductive Command where
  | convert (source : String) (destination : Option String) (indent : Option Nat)
      (verbose : Bool)
  | showVersion
  | showHelp
  | misused
deriving DecidableEq, Repr

namespace Arguments

/-- Takes a path: the source first, then the destination, which is not empty. -/
def addPath? (given : Arguments) (path : String) : Option Arguments :=
  match given.source, given.destination with
  | none, _ => some { given with source := some path }
  | some _, none =>
      if path = "" then none else some { given with destination := some path }
  | some _, some _ => none

/-- Takes a width, which may be given once. -/
def addIndent? (given : Arguments) (text : String) : Option Arguments :=
  match given.indent, Indent.ofText? text.toList with
  | none, some indent => some { given with indent := some indent }
  | _, _ => none

def addVerbose? (given : Arguments) : Option Arguments :=
  if given.verbose then none else some { given with verbose := true }

/-- What is asked for when no argument is left.  A source is required. -/
def finish (given : Arguments) : Command :=
  match given.source with
  | some source => .convert source given.destination given.indent given.verbose
  | none => .misused

/-- Takes arguments that are all paths. -/
def takePaths (given : Arguments) : List String → Command
  | [] => given.finish
  | path :: rest =>
      match given.addPath? path with
      | some given => takePaths given rest
      | none => .misused

/-- Takes a group of one-letter options; what is asked for, if that settles it. -/
def takeLetters (given : Arguments) : List Char → Except Command Arguments
  | [] => .ok given
  | 'v' :: letters =>
      match given.addVerbose? with
      | some given => takeLetters given letters
      | none => .error .misused
  | 'V' :: _ => .error .showVersion
  | 'h' :: _ => .error .showHelp
  | _ :: _ => .error .misused

/-- Takes a long option, without its dashes, that stands with its value in one
argument or has none. -/
def takeLong (given : Arguments) (name : String) (value : Option String) :
    Except Command Arguments :=
  if name = "indent" then
    match value.bind given.addIndent? with
    | some given => .ok given
    | none => .error .misused
  else if value.isSome then .error .misused
  else if name = "verbose" then
    match given.addVerbose? with
    | some given => .ok given
    | none => .error .misused
  else if name = "version" then .error .showVersion
  else if name = "help" then .error .showHelp
  else .error .misused

/-- Splits a long option at the first equals sign. -/
def splitValue (option : List Char) : String × Option String :=
  (String.ofList (option.takeWhile (· != '=')),
    match option.dropWhile (· != '=') with
    | [] => none
    | _ :: value => some (String.ofList value))

/-- Takes arguments in turn. -/
def take (given : Arguments) : List String → Command
  | [] => given.finish
  | "--" :: rest => takePaths given rest
  | "--indent" :: rest =>
      match rest with
      | [] => .misused
      | value :: rest =>
          match given.addIndent? value with
          | some given => take given rest
          | none => .misused
  | argument :: rest =>
      let taken :=
        match argument.toList with
        | '-' :: '-' :: option =>
            let (name, value) := splitValue option
            given.takeLong name value
        | '-' :: letter :: letters => given.takeLetters (letter :: letters)
        | _ =>
            match given.addPath? argument with
            | some given => .ok given
            | none => .error .misused
      match taken with
      | .ok given => take given rest
      | .error command => command

end Arguments

/-- What a list of arguments asks for. -/
def Command.ofArguments (arguments : List String) : Command :=
  Arguments.take {} arguments

end FlowMigration

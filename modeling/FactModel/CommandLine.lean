import FactModel.Document.Vocabulary
import FactModel.Json.Parser
import FactModel.Json.Printer
import FactModel.PathName
import FactModel.Session
import FactModel.Toml.Table
set_option autoImplicit false

/-!
# The command line

```text
[--config FILE] [--pretty] FILES...
```

The files are compiled in order into one vocabulary, which is written as JSON. The first
declaration that fails ends the program.

## Main definitions

* `FactModel.CommandLine.Arguments` — what the arguments ask for.
* `FactModel.CommandLine.Surroundings` — the files and the environment of the program.
* `FactModel.CommandLine.run` — the exit code and the output of the program.
-/

namespace FactModel.CommandLine

/-- What the arguments ask for. -/
structure Arguments where
  config : Option String := none
  pretty : Bool := false
  files : List String := []

/-- Whether an argument is an option. A single hyphen is not. -/
def isOption (argument : String) : Bool :=
  argument.startsWith "-" && argument ≠ "-"

/-- The mark of a configuration file that is given in one argument. -/
def configMark : String :=
  "--config="

/-- The arguments with a configuration file, of which there may be one. -/
def Arguments.withConfig? (a : Arguments) (file : String) : Option Arguments :=
  if a.config.isSome then none else some { a with config := some file }

/-- The arguments with a file to compile, which must have a name. -/
def Arguments.withFile? (a : Arguments) (file : String) : Option Arguments :=
  if file.isEmpty then none else some { a with files := a.files ++ [file] }

/-- Reads arguments one by one. Behind `--` all are files. -/
def readArguments (a : Arguments) : List String → Option Arguments
  | [] => some a
  | "--" :: files => files.foldlM Arguments.withFile? a
  | "--pretty" :: rest => if a.pretty then none else readArguments { a with pretty := true } rest
  | ["--config"] => none
  | "--config" :: file :: rest =>
    if isOption file then none
    else
      match a.withConfig? file with
      | some a => readArguments a rest
      | none => none
  | argument :: rest =>
    let next :=
      if argument.startsWith configMark then
        a.withConfig? (String.ofList (argument.toList.drop configMark.length))
      else if isOption argument then none
      else a.withFile? argument
    match next with
    | some a => readArguments a rest
    | none => none

/-- What the arguments ask for, unless they are not understood or name no file. -/
def Arguments.ofList? (arguments : List String) : Option Arguments :=
  (readArguments {} arguments).filter (!·.files.isEmpty)

/-! ## Settings -/

/-- The files and the environment of the program. -/
structure Surroundings where
  /-- The text of a file, if it can be read. -/
  read? : String → Option String
  environment : List (String × String)

/-- The way to read a configuration file, by the ending of its name. -/
def readerOf? (name : String) : Option (String → Option Json) :=
  match PathName.ending? name with
  | some "toml" => some Toml.parse?
  | some "json" => some Json.parse?
  | _ => none

/-- The names under which a configuration file is looked for. -/
def configNames (name : String) : List String :=
  name :: ["toml", "json"].filterMap (PathName.withEnding? name)

/-- A text without the byte order mark that it may begin with. -/
def withoutMark (text : String) : String :=
  match text.toList with
  | '\ufeff' :: rest => String.ofList rest
  | _ => text

/-- The members of a configuration file, if there is one that can be read. Its name may leave out
the ending. -/
inductive Configuration where
  | missing
  | malformed
  | members (members : List (String × Json))

/-- Looks for a configuration file. One whose format is unknown is as good as none. -/
def findConfiguration (s : Surroundings) (name : String) : Configuration :=
  match (configNames name).find? fun n => (s.read? n).isSome with
  | none => .missing
  | some n =>
    match readerOf? n, s.read? n with
    | some reader, some text =>
      match reader (withoutMark text) with
      | some (.object members) => .members members
      | _ => .malformed
    | _, _ => .missing

/-- The name of the configuration file that is used where none is asked for. -/
def usualConfig : String :=
  "clausal"

/-- The members of the configuration file. One that is asked for must exist. -/
def configMembers? (s : Surroundings) (config : Option String) : Option (List (String × Json)) :=
  match config with
  | some name =>
    match findConfiguration s name with
    | .members members => some members
    | _ => none
  | none =>
    match findConfiguration s usualConfig with
    | .members members => some members
    | .missing => some []
    | .malformed => none

/-- The settings of the configuration file, overridden by the environment. -/
def settings? (s : Surroundings) (config : Option String) : Option Settings := do
  let members ← configMembers? s config
  Settings.ofPlaces? (members ++ Settings.environmentMembers s.environment)

/-! ## The program -/

/-- How the program ends. -/
structure Report where
  exitCode : UInt32
  output : String

/-- Compiles files in order. -/
def compileFiles (s : Surroundings) (session : Session) : List String → Option Session
  | [] => some session
  | file :: files =>
    match s.read? file with
    | none => none
    | some script =>
      match session.compile script with
      | (.ok _, session) => compileFiles s session files
      | (.error _, _) => none

/-- The vocabulary of a session as it is written. -/
def written (pretty : Bool) (session : Session) : String :=
  let document := Document.ofVocabulary session.vocabulary
  (if pretty then document.pretty else document.compact) ++ "\n"

/-- The output for arguments that are understood, unless the settings or a file fail. -/
def output? (s : Surroundings) (a : Arguments) : Option String := do
  let settings ← settings? s a.config
  let session ← compileFiles s (.start settings) a.files
  some (written (a.pretty || settings.pretty) session)

/-- Runs the program. -/
def run (s : Surroundings) (arguments : List String) : Report :=
  match Arguments.ofList? arguments with
  | none => { exitCode := 2, output := "" }
  | some a =>
    match output? s a with
    | some output => { exitCode := 0, output }
    | none => { exitCode := 1, output := "" }

/-- The names of all files that a run may read. -/
def filesRead (arguments : List String) : List String :=
  match Arguments.ofList? arguments with
  | none => []
  | some a => a.files ++ configNames (a.config.getD usualConfig)

end FactModel.CommandLine

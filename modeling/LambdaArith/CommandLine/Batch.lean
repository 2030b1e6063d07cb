import LambdaArith.CommandLine.Files
import LambdaArith.CommandLine.OutputPath
import LambdaArith.CommandLine.Settings
import LambdaArith.Diagnostic
import LambdaArith.Module.Text

/-!
# The batch compiler

Compiles one source file into the text of a module, which goes to a file or is shown. What
the program does is a function of its arguments and of the files it is given.
-/

namespace LambdaArith.CommandLine

/-- What a program has come to: its exit code and what it has written. -/
structure Report where
  code : Nat
  out : String
  err : String
deriving DecidableEq, Repr

namespace Report

/-- The text of an error that ends a program, and of what has caused it. -/
def errorText (message : String) (cause : Option FileError) : String :=
  "Error: " ++ message ++ "\n" ++
    match cause with
    | none => ""
    | some error => "\nCaused by:\n    " ++ error.message ++ "\n"

/-- What a program does instead of its work: it explains itself, or refuses its arguments. -/
def ofInterruption (program about : String) (grammar : Grammar) : Interruption → Report
  | .help => ⟨0, grammar.explain program about, ""⟩
  | .version => ⟨0, program ++ " 0.1.0\n", ""⟩
  | .unknownArgument => ⟨2, "", "error: unexpected argument found\n"⟩
  | .argumentConflict => ⟨2, "", "error: an argument cannot be used with another one\n"⟩
  | .invalidValue => ⟨2, "", "error: a value is required but none was supplied\n"⟩
  | .tooManyValues => ⟨2, "", "error: unexpected value found\n"⟩
  | .missingArgument => ⟨2, "", "error: a required argument was not provided\n"⟩

end Report

namespace Batch

/-- The name of the program. -/
def program : String := "nsc"

/-- What the program is for. -/
def about : String := "Compiles a source file into a textual module"

/-- The command line of the program. -/
def grammar : Grammar where
  switches :=
    [ ⟨"output", some 'o', .path,
        "Where to write the module [default: <input base name>.ll]"⟩,
      ⟨"dump", none, .flag, "Print the module to stdout instead of writing it"⟩ ] ++
      targetSwitches ++ verbositySwitches ++ [helpSwitch, versionSwitch]
  argument := some ⟨"INPUT", none, .path, "Source file to compile"⟩

/-- What a command line asks for. -/
structure Request where
  input : String
  output : Option String
  dump : Bool
  settings : Settings
deriving DecidableEq, Repr

/-- What the arguments ask for. -/
def Request.parse (args : List String) : Except Interruption Request := do
  let settled ← CommandLine.parse grammar args
  let settings ← Settings.ofSettled settled
  match value? settled "INPUT" with
  | none => .error .missingArgument
  | some input =>
    return ⟨input, value? settled "output", (value? settled "dump").isSome, settings⟩

/-- Compiles a source that has been read, and writes or shows the module. -/
def compile {m : Type → Type} [Monad m] (files : Files m) (request : Request)
    (target : Target) (source : String) : m Report := do
  let level := request.settings.level
  let module := (Module.empty request.input).setTarget target
  let outcome := module.compile source
  let log := Event.log level (.compiling request.input target :: outcome.events)
  match outcome.result with
  | .error error =>
    return ⟨1, "", log ++ Event.log level (error.locateEvents source) ++
      Diagnostic.render request.input source error⟩
  | .ok _ =>
    if request.dump then return ⟨0, outcome.module.text, log⟩
    else
      let output := outputPath request.input request.output
      match ← files.write output outcome.module.text with
      | .error error =>
        let message := "could not write output file " ++ output
        return ⟨1, "", log ++ Report.errorText message (some error)⟩
      | .ok () => return ⟨0, "", log ++ Event.log level [.wroteModule output]⟩

/-- Reads the source before anything else is looked at, then compiles it. -/
def run {m : Type → Type} [Monad m] (files : Files m) (args : List String) : m Report := do
  match Request.parse args with
  | .error interruption => return Report.ofInterruption program about grammar interruption
  | .ok request =>
    match ← files.readText request.input with
    | .error error =>
      let message := "could not open input file " ++ request.input
      return ⟨1, "", Report.errorText message (some error)⟩
    | .ok source =>
      match request.settings.target.resolve with
      | .error error => return ⟨1, "", Report.errorText error.message none⟩
      | .ok target => compile files request target source

end Batch

end LambdaArith.CommandLine

import LambdaArith.CommandLine.Backspace
import LambdaArith.CommandLine.Batch
import LambdaArith.CommandLine.Blank

/-!
# The interactive session

Compiles one line after another into a module and shows the module after each of them, or
the error. A line that fails leaves the module as it was.
-/

namespace LambdaArith.CommandLine.Interactive

/-- The name of the program. -/
def program : String := "nsci"

/-- What the program is for. -/
def about : String := "Interactive session: every line is compiled into one shared module"

/-- The command line of the program. -/
def grammar : Grammar where
  switches :=
    ⟨"show-tokens", none, .flag, "Print the tokens of every line before compiling it"⟩ ::
      targetSwitches ++ verbositySwitches ++ [helpSwitch, versionSwitch]
  argument := none

/-- A session: how it has been set up, and the module so far. -/
structure State where
  showTokens : Bool
  level : Level
  module : Module
deriving Repr

/-- The session that the arguments ask for. -/
def start (args : List String) : Except Report State :=
  let settings : Except Interruption (Bool × Settings) := do
    let settled ← CommandLine.parse grammar args
    return ((value? settled "show-tokens").isSome, ← Settings.ofSettled settled)
  match settings with
  | .error interruption => .error (Report.ofInterruption program about grammar interruption)
  | .ok (showTokens, settings) =>
    match settings.target.resolve with
    | .error error => .error ⟨1, "", Report.errorText error.message none⟩
    | .ok target => .ok ⟨showTokens, settings.level, (Module.empty "top").setTarget target⟩

/-- What is shown first. -/
def banner : String :=
  "\x1b[1mnscheme\x1b[0m\n\n"

/-- What is shown last. -/
def farewell : String :=
  "\nGoodbye!\n"

/-- The classes and the lexemes of the tokens of a line, if it has no bad ones. -/
def tokensText (line : String) : String :=
  match Token.ofSource line with
  | .error _ => ""
  | .ok tokens =>
    let row (words : List String) := "[" ++ " ".intercalate words ++ "]\n"
    row (tokens.map fun token => token.kind.name) ++ row (tokens.map Token.lexeme)

/-- What becomes of a session with one line, what is shown, and what is logged. -/
def respond (state : State) (line : String) : State × String × String :=
  if isBlankLine line then (state, "", "")
  else
    let outcome := state.module.compile line
    let tokens := if state.showTokens then tokensText line else ""
    let tokenEvents := if state.showTokens then Module.scanEvents line else []
    let (shown, events) := match outcome.result with
      | .ok values => (outcome.module.text, [.compiledLine values.length])
      | .error error => (Diagnostic.render "<stdin>" line error, error.locateEvents line)
    ({ state with module := outcome.module }, tokens ++ shown,
      Event.log state.level (tokenEvents ++ outcome.events ++ events))

/-- What is shown and logged for lines in order. -/
def respondAll (state : State) : List String → String × String
  | [] => ("", "")
  | line :: rest =>
    let (state, shown, logged) := respond state line
    let (shownRest, loggedRest) := respondAll state rest
    (shown ++ shownRest, logged ++ loggedRest)

/-- A line without the carriage return in front of its line feed. -/
def dropCarriageReturn (line : String) : String :=
  if line.toList.getLast? = some '\r' then String.ofList line.toList.dropLast else line

/-- The lines of a text. The last one need not end in a line feed. -/
def splitLines (text : String) : List String :=
  let lines := pieces '\n' text
  lines.dropLast.map dropCarriageReturn ++ (lines.getLast?.toList.filter fun last => last ≠ "")

/-- What is shown and logged for the lines of an input, once their backspaces have done their
work. -/
def respondInput (state : State) (input : String) : String × String :=
  respondAll state ((splitLines input).map applyBackspaces)

/-- The whole session with a given input. -/
def run (args : List String) (input : String) : Report :=
  match start args with
  | .error report => report
  | .ok state =>
    let (shown, logged) := respondInput state input
    ⟨0, banner ++ shown ++ farewell, logged⟩

end LambdaArith.CommandLine.Interactive

/-!
# Reading command lines

A program says which switches it knows and whether it takes an argument besides them. A
switch has a long name and may have a short one; short ones can be bundled, and a value is
given behind an equals sign, in the next argument, or right behind a short name. What
follows `--` is no switch.

A switch with a value is only settled when the next switch or argument comes. So of two
faults in a command line, the one that is reported need not be the one that stands first.
-/

namespace LambdaArith.CommandLine

/-- What a switch takes and does. -/
inductive Kind where
  | flag
  | counter
  | text
  | path
  | help
  | version
deriving DecidableEq, Repr

/-- Whether a value has to be given. -/
def Kind.takesValue : Kind → Bool
  | text => true
  | path => true
  | _ => false

/-- A switch, or the argument besides the switches. -/
structure Switch where
  name : String
  short : Option Char
  kind : Kind
  about : String
deriving DecidableEq, Repr

/-- What a program accepts on its command line. -/
structure Grammar where
  switches : List Switch
  argument : Option Switch
deriving Repr

/-- Why a command line is not followed: it is refused, or it asks for something else than
what the program does. -/
inductive Interruption where
  | unknownArgument
  | argumentConflict
  | invalidValue
  | tooManyValues
  | missingArgument
  | help
  | version
deriving DecidableEq, Repr

/-- The settled switches in order, each with its value, and the one that may still get a
value. -/
structure Progress where
  settled : List (String × String)
  pending : Option (Switch × Option String)
  argumentTaken : Bool
deriving Repr

namespace Progress

/-- Nothing read yet. -/
def start : Progress := ⟨[], none, false⟩

/-- Whether a switch has been settled. -/
def has (progress : Progress) (name : String) : Bool :=
  progress.settled.any fun entry => entry.1 = name

/-- Settles a switch. Only a counter may come twice, and a path may not be empty. -/
def settle (progress : Progress) (switch : Switch) (value : Option String) :
    Except Interruption Progress :=
  let add (value : String) : Except Interruption Progress :=
    .ok { progress with settled := progress.settled ++ [(switch.name, value)] }
  match switch.kind, value with
  | .help, _ => .error .help
  | .version, _ => .error .version
  | .counter, _ => add ""
  | .flag, _ => if progress.has switch.name then .error .argumentConflict else add ""
  | .text, none => .error .invalidValue
  | .path, none => .error .invalidValue
  | .text, some value =>
    if progress.has switch.name then .error .argumentConflict else add value
  | .path, some value =>
    if progress.has switch.name then .error .argumentConflict
    else if value = "" then .error .invalidValue
    else add value

/-- Settles the switch that has been waiting. -/
def resolve (progress : Progress) : Except Interruption Progress :=
  match progress.pending with
  | none => .ok progress
  | some (switch, value) => { progress with pending := none }.settle switch value

/-- Settles the switch that has been waiting and then this one. -/
def react (progress : Progress) (switch : Switch) (value : Option String) :
    Except Interruption Progress := do
  (← progress.resolve).settle switch value

/-- Lets a switch wait for its value, or for being settled. -/
def await (progress : Progress) (switch : Switch) (value : Option String) :
    Except Interruption Progress := do
  return { ← progress.resolve with pending := some (switch, value) }

/-- Reads a bundle of short switches. One that takes a value takes the rest of the bundle, if
there is any. -/
def readShort (grammar : Grammar) (progress : Progress) :
    List Char → Except Interruption Progress
  | [] => .ok progress
  | c :: rest =>
    match grammar.switches.find? fun switch => switch.short = some c with
    | none => .error .unknownArgument
    | some switch =>
      if switch.kind.takesValue then
        match rest with
        | [] => progress.await switch none
        | '=' :: value => progress.react switch (some (String.ofList value))
        | value => progress.react switch (some (String.ofList value))
      else do
        let progress ← progress.react switch none
        readShort grammar progress rest

/-- Reads a long switch, given without its dashes. -/
def readLong (grammar : Grammar) (progress : Progress) (text : List Char) :
    Except Interruption Progress :=
  let name := String.ofList (text.takeWhile fun c => c ≠ '=')
  let value := match text.dropWhile fun c => c ≠ '=' with
    | [] => none
    | _ :: value => some (String.ofList value)
  match grammar.switches.find? fun switch => switch.name = name with
  | none => .error .unknownArgument
  | some switch =>
    if switch.kind.takesValue then
      match value with
      | none => progress.await switch none
      | some value => progress.react switch (some value)
    else
      match value with
      | none => progress.react switch none
      | some _ => .error .tooManyValues

/-- Takes the argument besides the switches, of which there may be only one. -/
def readArgument (grammar : Grammar) (progress : Progress) (text : String) :
    Except Interruption Progress :=
  match grammar.argument with
  | none => .error .unknownArgument
  | some argument =>
    if progress.argumentTaken then .error .unknownArgument
    else do
      return { ← progress.await argument (some text) with argumentTaken := true }

/-- Takes something that does not look like a switch: the value that a switch has been
waiting for, or else the argument. -/
def readPlain (grammar : Grammar) (progress : Progress) (text : String) :
    Except Interruption Progress :=
  match progress.pending with
  | some (switch, none) => .ok { progress with pending := some (switch, some text) }
  | _ => progress.readArgument grammar text

/-- Reads the arguments behind `--`, none of which is a switch. -/
def readTrailing (grammar : Grammar) (progress : Progress) :
    List String → Except Interruption Progress
  | [] => .ok progress
  | text :: rest => do
    let progress ← progress.readArgument grammar text
    readTrailing grammar progress rest

/-- Reads the arguments of a program. A single dash is no switch. -/
def readAll (grammar : Grammar) (progress : Progress) :
    List String → Except Interruption Progress
  | [] => .ok progress
  | text :: rest =>
    match text.toList with
    | ['-', '-'] => progress.readTrailing grammar rest
    | '-' :: '-' :: long => do
      let progress ← progress.readLong grammar long
      readAll grammar progress rest
    | '-' :: c :: short => do
      let progress ← progress.readShort grammar (c :: short)
      readAll grammar progress rest
    | _ => do
      let progress ← progress.readPlain grammar text
      readAll grammar progress rest

end Progress

/-- The switches of a command line that follows the grammar, each with its value. -/
def parse (grammar : Grammar) (args : List String) :
    Except Interruption (List (String × String)) := do
  let progress ← Progress.start.readAll grammar args
  let progress ← progress.resolve
  return progress.settled

/-- The value of a switch, if it has been given. -/
def value? (settled : List (String × String)) (name : String) : Option String :=
  (settled.find? fun entry => entry.1 = name).map Prod.snd

/-- How often a switch has been given. -/
def count (settled : List (String × String)) (name : String) : Nat :=
  settled.countP fun entry => entry.1 = name

end LambdaArith.CommandLine

import LambdaArith.CommandLine.Options
import LambdaArith.Event
import LambdaArith.Target

/-!
# Settings of the programs

The switches that all programs share, what they mean, and how the switches of a program are
explained to who asks for help.
-/

namespace LambdaArith

/-- The machine that is compiled for when no other is named. -/
def Target.host : Target :=
  ⟨"x86_64-unknown-linux-gnu", Target.genericCpu, ""⟩

namespace CommandLine

/-- The switches that choose a target. -/
def targetSwitches : List Switch :=
  [ ⟨"target", none, .text, "Target triple, e.g. `x86_64-unknown-linux-gnu` [default: the host]"⟩,
    ⟨"cpu", none, .text, "CPU model [default: generic]"⟩,
    ⟨"features", none, .text, "Target features, e.g. `+avx2,+fma` [default: ]"⟩ ]

/-- The switches that choose how much is logged. -/
def verbositySwitches : List Switch :=
  [ ⟨"verbose", some 'v', .counter, "Log more (`-v` info, `-vv` debug, `-vvv` trace)"⟩,
    ⟨"quiet", some 'q', .flag, "Only log errors"⟩ ]

/-- The switch that asks for an explanation of the others. -/
def helpSwitch : Switch := ⟨"help", some 'h', .help, "Print help"⟩

/-- The switch that asks for the version. -/
def versionSwitch : Switch := ⟨"version", some 'V', .version, "Print version"⟩

/-- A command line of nothing but the shared switches. -/
def sharedGrammar : Grammar :=
  ⟨targetSwitches ++ verbositySwitches ++ [helpSwitch], none⟩

/-- A target as it is asked for on a command line. -/
structure TargetRequest where
  triple : Option String
  cpu : String
  features : String
deriving DecidableEq, Repr

/-- The target that is asked for. -/
def TargetRequest.resolve (request : TargetRequest) : Except BackendError Target := do
  let target ← match request.triple with
    | some triple => Target.ofTriple triple
    | none => .ok Target.host
  return { target with cpu := request.cpu, features := request.features }

/-- What the shared switches come to. -/
structure Settings where
  target : TargetRequest
  level : Level
deriving DecidableEq, Repr

/-- The level of the log: warnings, or more with each `-v`, or errors alone. -/
def logLevel (quiet : Bool) (verbose : Nat) : Level :=
  if quiet then .error
  else match verbose with
    | 0 => .warn
    | 1 => .info
    | 2 => .debug
    | _ => .trace

/-- The meaning of the shared switches in a command line. Being quiet excludes being
verbose. -/
def Settings.ofSettled (settled : List (String × String)) : Except Interruption Settings :=
  let quiet := (value? settled "quiet").isSome
  let verbose := count settled "verbose"
  if quiet && 0 < verbose then .error .argumentConflict
  else .ok
    { target :=
        { triple := value? settled "target"
          cpu := (value? settled "cpu").getD Target.genericCpu
          features := (value? settled "features").getD "" }
      level := logLevel quiet verbose }

/-- The settings of a command line that holds only shared switches. -/
def Settings.parse (args : List String) : Except Interruption Settings := do
  Settings.ofSettled (← CommandLine.parse sharedGrammar args)

/-- How a switch is written, in the list of the switches of a program. -/
def Switch.usage (switch : Switch) : String :=
  let short := match switch.short with
    | none => "      --"
    | some c => "  -" ++ String.ofList [c] ++ ", --"
  let value := if switch.kind.takesValue then " <" ++ switch.name.toUpper ++ ">" else ""
  short ++ switch.name ++ value ++ (if switch.kind = .counter then "..." else "")

/-- The explanation of a program. -/
def Grammar.explain (grammar : Grammar) (program about : String) : String :=
  let width := (grammar.switches.map fun switch => switch.usage.length).foldl max 0
  let switchLines := grammar.switches.map fun switch =>
    switch.usage ++ String.ofList (List.replicate (width + 2 - switch.usage.length) ' ') ++
      switch.about
  let (argument, argumentLines) := match grammar.argument with
    | none => ("", [])
    | some argument =>
      (" <" ++ argument.name ++ ">",
        ["Arguments:", "  <" ++ argument.name ++ ">  " ++ argument.about, ""])
  let lines := [about, "", "Usage: " ++ program ++ " [OPTIONS]" ++ argument, ""] ++
    argumentLines ++ "Options:" :: switchLines
  String.join (lines.map fun line => line ++ "\n")

end CommandLine

end LambdaArith

import LambdaArith.CommandLine.Interactive

/-!
# The command line

The first argument names the program, the others are its own: `nsc` compiles a file, `nsci`
holds a session. Without a name the file compiler is meant.
-/

namespace LambdaArith.CommandLine.Console

/-- Why a file operation of the system has failed. Some operations give the number of the
error with its sign changed. -/
def fileError : IO.Error → FileError
  | .noFileOrDirectory .. => .notFound
  | .noSuchThing .. => .notFound
  | .inappropriateType _ number reason =>
    if number = 20 || 0 - number = 20 then .notDirectory
    else if number = 21 || 0 - number = 21 then .isDirectory
    else .other reason
  | error => .other (toString error)

/-- The files of the system. -/
def files : Files IO where
  read path := do
    try
      return .ok (← IO.FS.readBinFile path)
    catch error => return .error (fileError error)
  write path text := do
    try
      IO.FS.writeFile path text
      return .ok ()
    catch error => return .error (fileError error)

/-- Writes what a program has to say, and gives its exit code. -/
def finish (report : Report) : IO UInt32 := do
  IO.print report.out
  IO.eprint report.err
  return UInt32.ofNat report.code

/-- Answers the lines of the standard input as they come. -/
partial def converse (input : IO.FS.Stream) (state : Interactive.State) : IO Unit := do
  let text ← input.getLine
  if text.isEmpty then return
  let line := if text.endsWith "\n" then
      Interactive.dropCarriageReturn (text.dropEnd 1).toString
    else text
  let (state, shown, logged) := Interactive.respond state (applyBackspaces line)
  IO.eprint logged
  IO.print shown
  (← IO.getStdout).flush
  converse input state

/-- Holds a session on the standard input. -/
def interact (args : List String) : IO UInt32 := do
  match Interactive.start args with
  | .error report => finish report
  | .ok state =>
    IO.print Interactive.banner
    converse (← IO.getStdin) state
    IO.print Interactive.farewell
    return 0

end LambdaArith.CommandLine.Console

open LambdaArith.CommandLine

/-- Runs the program that the arguments name. -/
def main (args : List String) : IO UInt32 := do
  match args with
  | "nsci" :: rest => Console.interact rest
  | "nsc" :: rest => Console.finish (← Batch.run Console.files rest)
  | rest => Console.finish (← Batch.run Console.files rest)

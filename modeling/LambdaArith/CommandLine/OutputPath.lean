import LambdaArith.Text.Pieces

/-!
# Names of output files

Where no output is named, a module is written to a file in the current directory that is
called like the input, with another extension.
-/

namespace LambdaArith.CommandLine

/-- The last part of a path, unless it leads to a directory above. Empty parts and single
dots do not count. -/
def fileName? (path : String) : Option String :=
  match ((pieces '/' path).filter fun part => part ≠ "" && part ≠ ".").getLast? with
  | none => none
  | some name => if name = ".." then none else some name

/-- A name up to its last dot. A dot at the very front belongs to the name. -/
def stem (name : String) : String :=
  let reversed := name.toList.reverse
  let front := (reversed.dropWhile fun c => c ≠ '.').drop 1
  if front = [] then name else String.ofList front.reverse

/-- A name up to its last dot, and with it. A dot at the very front does not count. -/
def upToDot (name : String) : String :=
  if stem name = name then name else stem name ++ "."

/-- A name with its extension replaced, or with one added. The old extension is taken off
first: if what is left is no name of a file, it stays as it is. -/
def withExtension (name extension : String) : String :=
  let bare := upToDot name
  match fileName? bare with
  | none => bare
  | some last => stem last ++ "." ++ extension

/-- The path to write to: the one that is named, or one made from that of the input. -/
def outputPath (input : String) (output : Option String) : String :=
  output.getD (withExtension (((fileName? input).map stem).getD "out") "ll")

end LambdaArith.CommandLine

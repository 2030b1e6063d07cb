import LambdaArith.Text.Cluster
import LambdaArith.Token

/-!
# Backspaces in a line

A line that comes from elsewhere than a keyboard may hold backspaces. Each of them takes back
the last cluster that is still there.
-/

namespace LambdaArith.CommandLine

/-- What has been typed and not taken back: the characters, and the size of each cluster, both
with the latest first. -/
structure Typed where
  characters : List Char
  sizes : List Nat
deriving DecidableEq, Repr

namespace Typed

/-- Nothing typed yet. -/
def start : Typed := ⟨[], []⟩

/-- The size of a cluster in bytes, as far as eight bits hold it. -/
def storedSize (cluster : List Char) : Nat :=
  byteLength cluster % 256

/-- Drops as many characters from the front as it takes to drop this many bytes. -/
def dropBytes (bytes : Nat) : List Char → List Char
  | [] => []
  | c :: rest => if bytes = 0 then c :: rest else dropBytes (bytes - c.utf8Size) rest

/-- Takes back as many bytes as the size of the last cluster says. -/
def takeBack (typed : Typed) : Typed :=
  match typed.sizes with
  | [] => typed
  | size :: sizes => ⟨dropBytes size typed.characters, sizes⟩

/-- Types one more cluster. -/
def type (typed : Typed) (cluster : List Char) : Typed :=
  if cluster = ['\x08'] then typed.takeBack
  else ⟨cluster.reverse ++ typed.characters, storedSize cluster :: typed.sizes⟩

end Typed

/-- What is left of a line when its backspaces have done their work. -/
def applyBackspaces (line : String) : String :=
  String.ofList ((clusters line.toList).foldl Typed.type Typed.start).characters.reverse

end LambdaArith.CommandLine

import LambdaArith.Backend
import LambdaArith.Text.Pieces

/-!
# Targets

What a module is compiled for: a triple of architecture, vendor and system, possibly with an
environment behind them, a processor and its features. Only the architecture is checked
against a list.
-/

namespace LambdaArith

/-- The machine that a module is compiled for. -/
structure Target where
  triple : String
  cpu : String
  features : String
deriving DecidableEq, Repr

namespace Target

/-- The architectures that a triple may start with. -/
def architectures : List String :=
  ["x86_64", "i386", "i586", "i686", "aarch64", "arm", "armv7", "thumbv7em", "riscv32",
    "riscv64", "wasm32", "wasm64", "powerpc64", "powerpc64le", "s390x", "mips", "mips64"]

/-- The processor that is meant when none is named. -/
def genericCpu : String := "generic"

/-- Three or four parts, none of them empty, with a known architecture in front. -/
def wellFormed (parts : List String) : Bool :=
  (parts.length = 3 || parts.length = 4) && parts.all (fun part => part ≠ "") &&
    architectures.contains (parts.headD "")

/-- A target with a triple of the right form. -/
def make (triple cpu features : String) : Except BackendError Target :=
  if wellFormed (pieces '-' triple) then .ok ⟨triple, cpu, features⟩
  else .error (.unknownTarget triple)

/-- The target that a triple alone stands for. -/
def ofTriple (triple : String) : Except BackendError Target :=
  make triple genericCpu ""

/-- A target on one line. -/
def text (target : Target) : String :=
  target.triple ++ " (cpu: " ++ target.cpu ++
    (if target.features = "" then "" else ", features: " ++ target.features) ++ ")"

end Target

end LambdaArith

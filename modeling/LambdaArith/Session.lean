import LambdaArith.Lowering

/-!
# Sessions

A module outlives the inputs that are compiled into it one after another. Each input takes
effect as a whole or not at all.
-/

namespace LambdaArith

/-- What has become of an input: its values or an error, the module after it, and what has
happened. -/
structure Outcome (ε : Type) where
  result : Except ε (List Value)
  module : Module
  events : List Event

namespace Module

/-- Lowers a program into a module. If that fails, the module is taken back to where it was
before. -/
def lowerAll (m : Module) (exprs : List Expr) : Outcome LoweringError :=
  match Expr.lowerEach exprs (Builder.ofModule m) with
  | (.ok values, builder) => ⟨.ok values, builder.module, builder.events⟩
  | (.error error, builder) =>
    ⟨.error error, builder.module.rollback m.checkpoint,
      builder.events ++ [.rollingBack error]⟩

/-- The events of scanning a source: its tokens up to the first error. -/
def scanEvents (source : String) : List Event :=
  (Token.scanAll source.toList 0).1.map .scannedToken

/-- Compiles a source into a module. -/
def compile (m : Module) (source : String) : Outcome Error :=
  let scanned := scanEvents source
  match Token.ofSource source with
  | .error error => ⟨.error (.lex error), m, scanned⟩
  | .ok tokens =>
    let parsed := (Form.ofTokens tokens).1.map Event.parsedForm
    match parseProgram tokens with
    | .error error => ⟨.error (.parse error), m, scanned ++ parsed⟩
    | .ok exprs =>
      let outcome := m.lowerAll exprs
      ⟨outcome.result.mapError .lowering, outcome.module,
        scanned ++ parsed ++ outcome.events⟩

end Module

end LambdaArith

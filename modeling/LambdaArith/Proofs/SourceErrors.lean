import LambdaArith.Proofs.LoweringErrors
import LambdaArith.Proofs.ParseErrors
import LambdaArith.Proofs.Request

/-!
# What a source is refused for

A source fails when it is split, when it is parsed or when it is lowered, and each of these stages
relies on what the one before it has checked. So some errors are never seen by whoever compiles
sources: they can only be brought about by tokens or expressions that no source is read as, and by
operations on the module that lowering does not ask for.
-/

namespace LambdaArith

/-- The error is what reading a source comes to, or what lowering one of its expressions can fail
for. -/
inductive Error.Arises (source : String) : Error → Prop
  | lex {error : LexError} : Token.ofSource source = .error error → Arises source (.lex error)
  | parse {tokens : List Token} {error : ParseError} : Token.ofSource source = .ok tokens →
      parseProgram tokens = .error error → Arises source (.parse error)
  | lowering {exprs : List Expr} {e : Expr} {error : LoweringError} :
      parseSource source = .ok exprs → e ∈ exprs → e.Blames error →
      Arises source (.lowering error)

/-- A source is not read because of its characters or because of its tokens. -/
theorem Error.arises_of_parseSource {source : String} {error : Error}
    (h : parseSource source = .error error) : error.Arises source := by
  unfold parseSource at h
  split at h
  · rename_i found hlex
    cases h
    exact .lex hlex
  · rename_i tokens htokens
    split at h
    · rename_i found hparse
      cases h
      exact .parse htokens hparse
    · cases h

namespace Module

variable {m : Module} {source : String} {error : Error}

/-- What lowering a program fails for is about one of its expressions. -/
theorem Consistent.blames_of_lowerAll (hm : m.Consistent) {exprs : List Expr}
    {found : LoweringError} (h : (m.lowerAll exprs).result = .error found) :
    ∃ e ∈ exprs, e.Blames found := by
  unfold Module.lowerAll at h
  split at h
  · cases h
  · rename_i found' b heq
    cases h
    exact Expr.blames_of_lowerEach (b := Builder.ofModule m) hm rfl heq

/-- An error of a source is about the source. -/
theorem Consistent.arises_of_compile (hm : m.Consistent)
    (h : (m.compile source).result = .error error) : error.Arises source := by
  rcases m.compile_cases source with ⟨error', hresult, _, hparse⟩ | ⟨exprs, hparse, hresult, _⟩
  · rw [hresult, Except.error.injEq] at h
    exact h ▸ Error.arises_of_parseSource hparse
  · rw [hresult] at h
    cases hlower : (m.lowerAll exprs).result with
    | ok values =>
      rw [hlower] at h
      cases h
    | error found =>
      rw [hlower] at h
      cases h
      obtain ⟨e, he, hblames⟩ := hm.blames_of_lowerAll hlower
      exact .lowering hparse he hblames

end Module

/-- The parser meets a token that the scanner would not have made. -/
def ParseError.Internal : ParseError → Prop
  | unsupportedForm _ => True
  | invalidNumber lexeme _ => lexeme ≠ "."
  | _ => False

/-- The backend is asked for what lowering does not ask it for. -/
def BackendError.Internal : BackendError → Prop
  | noInsertionPoint instruction => instruction = "ret"
  | unknownTarget _ => True
  | unnameable => True
  | blockTerminated => True
  | dangling _ => True
  | _ => False

/-- An error that a stage keeps in store for what the stage before it does not give it. -/
def Error.Internal : Error → Prop
  | lex _ => False
  | parse error => error.Internal
  | lowering (.unresolvedIdentifier _) => False
  | lowering (.repeatedParameter _) => True
  | lowering (.backend error) => error.Internal

/-- What lowering an expression fails for is internal only if a parameter is repeated. -/
theorem Expr.Blames.not_internal {e : Expr} {error : LoweringError} (h : e.Blames error)
    (hdistinct : e.ParametersDistinct) : ¬ (Error.lowering error).Internal := by
  cases error with
  | unresolvedIdentifier => exact id
  | repeatedParameter => exact absurd hdistinct h
  | backend error =>
    cases error with
    | noInsertionPoint instruction =>
      obtain ⟨op, rfl⟩ := h
      have hne : op.resultName ≠ "ret" := by cases op <;> decide
      exact hne
    | duplicateSymbol | nonConstantInitializer | notANumber => exact id
    | unknownTarget | unnameable | blockTerminated | dangling => exact h.elim

/-- No error of a source is internal. -/
theorem Error.Arises.not_internal {source : String} {error : Error} (h : error.Arises source) :
    ¬ error.Internal := by
  cases h with
  | lex => exact id
  | @parse tokens error htokens hparse =>
    obtain ⟨hform, hnumber⟩ := (parseProgram_concerns hparse).of_source htokens
    cases error with
    | unsupportedForm offset => exact absurd rfl (hform offset)
    | invalidNumber lexeme offset => exact fun hne => hne (hnumber lexeme offset rfl)
    | _ => exact id
  | lowering hparse he hblames =>
    exact hblames.not_internal (Expr.writable_of_parseSource hparse he).parametersDistinct

namespace Module

/-- Whatever has been asked of a module, by operations and by sessions over it, no source is refused
with an internal error. -/
theorem compile_never_internal (name : String) (requests : List Request) {source : String}
    {error : Error} (h : ((ofRequests name requests).compile source).result = .error error) :
    ¬ error.Internal :=
  have hm : (ofRequests name requests).Consistent :=
    consistent_invariant.ofRequests consistent_empty name requests
  (hm.arises_of_compile h).not_internal

/-- A name that an earlier source of the session has given to a function cannot be given to a global,
and the backend says so. -/
theorem compile_never_internal_name_taken :
    let requests : List Request := [.operation (.addGlobal "g" (.constant 1)),
      .call (.compile "define f lambda (x) x"), .operation (.rollback ⟨1, 1⟩)]
    ((ofRequests "m" requests).compile "define f 2").result =
        .error (.lowering (.backend (.duplicateSymbol "f"))) ∧
      ¬ (Error.lowering (.backend (.duplicateSymbol "f"))).Internal := by
  intro requests
  have hfails : ((ofRequests "m" requests).compile "define f 2").result =
      .error (.lowering (.backend (.duplicateSymbol "f"))) := by
    decide +kernel
  exact ⟨hfails, compile_never_internal "m" requests hfails⟩

end Module

end LambdaArith

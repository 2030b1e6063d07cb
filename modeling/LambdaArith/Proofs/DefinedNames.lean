import LambdaArith.Proofs.Placed
import LambdaArith.Proofs.Shape

/-!
# Names that an expression defines

Lowering an expression gives and releases names. All of them are names that it defines, at the top
or anywhere inside, so every other name goes on standing for what it has stood for before.
-/

namespace LambdaArith

namespace Expr

/-- The names that are defined anywhere in an expression. -/
def definedNames : Expr → List String
  | number _ => []
  | binary _ lhs rhs => lhs.definedNames ++ rhs.definedNames
  | define name value => name :: value.definedNames
  | lambda _ body => body.definedNames
  | identifier _ => []

/-- Neither of two expressions has a name in it that the other defines. -/
structure Independent (e₁ e₂ : Expr) : Prop where
  left_defines : ∀ name ∈ e₁.definedNames, name ∉ e₂.names
  right_defines : ∀ name ∈ e₂.definedNames, name ∉ e₁.names

/-- Independence goes both ways. -/
theorem Independent.symm {e₁ e₂ : Expr} (h : e₁.Independent e₂) : e₂.Independent e₁ :=
  ⟨h.right_defines, h.left_defines⟩

/-- What is lowered for an expression of a program has the same names in it. -/
theorem names_topLevel (e : Expr) : e.topLevel.names = e.names := by
  unfold topLevel
  split <;> rfl

/-- What is lowered for an expression of a program defines the same names. -/
theorem definedNames_topLevel (e : Expr) : e.topLevel.definedNames = e.definedNames := by
  unfold topLevel
  split <;> rfl

/-- What is lowered for independent expressions of a program is independent. -/
theorem Independent.topLevel {e₁ e₂ : Expr} (h : e₁.Independent e₂) :
    e₁.topLevel.Independent e₂.topLevel := by
  refine ⟨?_, ?_⟩
  · rw [definedNames_topLevel, names_topLevel]
    exact h.left_defines
  · rw [definedNames_topLevel, names_topLevel]
    exact h.right_defines

end Expr

namespace Module

variable {m after : Module} {name other : String}

/-- Renaming a symbol changes what its two names stand for, and no more. -/
theorem lookup?_rename_of_ne {symbol : Symbol} (hname : other ≠ name)
    (hprevious : m.valueName? symbol.value ≠ some other) :
    (m.rename symbol name).lookup? other = m.lookup? other := by
  refine Option.ext fun owner => ?_
  rw [lookup?_rename_eq_some_iff]
  constructor
  · rintro (⟨heq, _⟩ | ⟨hold, _, _⟩)
    · exact absurd heq hname
    · exact hold
  · exact fun hold => .inr ⟨hold, hprevious, hname⟩

/-- Adding a global changes what its name stands for, and no more. -/
theorem lookup?_addGlobal_of_ne {initializer value : Value} (hname : other ≠ name)
    (h : m.addGlobal name initializer = .ok (value, after)) :
    after.lookup? other = m.lookup? other := by
  obtain ⟨_, _, _, _, rfl⟩ := addGlobal_eq_ok h
  refine Option.ext fun owner => ?_
  rw [lookup?, SymbolTable.find?_insert_eq_some_iff]
  constructor
  · rintro (⟨heq, _⟩ | ⟨hold, _⟩)
    · exact absurd heq hname
    · exact hold
  · exact fun hold => .inr ⟨hold, hname⟩

end Module

/-- A name that an expression does not define stands for the same before and after. -/
theorem Lowers.lookup?_eq {b after : Builder} {e : Expr} {value : Value}
    (h : Lowers b e value after) (hm : b.module.Consistent) {other : String}
    (hother : other ∉ e.definedNames) : after.module.lookup? other = b.module.lookup? other := by
  induction h with
  | number => rfl
  | fold op hl _ ihl ihr =>
    rw [Expr.definedNames, List.mem_append, not_or] at hother
    rw [ihr (hl.consistent hm) hother.2, ihl hm hother.1]
  | emit op hl _ _ _ _ _ happend ihl ihr =>
    rw [Expr.definedNames, List.mem_append, not_or] at hother
    obtain ⟨_, _, _, _, _, _, rfl⟩ := Module.append_eq_ok happend
    exact (ihr (hl.consistent hm) hother.2).trans (ihl hm hother.1)
  | @named b b₁ e value m name he hfunction hname ih =>
    rw [Expr.definedNames, List.mem_cons, not_or] at hother
    have hinner := ih hm hother.2
    obtain ⟨symbol, rfl, _, ⟨_, rfl⟩ | ⟨_, rfl⟩⟩ := Module.setName_eq_ok hname
    · exact hinner
    · -- A name that is released has been given inside, as the function that had it is new.
      have hprevious : b₁.module.valueName? symbol.value ≠ some other := by
        intro hhas
        have hfound := (he.consistent hm).lookup?_eq_some hhas
        rw [hinner] at hfound
        have hcovers := hm.covers_of_lookup? hfound
        cases symbol with
        | global id => cases hfunction
        | function id =>
          have hnew := (he.framed (Builder.framed_self hm)).2 id rfl
          rw [Module.not_covers_function hnew] at hcovers
          cases hcovers
      exact (Module.lookup?_rename_of_ne hother.1 hprevious).trans hinner
  | defined he _ hadd ih =>
    rw [Expr.definedNames, List.mem_cons, not_or] at hother
    exact (Module.lookup?_addGlobal_of_ne hother.1 hadd).trans (ih hm hother.2)
  | @lambda b _ parameters _ _ _ _ _ _ hbody _ _ happend ih =>
    obtain ⟨_, _, _, _, _, _, rfl⟩ := Module.append_eq_ok happend
    exact ih (Builder.consistent_enter hm parameters) hother
  | identifier => rfl

end LambdaArith

import LambdaArith.Proofs.Derivation
import LambdaArith.Proofs.FreeNames
import LambdaArith.Proofs.Reprint
import LambdaArith.Proofs.Runs
import LambdaArith.Proofs.Sessions

/-!
# Plain names

The names in a source are letters and digits with a letter in front. So are those that a function
gives instead when they are taken, and those of results. A module that is made from sources has no
other names, and in its functions exactly the computations have one.
-/

namespace LambdaArith

/-- Numbers are written in digits. -/
theorem isDigit_of_mem_toString {n : Nat} {c : Char} (h : c ∈ (toString n).toList) :
    c.isDigit = true := by
  have hdigits : (toString n).toList = Nat.toDigits 10 n := Nat.toList_repr
  rw [hdigits] at h
  exact Nat.isDigit_of_mem_toDigits (by decide) (by decide) h

/-- A name of letters and digits, with a letter in front. -/
def IsPlain (name : String) : Prop :=
  ∃ c rest, name.toList = c :: rest ∧ c.isAlpha = true ∧ ∀ d ∈ rest, d.isAlphanum = true

namespace IsPlain

variable {name other : String} {rest behind : List Char}

/-- There are only letters and digits in a plain name. -/
theorem isAlphanum (h : IsPlain name) : ∀ c ∈ name.toList, c.isAlphanum = true := by
  obtain ⟨first, tail, htext, hfirst, htail⟩ := h
  intro c hc
  rw [htext] at hc
  rcases List.mem_cons.mp hc with rfl | hc
  · simp [Char.isAlphanum, hfirst]
  · exact htail c hc

/-- Plain names are told from what is behind them, if that cannot be a part of them. -/
theorem append_inj (h : IsPlain name) (hother : IsPlain other)
    (hrest : ∀ c ∈ rest.head?, c.isAlphanum = false)
    (hbehind : ∀ c ∈ behind.head?, c.isAlphanum = false)
    (heq : name.toList ++ rest = other.toList ++ behind) : name = other ∧ rest = behind := by
  obtain ⟨hname, hrest⟩ := append_inj_of_stop h.isAlphanum hother.isAlphanum hrest hbehind heq
  exact ⟨String.toList_inj.mp hname, hrest⟩

/-- The names in a source are plain. -/
theorem of_isName (h : Token.IsName name) : IsPlain name :=
  h.letters

/-- What is given instead of a plain name is plain, as only digits are added. -/
theorem candidate (h : IsPlain name) (n : Nat) : IsPlain (LocalName.candidate name n) := by
  cases n with
  | zero => exact h
  | succ n =>
    obtain ⟨c, tail, htext, hc, htail⟩ := h
    refine ⟨c, tail ++ (toString (n + 1)).toList, ?_, hc, fun d hd => ?_⟩
    · rw [LocalName.candidate, String.toList_append, htext, List.cons_append]
    · rcases List.mem_append.mp hd with hd | hd
      · exact htail d hd
      · simp [Char.isAlphanum, isDigit_of_mem_toString hd]

/-- Who asks for a plain name gets one. -/
theorem firstFree (h : IsPlain name) (taken : List String) :
    IsPlain (LocalName.firstFree taken name) := by
  obtain ⟨n, hname, _⟩ := LocalName.exists_firstFree_eq_candidate taken name
  rw [hname]
  exact h.candidate n

/-- Who ask for plain names in turn get such. -/
theorem reserveAll {names taken : List String} (h : ∀ name ∈ names, IsPlain name) :
    ∀ given ∈ (LocalName.reserveAll taken names).1, IsPlain given := by
  induction names generalizing taken with
  | nil => simp [LocalName.reserveAll]
  | cons first names ih =>
    intro given hgiven
    rcases List.mem_cons.mp hgiven with rfl | hgiven
    · exact (h first List.mem_cons_self).firstFree taken
    · exact ih (fun name hname => h name (List.mem_cons_of_mem _ hname)) given hgiven

/-- The names that results ask for are plain. -/
theorem resultName (op : Operator) : IsPlain op.resultName := by
  cases op
  · exact ⟨'a', ['d', 'd', 'O', 'p'], rfl, rfl, List.all_eq_true.mp rfl⟩
  · exact ⟨'s', ['u', 'b', 'O', 'p'], rfl, rfl, List.all_eq_true.mp rfl⟩
  · exact ⟨'m', ['u', 'l', 'O', 'p'], rfl, rfl, List.all_eq_true.mp rfl⟩
  · exact ⟨'d', ['i', 'v', 'O', 'p'], rfl, rfl, List.all_eq_true.mp rfl⟩

end IsPlain

/-- An instruction that is written with a plain name exactly if it computes something. -/
inductive Instruction.Plain : Instruction → Prop
  | compute {name : String} (op : Operator) (lhs rhs : Value) :
      IsPlain name → Plain ⟨some name, .compute op lhs rhs⟩
  | ret (value : Value) : Plain ⟨none, .ret value⟩

/-- All names in the function are plain, and the computations in it have one. -/
structure Func.Plain (f : Func) : Prop where
  name : ∀ name ∈ f.name, IsPlain name
  parameters : ∀ name ∈ f.parameters, IsPlain name
  instructions : ∀ instruction ∈ f.instructions, instruction.Plain

namespace Func.Plain

variable {f : Func}

/-- The parameters of a new function have plain names if such are asked for. -/
theorem declare {names : List String} (h : ∀ name ∈ names, IsPlain name) :
    ((Func.declare names).appendBlock "entry").Plain where
  name := by simp [Func.declare, Func.appendBlock]
  parameters := IsPlain.reserveAll h
  instructions := by simp [Func.declare, Func.appendBlock]

/-- A function can be given a plain name. -/
theorem named (h : f.Plain) {given : String} (hgiven : IsPlain given) :
    Plain { f with name := some given } where
  name := by
    rintro name ⟨⟩
    exact hgiven
  parameters := h.parameters
  instructions := h.instructions

/-- A function with one more instruction is plain if that instruction is. -/
theorem of_added (h : f.Plain) {g : Func} {added : Instruction} (hname : g.name = f.name)
    (hparameters : g.parameters = f.parameters)
    (hinstructions : g.instructions = f.instructions ++ [added]) (hadded : added.Plain) :
    g.Plain where
  name := hname ▸ h.name
  parameters := hparameters ▸ h.parameters
  instructions := by
    intro instruction hinstruction
    rw [hinstructions, List.mem_append, List.mem_singleton] at hinstruction
    rcases hinstruction with hold | rfl
    · exact h.instructions instruction hold
    · exact hadded

/-- A computation gets a plain name. -/
theorem compute (h : f.Plain) (place : Nat) (op : Operator) (lhs rhs : Value) :
    (f.append place (some op.resultName) (.compute op lhs rhs)).Plain :=
  h.of_added rfl rfl rfl (.compute op lhs rhs ((IsPlain.resultName op).firstFree f.localNames))

/-- A return has no name. -/
theorem ret (h : f.Plain) (place : Nat) (value : Value) :
    (f.append place none (.ret value)).Plain :=
  h.of_added rfl rfl rfl (.ret value)

end Func.Plain

namespace Module

/-- All names in the module are plain. -/
structure Plain (m : Module) : Prop where
  globals : ∀ g ∈ m.globals, IsPlain g.name
  functions : ∀ f ∈ m.functions, f.Plain

namespace Plain

variable {m after : Module}

/-- There are no names in an empty module. -/
theorem empty (name : String) : (Module.empty name).Plain where
  globals := by simp [Module.empty]
  functions := by simp [Module.empty]

/-- A module with the same globals and functions has the same names. -/
theorem of_same (h : m.Plain) (hglobals : after.globals = m.globals)
    (hfunctions : after.functions = m.functions) : after.Plain where
  globals := hglobals ▸ h.globals
  functions := hfunctions ▸ h.functions

/-- The names of a module stay plain when one of its functions is replaced by a plain one. -/
theorem set (h : m.Plain) (id : Nat) {f : Func} (hf : f.Plain) :
    Plain { m with functions := m.functions.set id f } where
  globals := h.globals
  functions := by
    intro g hg
    rcases List.mem_or_eq_of_mem_set hg with hold | rfl
    · exact h.functions g hold
    · exact hf

/-- A function with plain parameters can be begun. -/
theorem openFunction (h : m.Plain) {parameters : List String}
    (hparameters : ∀ name ∈ parameters, IsPlain name) : (m.openFunction parameters).Plain where
  globals := h.globals
  functions := by
    intro f hf
    rcases List.mem_append.mp hf with hold | hnew
    · exact h.functions f hold
    · rw [List.mem_singleton.mp hnew]
      exact Func.Plain.declare hparameters

/-- A global with a plain name can be added. -/
theorem addGlobal (h : m.Plain) {name : String} (hname : IsPlain name) {initializer value : Value}
    (hadd : m.addGlobal name initializer = .ok (value, after)) : after.Plain := by
  obtain ⟨x, _, _, _, rfl⟩ := Module.addGlobal_eq_ok hadd
  refine ⟨fun g hg => ?_, h.functions⟩
  rcases List.mem_append.mp hg with hold | hnew
  · exact h.globals g hold
  · rw [List.mem_singleton.mp hnew]
    exact hname

/-- A function can be given a plain name. -/
theorem setName (h : m.Plain) {name : String} (hname : IsPlain name) {value : Value}
    (hfunction : m.isFunction value = true) (hset : m.setName value name = .ok after) :
    after.Plain := by
  obtain ⟨symbol, rfl, _, ⟨_, rfl⟩ | ⟨_, rfl⟩⟩ := Module.setName_eq_ok hset
  · exact h
  · cases symbol with
    | global id => cases hfunction
    | function id =>
      refine ⟨h.globals, fun f hf => ?_⟩
      obtain ⟨place, hplace⟩ := List.mem_iff_getElem?.mp hf
      have hfunctions : (m.rename (.function id) name).functions =
          m.functions.modify id fun g => { g with name := some name } := rfl
      rw [hfunctions, List.getElem?_modify] at hplace
      obtain ⟨g, hg, hchanged⟩ := Option.map_eq_some_iff.mp hplace
      have hold := h.functions g (List.mem_of_getElem? hg)
      split at hchanged
      · rw [← hchanged]
        exact hold.named hname
      · rw [← hchanged]
        exact hold

end Plain

end Module

/-- Lowering an expression with plain names makes no other names. -/
theorem Lowers.plain {b after : Builder} {e : Expr} {value : Value} (h : Lowers b e value after)
    (hnames : ∀ name ∈ e.names, IsPlain name) (hb : b.module.Plain) : after.module.Plain := by
  induction h with
  | number => exact hb
  | fold op _ _ ihl ihr =>
    rw [Expr.names, List.forall_mem_append] at hnames
    exact ihr hnames.2 (ihl hnames.1 hb)
  | emit op _ _ _ _ _ _ happend ihl ihr =>
    rw [Expr.names, List.forall_mem_append] at hnames
    have hlowered := ihr hnames.2 (ihl hnames.1 hb)
    obtain ⟨f, _, hf, _, _, _, rfl⟩ := Module.append_eq_ok happend
    exact hlowered.set _ ((hlowered.functions f (List.mem_of_getElem? hf)).compute _ op _ _)
  | named _ hfunction hname ih =>
    rw [Expr.names, List.forall_mem_cons] at hnames
    exact (ih hnames.2 hb).setName hnames.1 hfunction hname
  | defined _ _ hadd ih =>
    rw [Expr.names, List.forall_mem_cons] at hnames
    exact (ih hnames.2 hb).addGlobal hnames.1 hadd
  | lambda _ _ _ _ happend ih =>
    rw [Expr.names, List.forall_mem_append] at hnames
    have hlowered := ih hnames.2 (hb.openFunction hnames.1)
    obtain ⟨f, _, hf, _, _, _, rfl⟩ := Module.append_eq_ok happend
    exact hlowered.set _ ((hlowered.functions f (List.mem_of_getElem? hf)).ret _ _)
  | identifier => exact hb

/-- Lowering a program with plain names makes no other names. -/
theorem Expr.lowerEach_plain {exprs : List Expr} {b after : Builder} {values : List Value}
    (h : lowerEach exprs b = (.ok values, after))
    (hnames : ∀ e ∈ exprs, ∀ name ∈ e.names, IsPlain name) (hb : b.module.Plain) :
    after.module.Plain := by
  induction exprs generalizing b values with
  | nil =>
    cases h
    exact hb
  | cons e rest ih =>
    obtain ⟨value, b₁, hfirst, h⟩ := Build.bind_eq_ok.mp h
    obtain ⟨others, b₂, hrest, hpure⟩ := Build.bind_eq_ok.mp h
    cases hpure
    have htop : ∀ name ∈ e.topLevel.names, IsPlain name := by
      unfold topLevel
      split
      · exact hnames e List.mem_cons_self
      · exact hnames e List.mem_cons_self
    rw [lowerTopLevel_eq] at hfirst
    refine ih hrest (fun e' he' => hnames e' (List.mem_cons_of_mem _ he')) ?_
    exact (Lowers.of_lower hfirst).plain htop hb

/-- Compiling a source makes no names that are not plain. -/
theorem Module.Plain.compile {m : Module} (h : m.Plain) (hm : m.Consistent) (source : String) :
    (m.compile source).module.Plain := by
  rcases hm.answer (.compile source) with ⟨values, hok, _, _⟩ | ⟨_, _, hlike, _⟩
  · obtain ⟨exprs, b, hexprs, hlower, hmodule⟩ := answer_eq_ok hok
    have hnames : ∀ e ∈ exprs, ∀ name ∈ e.names, IsPlain name := by
      intro e he name hname
      exact .of_isName ((Expr.writable_of_parseSource hexprs he).names name hname)
    have hplain := Expr.lowerEach_plain hlower hnames h
    rwa [← hmodule] at hplain
  · exact h.of_same hlike.globals_eq hlike.functions_eq

end LambdaArith

import LambdaArith.Proofs.Draws
import LambdaArith.Proofs.RoundTrip
import Mathlib.Tactic.MkIffOfInductiveProp
import Mathlib.Tactic.Tauto

/-!
# What sample expressions are

Any bytes make an expression, and the expressions that are made are described by their height, their
names and numbers, and the parameters of their lambdas. Each of them reads back, and each expression
that fits the description is made by some bytes.
-/

namespace LambdaArith

open Token

/-- A name of at most seven letters and digits, or a `v` in front of a word of at most seven that
starts with a keyword. -/
def IsSampleName (name : String) : Prop :=
  (IsName name ∧ name.toList.length ≤ 7) ∨
    ∃ word, name.toList = 'v' :: word ∧ word.length ≤ 7 ∧ (∀ c ∈ word, c.isAlphanum = true) ∧
      ∃ keyword : Keyword, keyword.word.toList <+: word

/-- A sample name is a name. -/
theorem IsSampleName.isName {name : String} (h : IsSampleName name) : IsName name := by
  rcases h with ⟨hname, _⟩ | ⟨word, hword, _, hletters, _⟩
  · exact hname
  · refine ⟨⟨'v', word, hword, rfl, hletters⟩, fun keyword hprefix => ?_⟩
    rw [hword] at hprefix
    cases keyword <;> cases (List.cons_prefix_cons.mp hprefix).1

namespace Draw

variable {c : Char}

/-- A word starts with a keyword exactly if one would be cut off it. -/
theorem leading?_isSome_iff {word : List Char} :
    (Keyword.leading? word).isSome = true ↔ ∃ keyword : Keyword, keyword.word.toList <+: word := by
  constructor
  · intro h
    obtain ⟨keyword, hkeyword⟩ := Option.isSome_iff_exists.mp h
    exact ⟨keyword, Keyword.prefix_of_leading? hkeyword⟩
  · rintro ⟨keyword, hprefix⟩
    rw [Option.isSome_iff_ne_none]
    exact fun hnone => Keyword.leading?_eq_none_iff.mp hnone keyword hprefix

/-- Letters and digits are among the first characters. -/
theorem toNat_lt_of_isAlphanum (h : c.isAlphanum = true) : c.toNat < 123 := by
  have below (last : Char) (hlast : c.val ≤ last.val) (h : last.toNat < 123) : c.toNat < 123 :=
    Nat.lt_of_le_of_lt (UInt32.le_iff_toNat_le.mp hlast) h
  rcases Bool.or_eq_true_iff.mp h with hletter | hdigit
  · rcases Bool.or_eq_true_iff.mp hletter with hupper | hlower
    · exact below 'Z' (of_decide_eq_true hupper).2 (by decide)
    · exact below 'z' (of_decide_eq_true (Bool.and_eq_true_iff.mp hlower).2) (by decide)
  · exact below '9' (of_decide_eq_true (Bool.and_eq_true_iff.mp hdigit).2) (by decide)

/-- A list has all letters and digits of a kind if it has those among the first characters. -/
theorem mem_of_forall_lt {characters : List Char} {p : Char → Bool}
    (hall : ∀ n < 123, p (Char.ofNat n) = true → Char.ofNat n ∈ characters)
    (hletter : c.isAlphanum = true) (h : p c = true) : c ∈ characters := by
  rw [← Char.ofNat_toNat c] at h ⊢
  exact hall _ (toNat_lt_of_isAlphanum hletter) h

/-- The letters that are drawn from. -/
theorem mem_letters_iff : c ∈ letters ↔ c.isAlpha = true := by
  constructor
  · exact List.all_eq_true.mp (by decide +kernel) c
  · intro h
    have hletter : c.isAlphanum = true := by rw [Char.isAlphanum, h, Bool.true_or]
    exact mem_of_forall_lt (by decide +kernel) hletter h

/-- The letters and digits that are drawn from. -/
theorem mem_lettersAndDigits_iff : c ∈ lettersAndDigits ↔ c.isAlphanum = true := by
  constructor
  · exact List.all_eq_true.mp (by decide +kernel) c
  · exact fun h => mem_of_forall_lt (by decide +kernel) h h

/-- A word of letters and digits that has been guarded is a sample name. -/
theorem isSampleName_guardKeyword {first : Char} {rest : List Char} (hfirst : first.isAlpha = true)
    (hrest : ∀ c ∈ rest, c.isAlphanum = true) (hlength : rest.length ≤ 6) :
    IsSampleName (String.ofList (guardKeyword (first :: rest))) := by
  have hword : (first :: rest).length ≤ 7 := by rw [List.length_cons]; omega
  unfold guardKeyword
  split
  · rename_i hkeyword
    refine .inr ⟨first :: rest, String.toList_ofList, hword, ?_, leading?_isSome_iff.mp hkeyword⟩
    exact List.forall_mem_cons.mpr ⟨by rw [Char.isAlphanum, hfirst, Bool.true_or], hrest⟩
  · rename_i hkeyword
    rw [leading?_isSome_iff, not_exists] at hkeyword
    rw [IsSampleName, String.toList_ofList]
    exact .inl ⟨⟨⟨first, rest, String.toList_ofList, hfirst, hrest⟩,
      by rwa [String.toList_ofList]⟩, hword⟩

/-- Every sample name is such a word, guarded. -/
theorem exists_guardKeyword {name : String} (h : IsSampleName name) :
    ∃ first rest, first.isAlpha = true ∧ (∀ c ∈ rest, c.isAlphanum = true) ∧ rest.length ≤ 6 ∧
      name = String.ofList (guardKeyword (first :: rest)) := by
  rcases h with ⟨⟨⟨first, rest, hname, hfirst, hrest⟩, hfree⟩, hlength⟩ |
    ⟨word, hword, hlength, hletters, keyword, hprefix⟩
  · rw [hname, List.length_cons] at hlength
    have hkeyword : ¬ (Keyword.leading? (first :: rest)).isSome = true := by
      rw [leading?_isSome_iff, not_exists, ← hname]
      exact hfree
    refine ⟨first, rest, hfirst, hrest, by omega, ?_⟩
    rw [guardKeyword, if_neg hkeyword, ← hname, String.ofList_toList]
  · have hkeyword := leading?_isSome_iff.mpr ⟨keyword, hprefix⟩
    obtain ⟨first, rest, rfl, hfirst⟩ : ∃ first rest, word = first :: rest ∧
        first.isAlpha = true := by
      obtain ⟨behind, rfl⟩ := hprefix
      cases keyword
      · exact ⟨'d', "efine".toList ++ behind, rfl, rfl⟩
      · exact ⟨'l', "ambda".toList ++ behind, rfl, rfl⟩
    rw [List.length_cons] at hlength
    refine ⟨first, rest, hfirst, fun c hc => hletters c (List.mem_cons_of_mem _ hc), by omega, ?_⟩
    rw [guardKeyword, if_pos hkeyword, ← hword, String.ofList_toList]

/-- The names that can be drawn. -/
theorem gives_name : Gives name IsSampleName := by
  have hfirst : Gives (choose letters) (· ∈ letters) := gives_choose (by decide) (by decide)
  have hnext : Gives (choose lettersAndDigits) (· ∈ lettersAndDigits) :=
    gives_choose (by decide) (by decide)
  refine (hfirst.bind fun first _ => (gives_upTo (by decide)).bind fun count _ =>
    (gives_repeated hnext count).bind fun rest _ =>
      Gives.pure (String.ofList (guardKeyword (first :: rest)))).congr fun name => ?_
  simp only [mem_letters_iff, mem_lettersAndDigits_iff]
  constructor
  · rintro ⟨first, hfirst, _, hlength, rest, ⟨rfl, hrest⟩, rfl⟩
    exact isSampleName_guardKeyword hfirst hrest hlength
  · intro h
    obtain ⟨first, rest, hfirst, hrest, hlength, hname⟩ := exists_guardKeyword h
    exact ⟨first, hfirst, rest.length, hlength, rest, ⟨rfl, hrest⟩, hname⟩

/-- The numbers that can be drawn. -/
theorem gives_number : Gives number fun x =>
    Binary64.magnitude x < Binary64.infinity ∧ Binary64.isNegative x = false := by
  have hinfinity : Binary64.infinity < Binary64.signBit := by decide
  refine ((gives_word 8).bind fun word _ => Gives.pure (Binary64.toFloat false
    (if word % Binary64.signBit < Binary64.infinity then word % Binary64.signBit else 0))).congr
    fun x => ?_
  constructor
  · rintro ⟨word, _, rfl⟩
    split
    · rename_i hfinite
      rw [Binary64.magnitude_toFloat (Nat.le_of_lt hfinite)]
      exact ⟨hfinite, Binary64.isNegative_toFloat (Nat.le_of_lt hfinite)⟩
    · rw [Binary64.magnitude_toFloat (Nat.zero_le _)]
      exact ⟨by decide, Binary64.isNegative_toFloat (Nat.zero_le _)⟩
  · rintro ⟨hfinite, hsign⟩
    have hroom : Binary64.infinity < Nat.pow 256 8 := by decide
    refine ⟨Binary64.magnitude x, by omega, ?_⟩
    rw [Nat.mod_eq_of_lt (by omega), if_pos hfinite, Binary64.toFloat_magnitude hsign]

/-- All operators can be drawn. -/
theorem gives_operator : Gives operator fun _ => True := by
  refine ((gives_word 4).bind fun word hword =>
    gives_pick (show word / 0x40000000 < Operator.all.length from ?_)).congr fun op => ?_
  · have hlength : Operator.all.length = 4 := rfl
    have hbound : Nat.pow 256 4 = 4 * 0x40000000 := rfl
    omega
  · refine ⟨fun _ => trivial, fun _ => ?_⟩
    cases op with
    | add => exact ⟨0, by decide, rfl⟩
    | sub => exact ⟨0x40000000, by decide, rfl⟩
    | mul => exact ⟨0x80000000, by decide, rfl⟩
    | div => exact ⟨0xc0000000, by decide, rfl⟩

end Draw

namespace Expr

/-- The parameters of each lambda in an expression. -/
def parameterLists : Expr → List (List String)
  | number _ => []
  | binary _ lhs rhs => lhs.parameterLists ++ rhs.parameterLists
  | define _ value => value.parameterLists
  | lambda parameters body => parameters :: body.parameterLists
  | identifier _ => []

/-- An expression of at most this height, with finite numbers of clear sign, lambdas of at most
three parameters that differ from each other, and the names of samples. -/
@[mk_iff]
structure IsSample (height : Nat) (e : Expr) : Prop where
  height_le : e.height ≤ height
  numbers : ∀ x ∈ e.numbers,
    Binary64.magnitude x < Binary64.infinity ∧ Binary64.isNegative x = false
  parameters : ∀ parameters ∈ e.parameterLists, parameters.length ≤ 3 ∧ parameters.Nodup
  names : ∀ name ∈ e.names, IsSampleName name

variable {height : Nat}

/-- Parameters are not repeated if they are so in no list of parameters. -/
theorem parametersDistinct_iff {e : Expr} :
    e.ParametersDistinct ↔ ∀ parameters ∈ e.parameterLists, parameters.Nodup := by
  induction e with
  | number _ => simp [ParametersDistinct, parameterLists]
  | binary _ _ _ ihl ihr => simp [ParametersDistinct, parameterLists, ihl, ihr, or_imp, forall_and]
  | define _ _ ih => rw [ParametersDistinct, parameterLists, ih]
  | lambda _ _ ih => rw [ParametersDistinct, parameterLists, ih, List.forall_mem_cons]
  | identifier _ => simp [ParametersDistinct, parameterLists]

/-- Samples are printable. -/
theorem IsSample.printable {e : Expr} (h : e.IsSample height) : e.Printable where
  names := fun name hname => (h.names name hname).isName
  numbers := h.numbers
  parametersDistinct := parametersDistinct_iff.mpr fun _ hmem => (h.parameters _ hmem).2

/-- Which of the choices of a drawing an expression is. -/
def choice : Expr → Nat
  | number _ => 0
  | identifier _ => 1
  | binary _ _ _ => 2
  | define _ _ => 3
  | lambda _ _ => 4

section

variable {op : Operator} {lhs rhs value body : Expr} {name : String} {parameters : List String}
  {x : Float}

/-- Numbers that are samples. -/
theorem isSample_number_iff : (number x).IsSample height ↔
    Binary64.magnitude x < Binary64.infinity ∧ Binary64.isNegative x = false := by
  simp [isSample_iff, Expr.height, numbers, parameterLists, names]

/-- Identifiers that are samples. -/
theorem isSample_identifier_iff : (identifier name).IsSample height ↔ IsSampleName name := by
  simp [isSample_iff, Expr.height, numbers, parameterLists, names]

/-- Operators on samples. -/
theorem isSample_binary_iff : (binary op lhs rhs).IsSample (height + 1) ↔
    lhs.IsSample height ∧ rhs.IsSample height := by
  simp only [isSample_iff, Expr.height, numbers, parameterLists, names, List.forall_mem_append,
    Nat.add_le_add_iff_right, Nat.max_le]
  tauto

/-- Definitions of samples. -/
theorem isSample_define_iff : (define name value).IsSample (height + 1) ↔
    IsSampleName name ∧ value.IsSample height := by
  simp only [isSample_iff, Expr.height, numbers, parameterLists, names, List.forall_mem_cons,
    Nat.add_le_add_iff_right]
  tauto

/-- Lambdas with samples for their bodies. -/
theorem isSample_lambda_iff : (lambda parameters body).IsSample (height + 1) ↔
    (parameters.length ≤ 3 ∧ parameters.Nodup ∧ ∀ name ∈ parameters, IsSampleName name) ∧
      body.IsSample height := by
  simp only [isSample_iff, Expr.height, numbers, parameterLists, names, List.forall_mem_cons,
    List.forall_mem_append, Nat.add_le_add_iff_right]
  tauto

end

open Draw

/-- Drawing a number as an expression. -/
theorem gives_sample_number : Gives (do return number (← Draw.number)) fun e =>
    e.choice = 0 ∧ e.IsSample height := by
  refine (gives_number.bind fun x _ => Gives.pure (number x)).congr fun e => ?_
  constructor
  · rintro ⟨x, hx, rfl⟩
    exact ⟨rfl, isSample_number_iff.mpr hx⟩
  · rintro ⟨hchoice, h⟩
    cases e with
    | number x => exact ⟨x, isSample_number_iff.mp h, rfl⟩
    | _ => cases hchoice

/-- Drawing an identifier. -/
theorem gives_sample_identifier : Gives (do return identifier (← Draw.name)) fun e =>
    e.choice = 1 ∧ e.IsSample height := by
  refine (gives_name.bind fun name _ => Gives.pure (identifier name)).congr fun e => ?_
  constructor
  · rintro ⟨name, hname, rfl⟩
    exact ⟨rfl, isSample_identifier_iff.mpr hname⟩
  · rintro ⟨hchoice, h⟩
    cases e with
    | identifier name => exact ⟨name, isSample_identifier_iff.mp h, rfl⟩
    | _ => cases hchoice

/-- Drawing an operator and its operands. -/
theorem gives_sample_binary {draw : Draw Expr} (h : Gives draw (IsSample height)) :
    Gives (do
      let op ← operator
      let lhs ← draw
      let rhs ← draw
      return binary op lhs rhs) fun e => e.choice = 2 ∧ e.IsSample (height + 1) := by
  refine (gives_operator.bind fun op _ => h.bind fun lhs _ => h.bind fun rhs _ =>
    Gives.pure (binary op lhs rhs)).congr fun e => ?_
  constructor
  · rintro ⟨op, _, lhs, hlhs, rhs, hrhs, rfl⟩
    exact ⟨rfl, isSample_binary_iff.mpr ⟨hlhs, hrhs⟩⟩
  · rintro ⟨hchoice, he⟩
    cases e with
    | binary op lhs rhs =>
      obtain ⟨hlhs, hrhs⟩ := isSample_binary_iff.mp he
      exact ⟨op, trivial, lhs, hlhs, rhs, hrhs, rfl⟩
    | _ => cases hchoice

/-- Drawing a definition. -/
theorem gives_sample_define {draw : Draw Expr} (h : Gives draw (IsSample height)) :
    Gives (do
      let name ← Draw.name
      let value ← draw
      return define name value) fun e => e.choice = 3 ∧ e.IsSample (height + 1) := by
  refine (gives_name.bind fun name _ => h.bind fun value _ =>
    Gives.pure (define name value)).congr fun e => ?_
  constructor
  · rintro ⟨name, hname, value, hvalue, rfl⟩
    exact ⟨rfl, isSample_define_iff.mpr ⟨hname, hvalue⟩⟩
  · rintro ⟨hchoice, he⟩
    cases e with
    | define name value =>
      obtain ⟨hname, hvalue⟩ := isSample_define_iff.mp he
      exact ⟨name, hname, value, hvalue, rfl⟩
    | _ => cases hchoice

/-- Drawing a lambda. -/
theorem gives_sample_lambda {draw : Draw Expr} (h : Gives draw (IsSample height)) :
    Gives (do
      let parameters ← repeated Draw.name (← upTo 3)
      let body ← draw
      return lambda (distinct parameters) body) fun e =>
        e.choice = 4 ∧ e.IsSample (height + 1) := by
  refine ((gives_upTo (by decide)).bind fun count _ =>
    (gives_repeated gives_name count).bind fun parameters _ => h.bind fun body _ =>
      Gives.pure (lambda (distinct parameters) body)).congr fun e => ?_
  constructor
  · rintro ⟨_, hcount, parameters, ⟨rfl, hnames⟩, body, hbody, rfl⟩
    have hkept := distinct_sublist parameters
    refine ⟨rfl, isSample_lambda_iff.mpr ⟨⟨?_, nodup_distinct parameters, ?_⟩, hbody⟩⟩
    · exact Nat.le_trans hkept.length_le hcount
    · exact fun name hname => hnames name (hkept.subset hname)
  · rintro ⟨hchoice, he⟩
    cases e with
    | lambda parameters body =>
      obtain ⟨⟨hcount, hnodup, hnames⟩, hbody⟩ := isSample_lambda_iff.mp he
      refine ⟨parameters.length, hcount, parameters, ⟨rfl, hnames⟩, body, hbody, ?_⟩
      rw [distinct_of_nodup hnodup]
    | _ => cases hchoice

/-- The trees that can be drawn. -/
theorem gives_sample (height : Nat) : Gives (sample height) (IsSample height) := by
  induction height with
  | zero =>
    refine ((gives_upTo (by decide)).bind (Q := fun c e => e.choice = c ∧ e.IsSample 0)
      fun c hc => ?_).congr fun e => ?_
    · match c, hc with
      | 0, _ => exact gives_sample_number
      | 1, _ => exact gives_sample_identifier
    · refine ⟨fun ⟨_, _, _, he⟩ => he, fun he => ⟨e.choice, ?_, rfl, he⟩⟩
      have hheight := he.height_le
      cases e <;> simp_all [choice, Expr.height]
  | succ height ih =>
    refine ((gives_upTo (by decide)).bind (Q := fun c e => e.choice = c ∧ e.IsSample (height + 1))
      fun c hc => ?_).congr fun e => ?_
    · match c, hc with
      | 0, _ => exact gives_sample_number
      | 1, _ => exact gives_sample_identifier
      | 2, _ => exact gives_sample_binary ih
      | 3, _ => exact gives_sample_define ih
      | 4, _ => exact gives_sample_lambda ih
    · refine ⟨fun ⟨_, _, _, he⟩ => he, fun he => ⟨e.choice, ?_, rfl, he⟩⟩
      cases e <;> simp [choice]

/-- For all bytes a tree is drawn. It is at most four high, its numbers are finite with a clear
sign, its lambdas have at most three parameters that differ from each other, and each of its names
is one of at most seven letters and digits or a guarded one; so its text reads back as the same
tree. Each tree like that is drawn for some bytes. -/
theorem drawn_iff_isSample :
    (∀ bytes, (sample sampleHeight).run bytes = .ok (ofBytes bytes) ∧
      parseSource (ofBytes bytes).1.text = .ok [(ofBytes bytes).1]) ∧
    ∀ e : Expr, (∃ bytes, (ofBytes bytes).1 = e) ↔ e.IsSample 4 := by
  have hgives := gives_sample sampleHeight
  have hdrawn : ∀ bytes, (sample sampleHeight).run bytes = .ok (ofBytes bytes) ∧
      (ofBytes bytes).1.IsSample 4 := by
    intro bytes
    obtain ⟨e, rest, hrun, he⟩ := hgives.sound bytes
    have hbytes : ofBytes bytes = (e, rest) := by rw [ofBytes, hrun]; rfl
    rw [hbytes]
    exact ⟨hrun, he⟩
  refine ⟨fun bytes => ⟨(hdrawn bytes).1, ?_⟩, fun e => ⟨?_, fun he => ?_⟩⟩
  · have hsample := (hdrawn bytes).2
    have hheight := hsample.height_le
    exact hsample.printable.parse_text (by omega)
  · rintro ⟨bytes, rfl⟩
    exact (hdrawn bytes).2
  · obtain ⟨bytes, hrun⟩ := hgives.complete e he
    refine ⟨bytes, ?_⟩
    have hbytes := hrun []
    rw [List.append_nil, (hdrawn bytes).1, Except.ok.injEq] at hbytes
    rw [hbytes]

end Expr

end LambdaArith

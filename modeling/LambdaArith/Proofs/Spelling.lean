import LambdaArith.Proofs.Numerals
import LambdaArith.Proofs.Shape
import LambdaArith.Proofs.Words

/-!
# The words of printed expressions

The text of an expression with proper names is read as a fixed list of words, also if its numbers
are infinite, negative or no numbers at all. A number that is finite and not negative is one word.
A minus sign is an operator, and what is written for an infinite number is a name.
-/

namespace LambdaArith

open Token

namespace Decimal

/-- No point is among digits. -/
theorem count_point_of_isDigit {text : List Char} (h : ∀ c ∈ text, c.isDigit = true) :
    text.count '.' = 0 := by
  refine List.count_eq_zero.mpr fun hmem => ?_
  have hdigit : '.'.isDigit = true := h '.' hmem
  cases hdigit

/-- A decimal is written as a numeral. -/
theorem isNumeral_positional (d : Decimal) : IsNumeral d.positional := by
  obtain ⟨c, rest, htext, hdigit⟩ := d.exists_positional_eq_cons
  have hnumeric : ∀ {run : List Char}, (∀ c ∈ run, c.isDigit = true) →
      ∀ c ∈ run, isNumeric c = true := by
    intro run hrun c hc
    rw [isNumeric, hrun c hc, Bool.true_or]
  have hall : (∀ c ∈ d.positional, isNumeric c = true) ∧ d.positional.count '.' ≤ 1 := by
    rcases d.positional_cases with ⟨_, hwhole⟩ | ⟨whole, fraction, hpoint, hw, hf, _, _, _⟩
    · have hdigits : ∀ c ∈ d.digits ++ List.replicate d.exponent.toNat '0', c.isDigit = true := by
        intro c hc
        rcases List.mem_append.mp hc with hc | hc
        · exact d.isDigit_of_mem_digits hc
        · exact isDigit_of_mem_zeros hc
      rw [hwhole, count_point_of_isDigit hdigits]
      exact ⟨hnumeric hdigits, Nat.zero_le 1⟩
    · rw [hpoint, List.count_append, List.count_cons_self, count_point_of_isDigit hw,
        count_point_of_isDigit hf]
      refine ⟨fun c hc => ?_, by omega⟩
      rcases List.mem_append.mp hc with hc | hc
      · exact hnumeric hw c hc
      · rcases List.mem_cons.mp hc with rfl | hc
        · rfl
        · exact hnumeric hf c hc
  refine ⟨⟨c, rest, htext, hdigit, fun d' hd => ?_⟩, hall.2⟩
  exact hall.1 d' (htext ▸ List.mem_cons_of_mem c hd)

end Decimal

/-- How the size of a number is written. -/
def magnitudeText (bits : Nat) : String :=
  if bits = Binary64.infinity then "inf"
  else String.ofList (Decimal.shortest bits).positional

/-- The word for the size of a number. -/
def magnitudeWord (bits : Nat) : Word :=
  if bits = Binary64.infinity then (.identifier, "inf")
  else (.number, String.ofList (Decimal.shortest bits).positional)

/-- The words for a number. -/
def numberWords (x : Float) : List Word :=
  if Binary64.infinity < Binary64.magnitude x then [(.identifier, "NaN")]
  else if Binary64.isNegative x then [(.operator, "-"), magnitudeWord (Binary64.magnitude x)]
  else [magnitudeWord (Binary64.magnitude x)]

namespace Expr

/-- The words that an expression is written with. -/
def words : Expr → List Word
  | number value => numberWords value
  | binary op lhs rhs =>
    (.openParen, "(") :: (.operator, op.symbol) ::
      (lhs.words ++ (rhs.words ++ [(.closeParen, ")")]))
  | define name value =>
    (.openParen, "(") :: (.keyword, Keyword.define.word) :: (.identifier, name) ::
      (value.words ++ [(.closeParen, ")")])
  | lambda parameters body =>
    (.openParen, "(") :: (.keyword, Keyword.lambda.word) :: (.openParen, "(") ::
      (parameters.map (fun name => (.identifier, name)) ++
        (.closeParen, ")") :: (body.words ++ [(.closeParen, ")")]))
  | identifier name => [(.identifier, name)]

end Expr

variable {rest : List Char} {words : List Word}

/-- What stands behind a space is read for itself. -/
theorem delimited_space : Delimited (' ' :: rest) := by
  intro c hc
  exact .inl (Option.some.inj hc).symm

/-- What stands behind a closing parenthesis is read for itself. -/
theorem delimited_close : Delimited (')' :: rest) := by
  intro c hc
  exact .inr (Option.some.inj hc).symm

/-- The words for special numbers are names. -/
theorem isName_special : IsName "inf" ∧ IsName "NaN" := by
  refine ⟨⟨⟨'i', ['n', 'f'], rfl, rfl, List.all_eq_true.mp rfl⟩, ?_⟩,
    ⟨⟨'N', ['a', 'N'], rfl, rfl, List.all_eq_true.mp rfl⟩, ?_⟩⟩
  · intro keyword
    cases keyword <;> decide
  · intro keyword
    cases keyword <;> decide

/-- The text for the size of a number is one word. -/
theorem reads_magnitude {bits : Nat} (hrest : Delimited rest) (h : Reads rest words) :
    Reads ((magnitudeText bits).toList ++ rest) (magnitudeWord bits :: words) := by
  unfold magnitudeText magnitudeWord
  split
  · exact .identifier isName_special.1 hrest h
  · rw [String.toList_ofList]
    exact .number (Decimal.isNumeral_positional _) hrest h

/-- The text of a number is its sign in front of its size, if it is a number. -/
theorem sourceFloat_cases (x : Float) :
    (sourceFloat x = "NaN" ∧ numberWords x = [(.identifier, "NaN")]) ∨
      (sourceFloat x = "-" ++ magnitudeText (Binary64.magnitude x) ∧
        numberWords x = [(.operator, "-"), magnitudeWord (Binary64.magnitude x)]) ∨
      (sourceFloat x = magnitudeText (Binary64.magnitude x) ∧
        numberWords x = [magnitudeWord (Binary64.magnitude x)]) := by
  have hmerge : ∀ sign : String,
      (if Binary64.magnitude x = Binary64.infinity then sign ++ "inf"
        else sign ++ String.ofList (Decimal.shortest (Binary64.magnitude x)).positional) =
      sign ++ magnitudeText (Binary64.magnitude x) := by
    intro sign
    unfold magnitudeText
    split <;> rfl
  simp only [sourceFloat, floatText, numberWords, hmerge]
  by_cases hnumber : Binary64.infinity < Binary64.magnitude x
  · simp only [if_pos hnumber, and_self, true_or]
  · by_cases hsign : Binary64.isNegative x = true
    · simp only [if_neg hnumber, if_pos hsign, and_self, true_or, or_true]
    · simp only [if_neg hnumber, if_neg hsign, String.empty_append, and_self, or_true]

/-- The text of a number is read as its words. -/
theorem reads_sourceFloat {x : Float} (hrest : Delimited rest) (h : Reads rest words) :
    Reads ((sourceFloat x).toList ++ rest) (numberWords x ++ words) := by
  have hmagnitude := @reads_magnitude _ _ (Binary64.magnitude x) hrest h
  rcases sourceFloat_cases x with ⟨htext, hwords⟩ | ⟨htext, hwords⟩ | ⟨htext, hwords⟩
  · rw [htext, hwords]
    exact .identifier isName_special.2 hrest h
  · rw [htext, hwords, String.toList_append, List.append_assoc]
    exact .operator .sub hmagnitude
  · rw [htext, hwords]
    exact hmagnitude

/-- Names with spaces between them are read one by one. -/
theorem reads_intercalate {names : List String} (hnames : ∀ name ∈ names, IsName name)
    (hrest : Delimited rest) (h : Reads rest words) :
    Reads ((" ".intercalate names).toList ++ rest)
      (names.map (fun name => (.identifier, name)) ++ words) := by
  induction names with
  | nil => exact h
  | cons first others ih =>
    have hfirst : IsName first := hnames first List.mem_cons_self
    cases others with
    | nil =>
      rw [String.intercalate_singleton]
      exact .identifier hfirst hrest h
    | cons second others =>
      have htext : (" ".intercalate (first :: second :: others)).toList ++ rest =
          first.toList ++ ' ' :: ((" ".intercalate (second :: others)).toList ++ rest) := by
        rw [String.intercalate_cons_cons, String.toList_append, String.toList_append,
          List.append_assoc, List.append_assoc]
        rfl
      rw [htext]
      refine .identifier hfirst delimited_space (.space (ih fun name hname => ?_))
      exact hnames name (List.mem_cons_of_mem _ hname)

/-- The text of an expression with proper names is read as its words. -/
theorem Expr.reads_text {e : Expr} (hnames : ∀ name ∈ e.names, IsName name)
    (hrest : Delimited rest) (h : Reads rest words) :
    Reads (e.text.toList ++ rest) (e.words ++ words) := by
  induction e generalizing rest words with
  | number value => exact reads_sourceFloat hrest h
  | identifier name => exact .identifier (hnames name List.mem_cons_self) hrest h
  | binary op lhs rhs ihl ihr =>
    have htext : (binary op lhs rhs).text.toList ++ rest = '(' :: (op.symbol.toList ++
        ' ' :: (lhs.text.toList ++ ' ' :: (rhs.text.toList ++ ')' :: rest))) := by
      simp only [text, String.toList_append, List.append_assoc]
      rfl
    have hwords : (binary op lhs rhs).words ++ words = (.openParen, "(") ::
        (.operator, op.symbol) :: (lhs.words ++ (rhs.words ++ (.closeParen, ")") :: words)) := by
      simp only [Expr.words, List.cons_append, List.append_assoc, List.nil_append]
    have hl := fun name hname => hnames name (List.mem_append_left rhs.names hname)
    have hr := fun name hname => hnames name (List.mem_append_right lhs.names hname)
    have hright := ihr hr delimited_close (Reads.single rfl h)
    have hleft := ihl hl delimited_space (.space hright)
    rw [htext, hwords]
    exact .single rfl (.operator op (.space hleft))
  | define name value ih =>
    have htext : (define name value).text.toList ++ rest = '(' :: (Keyword.define.word.toList ++
        ' ' :: (name.toList ++ ' ' :: (value.text.toList ++ ')' :: rest))) := by
      simp only [text, String.toList_append, List.append_assoc]
      rfl
    have hwords : (define name value).words ++ words = (.openParen, "(") ::
        (.keyword, Keyword.define.word) :: (.identifier, name) ::
          (value.words ++ (.closeParen, ")") :: words) := by
      simp only [Expr.words, List.cons_append, List.append_assoc, List.nil_append]
    have hvalue := ih (fun name hname => hnames name (List.mem_cons_of_mem _ hname))
      delimited_close (Reads.single rfl h)
    have hname := Reads.identifier (hnames name List.mem_cons_self) delimited_space (.space hvalue)
    rw [htext, hwords]
    exact .single rfl (.keyword .define (.space hname))
  | lambda parameters body ih =>
    have htext : (lambda parameters body).text.toList ++ rest =
        '(' :: (Keyword.lambda.word.toList ++ ' ' :: '(' ::
          ((" ".intercalate parameters).toList ++
            ')' :: ' ' :: (body.text.toList ++ ')' :: rest))) := by
      simp only [text, String.toList_append, List.append_assoc]
      rfl
    have hwords : (lambda parameters body).words ++ words = (.openParen, "(") ::
        (.keyword, Keyword.lambda.word) :: (.openParen, "(") ::
          (parameters.map (fun name => (.identifier, name)) ++
            (.closeParen, ")") :: (body.words ++ (.closeParen, ")") :: words)) := by
      simp only [Expr.words, List.cons_append, List.append_assoc, List.nil_append]
    have hbody := ih (fun name hname => hnames name (List.mem_append_right parameters hname))
      delimited_close (Reads.single rfl h)
    have hparameters := reads_intercalate
      (fun name hname => hnames name (List.mem_append_left body.names hname))
      delimited_close (Reads.single rfl (.space hbody))
    rw [htext, hwords]
    exact .single rfl (.keyword .lambda (.space (.single rfl hparameters)))

end LambdaArith

import LambdaArith.Proofs.RoundTrip

/-!
# Accepted text is printed again

What a source is read as has proper names, distinct parameters and numbers without a sign, so its
text is read as one expression again. Two things may still be lost. A literal that is too large for
a double is infinite, and infinity is written like a name. And parentheses count as levels, so an
expression whose source had none may be nested too deep when it is printed.
-/

namespace LambdaArith

open Token

/-- A double that a literal of a source can stand for. -/
structure IsLiteral (x : Float) : Prop where
  sign : Binary64.isNegative x = false
  size : Binary64.magnitude x ≤ Binary64.infinity

/-- Rounding goes no further than infinity. -/
theorem Decimal.bits_le (d : Decimal) : d.bits ≤ Binary64.infinity :=
  Nat.min_le_left _ _

namespace Numeral

variable {c : Char} {rest behind : List Char} {text : String} {x : Float}

/-- The characters of a number are no letters of a word and no sign. -/
theorem of_isNumeric (h : isNumeric c = true) :
    c.toLower ≠ 'i' ∧ c.toLower ≠ 'n' ∧ readSign (c :: rest) = (false, c :: rest) := by
  rw [isNumeric, Bool.or_eq_true, decide_eq_true_eq] at h
  rcases h with hdigit | rfl
  · rw [toLower_of_isDigit hdigit]
    refine ⟨?_, ?_, readSign_of_isDigit hdigit⟩
    · rintro rfl
      cases hdigit
    · rintro rfl
      cases hdigit
  · exact ⟨by decide, by decide, rfl⟩

/-- What is read from a number of a source is rounded from a decimal. -/
theorem isLiteral_of_read (hfits : Fits .number text.toList behind) (h : read text = some x) :
    IsLiteral x := by
  cases hfits with
  | number hne hrun _ _ =>
    obtain ⟨c, rest, htext⟩ := List.exists_cons_of_ne_nil hne
    obtain ⟨hi, hn, hsign⟩ := @of_isNumeric c rest (hrun c (htext ▸ List.mem_cons_self))
    rw [read, htext, hsign] at h
    dsimp only at h
    rw [readMagnitude_cons hi hn, Option.map_map, Option.map_eq_some_iff] at h
    obtain ⟨d, _, rfl⟩ := h
    refine ⟨Binary64.isNegative_toFloat d.bits_le, ?_⟩
    rw [Function.comp_apply, Binary64.magnitude_toFloat d.bits_le]
    exact d.bits_le

end Numeral

/-- Every number of an expression is what a number token is read as. -/
theorem Derives.exists_token_of_number {levels : Nat} {tokens : List Token} {e : Expr}
    (h : Derives levels tokens e) {x : Float} (hx : x ∈ e.numbers) :
    ∃ token ∈ tokens, token.kind = .number ∧ Numeral.read token.lexeme = some x := by
  induction h with
  | @number _ token _ hkind hvalue =>
    rw [List.mem_singleton.mp hx]
    exact ⟨token, List.mem_cons_self, hkind, hvalue⟩
  | identifier => cases hx
  | paren _ _ _ ih =>
    obtain ⟨token, htoken, hread⟩ := ih hx
    exact ⟨token, by simp [htoken], hread⟩
  | binary _ _ _ _ ihl ihr =>
    rcases List.mem_append.mp hx with hx | hx
    · obtain ⟨token, htoken, hread⟩ := ihl hx
      exact ⟨token, by simp [htoken], hread⟩
    · obtain ⟨token, htoken, hread⟩ := ihr hx
      exact ⟨token, by simp [htoken], hread⟩
  | define _ _ _ _ ih =>
    obtain ⟨token, htoken, hread⟩ := ih hx
    exact ⟨token, by simp [htoken], hread⟩
  | lambda _ _ _ _ _ _ _ ih =>
    obtain ⟨token, htoken, hread⟩ := ih hx
    exact ⟨token, by simp [htoken], hread⟩

/-- Every expression of a program is derived from a part of its tokens. -/
theorem DerivesEach.exists_derives {tokens : List Token} {exprs : List Expr}
    (h : DerivesEach tokens exprs) {e : Expr} (he : e ∈ exprs) :
    ∃ part, Derives maxNesting part e ∧ ∀ token ∈ part, token ∈ tokens := by
  induction h with
  | nil => cases he
  | @cons first rest head others hfirst _ ih =>
    rcases List.mem_cons.mp he with rfl | he
    · exact ⟨first, hfirst, fun token htoken => List.mem_append_left _ htoken⟩
    · obtain ⟨part, hpart, hmem⟩ := ih he
      exact ⟨part, hpart, fun token htoken => List.mem_append_right _ (hmem token htoken)⟩

namespace Expr

variable {e : Expr}

/-- What can be written in a source: names are proper, no lambda repeats a parameter, and numbers
are literals. -/
structure Writable (e : Expr) : Prop where
  names : ∀ name ∈ e.names, IsName name
  parametersDistinct : e.ParametersDistinct
  numbers : ∀ x ∈ e.numbers, IsLiteral x

/-- The expressions of a source can be written in one. -/
theorem writable_of_parseSource {source : String} {exprs : List Expr}
    (h : parseSource source = .ok exprs) (he : e ∈ exprs) : e.Writable := by
  obtain ⟨tokens, htokens, hprogram⟩ := parseSource_eq_ok_iff.mp h
  obtain ⟨part, hderives, hpart⟩ := (parseProgram_eq_ok_iff.mp hprogram).2.exists_derives he
  have hreads : Reads source.toList (tokens.map word) := ofSource_eq_ok htokens
  have hwords : ∀ w ∈ part.map word, w ∈ tokens.map word := by
    intro w hw
    obtain ⟨token, htoken, rfl⟩ := List.mem_map.mp hw
    exact List.mem_map_of_mem (hpart token htoken)
  refine ⟨?_, hderives.parametersDistinct, ?_⟩
  · intro name hname
    exact hreads.isName (hwords _ (hderives.mem_words hname))
  · intro x hx
    obtain ⟨token, htoken, hkind, hread⟩ := hderives.exists_token_of_number hx
    obtain ⟨behind, hfits⟩ := hreads.exists_fits (List.mem_map_of_mem (hpart token htoken))
    have hnumber : Fits .number token.lexeme.toList behind := hkind ▸ hfits
    exact Numeral.isLiteral_of_read hnumber hread

/-- The expression with a name for each number that is too large. -/
def reread : Expr → Expr
  | number value =>
    if Binary64.magnitude value < Binary64.infinity then number value else identifier "inf"
  | binary op lhs rhs => binary op lhs.reread rhs.reread
  | define name value => define name value.reread
  | lambda parameters body => lambda parameters body.reread
  | identifier name => identifier name

/-- A literal is written as what is put in its place. -/
theorem text_reread_number {x : Float} (h : IsLiteral x) :
    (number x).reread.text = (number x).text := by
  rw [reread]
  split
  · rfl
  · rename_i hinfinite
    have hsize : Binary64.magnitude x = Binary64.infinity :=
      Nat.le_antisymm h.size (Nat.le_of_not_lt hinfinite)
    simp [text, sourceFloat, floatText, hsize, h.sign]

/-- Putting names in the place of numbers that are too large does not change the text. -/
theorem text_reread (h : ∀ x ∈ e.numbers, IsLiteral x) : e.reread.text = e.text := by
  induction e with
  | number x => exact text_reread_number (h x List.mem_cons_self)
  | binary op lhs rhs ihl ihr =>
    rw [reread, text, text, ihl fun x hx => h x (List.mem_append_left _ hx),
      ihr fun x hx => h x (List.mem_append_right _ hx)]
  | define name value ih => rw [reread, text, text, ih h]
  | lambda parameters body ih => rw [reread, text, text, ih h]
  | identifier name => rfl

/-- Nor does it change the height. -/
theorem height_reread (e : Expr) : e.reread.height = e.height := by
  induction e with
  | number x =>
    rw [reread]
    split <;> rfl
  | binary op lhs rhs ihl ihr => rw [reread, height, height, ihl, ihr]
  | define name value ih => rw [reread, height, height, ih]
  | lambda parameters body ih => rw [reread, height, height, ih]
  | identifier name => rfl

/-- One more name may appear. -/
theorem names_reread {name : String} (h : name ∈ e.reread.names) :
    name ∈ e.names ∨ name = "inf" := by
  induction e with
  | number x =>
    rw [reread] at h
    split at h
    · cases h
    · exact .inr (List.mem_singleton.mp h)
  | binary op lhs rhs ihl ihr =>
    rw [reread, names, List.mem_append] at h
    rw [names, List.mem_append]
    grind
  | define defined value ih =>
    rw [reread, names, List.mem_cons] at h
    rw [names, List.mem_cons]
    grind
  | lambda parameters body ih =>
    rw [reread, names, List.mem_append] at h
    rw [names, List.mem_append]
    grind
  | identifier name => exact .inl h

/-- The numbers that are left are finite. -/
theorem numbers_reread {x : Float} (h : x ∈ e.reread.numbers) :
    x ∈ e.numbers ∧ Binary64.magnitude x < Binary64.infinity := by
  induction e with
  | number y =>
    rw [reread] at h
    split at h
    · rename_i hfinite
      rw [List.mem_singleton.mp h]
      exact ⟨List.mem_cons_self, hfinite⟩
    · cases h
  | binary op lhs rhs ihl ihr =>
    rw [reread, numbers, List.mem_append] at h
    rw [numbers, List.mem_append]
    grind
  | define name value ih => exact ih h
  | lambda parameters body ih => exact ih h
  | identifier name => cases h

/-- No parameter is touched. -/
theorem parametersDistinct_reread (h : e.ParametersDistinct) : e.reread.ParametersDistinct := by
  induction e with
  | number x =>
    rw [reread]
    split <;> exact trivial
  | binary op lhs rhs ihl ihr => exact ⟨ihl h.1, ihr h.2⟩
  | define name value ih => exact ih h
  | lambda parameters body ih => exact ⟨h.1, ih h.2⟩
  | identifier name => exact trivial

/-- Only numbers that are too large make a difference. -/
theorem reread_eq_iff :
    e.reread = e ↔ ∀ x ∈ e.numbers, Binary64.magnitude x < Binary64.infinity := by
  constructor
  · intro h x hx
    rw [← h] at hx
    exact (numbers_reread hx).2
  · intro h
    induction e with
    | number x => rw [reread, if_pos (h x List.mem_cons_self)]
    | binary op lhs rhs ihl ihr =>
      rw [reread, ihl fun x hx => h x (List.mem_append_left _ hx),
        ihr fun x hx => h x (List.mem_append_right _ hx)]
    | define name value ih => rw [reread, ih h]
    | lambda parameters body ih => rw [reread, ih h]
    | identifier name => rfl

/-- What can be written in a source is printable when names have been put in the place of numbers
that are too large. -/
theorem Writable.printable_reread (h : e.Writable) : e.reread.Printable := by
  refine ⟨?_, ?_, parametersDistinct_reread h.parametersDistinct⟩
  · intro name hname
    rcases names_reread hname with hname | rfl
    · exact h.names name hname
    · exact isName_special.1
  · intro x hx
    obtain ⟨hx, hfinite⟩ := numbers_reread hx
    exact ⟨hfinite, (h.numbers x hx).sign⟩

/-- The text of an expression that has been read from a source reads back as that expression
exactly if the expression is at most 127 high and has no infinite number. If it is not too high, an
infinite number reads back as a name. If it is, the text is nested too deep. -/
theorem reparse_text {source : String} {exprs : List Expr} (h : parseSource source = .ok exprs)
    (he : e ∈ exprs) :
    (parseSource e.text = .ok [e] ↔
      e.height ≤ 127 ∧ ∀ x ∈ e.numbers, Binary64.magnitude x < Binary64.infinity) ∧
    (e.height ≤ 127 → parseSource e.text = .ok [e.reread]) ∧
    (127 < e.height → ∃ offset, parseSource e.text = .error (.parse (.tooDeep offset))) := by
  have hwritable := writable_of_parseSource h he
  have htext := text_reread hwritable.numbers
  have hread : e.height ≤ 127 → parseSource e.text = .ok [e.reread] := by
    intro hheight
    rw [← htext]
    exact hwritable.printable_reread.parse_text (by rwa [height_reread])
  have hdeep : 127 < e.height →
      ∃ offset, parseSource e.text = .error (.parse (.tooDeep offset)) := by
    intro hheight
    rw [← htext]
    exact hwritable.printable_reread.parse_text_tooDeep (by rwa [height_reread])
  refine ⟨?_, hread, hdeep⟩
  rw [← reread_eq_iff]
  constructor
  · intro hback
    have hheight : e.height ≤ 127 := by
      refine Nat.le_of_not_lt fun hlt => ?_
      obtain ⟨offset, herror⟩ := hdeep hlt
      rw [hback] at herror
      cases herror
    rw [hread hheight] at hback
    simp_all
  · rintro ⟨hheight, hsame⟩
    rw [hread hheight, hsame]

/-- A literal of digits is read as the double that is nearest to it. -/
theorem parse_digits {run : List Char} (hdigits : ∀ c ∈ run, c.isDigit = true) (hne : run ≠ []) :
    parseSource (String.ofList run) =
      .ok [number (Binary64.toFloat false (Decimal.bits ⟨Nat.ofDigitChars 10 run 0, 0⟩))] := by
  have hrun : ∀ c ∈ run, isNumeric c = true := fun c hc => by rw [isNumeric, hdigits c hc]; rfl
  have hpoint : run.count '.' ≤ 1 := by
    rw [Decimal.count_point_of_isDigit hdigits]
    exact Nat.zero_le 1
  have hfits : Fits .number run [] := .number hne hrun hpoint (by simp)
  have hreads : Reads (String.ofList run).toList [(.number, String.ofList run)] := by
    rw [String.toList_ofList, ← List.append_nil run]
    simpa using hfits.reads Reads.nil
  obtain ⟨tokens, htokens, hwords⟩ := hreads.ofSource
  obtain ⟨token, _, rfl, htoken, hnil⟩ := List.map_eq_cons_iff.mp hwords
  rw [List.map_eq_nil_iff.mp hnil] at htokens
  have hkind : token.kind = .number := congrArg Prod.fst htoken
  have hlexeme : token.lexeme = String.ofList run := congrArg Prod.snd htoken
  refine parseSource_eq_ok_singleton.mpr ⟨[token], htokens, .number hkind ?_⟩
  obtain ⟨c, rest, rfl⟩ := List.exists_cons_of_ne_nil hne
  have hdigit : c.isDigit = true := hdigits c List.mem_cons_self
  rw [hlexeme, Numeral.read, String.toList_ofList, Numeral.readSign_of_isDigit hdigit]
  dsimp only
  rw [Numeral.readMagnitude_of_isDigit hdigit, Numeral.readDecimal_digits hdigits hne]
  rfl

/-- A literal that is too large for a double. -/
def hugeLiteral : String :=
  String.ofList (List.replicate 309 '9')

/-- A literal that is too large is infinite. -/
theorem parse_hugeLiteral :
    parseSource hugeLiteral = .ok [number (Binary64.toFloat false Binary64.infinity)] := by
  have hdigits : ∀ c ∈ List.replicate 309 '9', c.isDigit = true := by
    intro c hc
    rw [List.eq_of_mem_replicate hc]
    rfl
  have hbits : Decimal.bits ⟨Nat.ofDigitChars 10 (List.replicate 309 '9') 0, 0⟩ =
      Binary64.infinity := by
    decide +kernel
  have hlength : 0 < (List.replicate 309 '9').length := by
    rw [List.length_replicate]
    exact Nat.zero_lt_succ 308
  have hread := parse_digits hdigits (List.ne_nil_of_length_pos hlength)
  rw [hbits] at hread
  exact hread

/-- A literal that is too large is read as infinity, whose text is a name. -/
theorem reparse_hugeLiteral :
    let infinite := number (Binary64.toFloat false Binary64.infinity)
    parseSource hugeLiteral = .ok [infinite] ∧ infinite.height ≤ 127 ∧
      parseSource infinite.text = .ok [infinite.reread] := by
  intro infinite
  have hlow : infinite.height ≤ 127 := Nat.zero_le _
  exact ⟨parse_hugeLiteral, hlow, (reparse_text parse_hugeLiteral List.mem_cons_self).2.1 hlow⟩

/-- Operators one behind the other, without parentheses. -/
def chain : Nat → Expr
  | 0 => identifier "x"
  | n + 1 => binary .add (identifier "x") (chain n)

/-- The text of a chain of operators without parentheses. -/
def chainText : Nat → List Char
  | 0 => ['x']
  | n + 1 => '+' :: ' ' :: 'x' :: ' ' :: chainText n

/-- A proper name is printable. -/
theorem printable_identifier {name : String} (h : IsName name) : (identifier name).Printable := by
  refine ⟨?_, nofun, trivial⟩
  intro other hother
  rw [List.mem_singleton.mp hother]
  exact h

/-- Each operator in a chain is one level above the next. -/
theorem height_chain (n : Nat) : (chain n).height = n := by
  induction n with
  | zero => rfl
  | succ n ih => simp [chain, height, ih]

/-- The name in a chain is one. -/
theorem isName_x : IsName "x" := by
  refine ⟨⟨'x', [], rfl, rfl, nofun⟩, ?_⟩
  intro keyword
  cases keyword <;> decide

/-- A chain can be printed, however long it is. -/
theorem printable_chain (n : Nat) : (chain n).Printable := by
  have hx := printable_identifier isName_x
  induction n with
  | zero => exact hx
  | succ n ih =>
    refine ⟨?_, ?_, trivial, ih.parametersDistinct⟩
    · intro name hname
      rcases List.mem_append.mp hname with hname | hname
      · exact hx.names name hname
      · exact ih.names name hname
    · exact ih.numbers

/-- A chain takes one level for each operator, and one for the name at its end. -/
theorem exists_derives_chain (n : Nat) :
    ∃ words, Reads (chainText n) words ∧
      ∀ tokens : List Token, tokens.map word = words → Derives (n + 1) tokens (chain n) := by
  induction n with
  | zero =>
    have hfits : Fits .identifier "x".toList [] := .identifier isName_x nofun
    have hreads := hfits.reads Reads.nil
    refine ⟨_, hreads, fun tokens htokens => ?_⟩
    obtain ⟨token, _, rfl, htoken, hnil⟩ := List.map_eq_cons_iff.mp htokens
    have hlexeme : token.lexeme = "x" := congrArg Prod.snd htoken
    rw [List.map_eq_nil_iff.mp hnil, chain, ← hlexeme]
    exact .identifier (congrArg Prod.fst htoken)
  | succ n ih =>
    obtain ⟨words, hreads, hderives⟩ := ih
    have hstop : ∀ c ∈ (' ' :: chainText n).head?, c.isAlphanum = false := by
      rintro c ⟨⟩
      rfl
    have hoperator : Fits .operator ['+'] (' ' :: 'x' :: ' ' :: chainText n) := .operator (.inl rfl)
    have hname := (Fits.identifier isName_x hstop).reads hreads.space
    refine ⟨_, hoperator.reads (Reads.space hname), fun tokens htokens => ?_⟩
    obtain ⟨plus, _, rfl, hplus, htokens⟩ := List.map_eq_cons_iff.mp htokens
    obtain ⟨left, right, rfl, hleft, hright⟩ := List.map_eq_cons_iff.mp htokens
    have hsymbol : Operator.ofSymbol? plus.lexeme = some .add := by
      rw [show plus.lexeme = "+" from congrArg Prod.snd hplus]
      rfl
    have hlexeme : left.lexeme = "x" := congrArg Prod.snd hleft
    have hlhs : Derives (n + 1) [left] (.identifier left.lexeme) :=
      .identifier (congrArg Prod.fst hleft)
    rw [hlexeme] at hlhs
    exact .binary (congrArg Prod.fst hplus) hsymbol hlhs (hderives right hright)

/-- A chain is read if it has no more operators than there are levels below the first. -/
theorem parse_chain {n : Nat} (h : n < maxNesting) :
    parseSource (String.ofList (chainText n)) = .ok [chain n] := by
  obtain ⟨words, hreads, hderives⟩ := exists_derives_chain n
  rw [← @String.toList_ofList (chainText n)] at hreads
  obtain ⟨tokens, htokens, hwords⟩ := hreads.ofSource
  exact parseSource_eq_ok_singleton.mpr ⟨tokens, htokens, (hderives tokens hwords).mono h⟩

/-- Not everything that is read from a source is read back from its text: a literal that is too
large comes back as a name, and a long chain does not come back at all. -/
theorem exists_text_not_reparsed :
    (∃ source e, parseSource source = .ok [e] ∧ parseSource e.text = .ok [identifier "inf"] ∧
      parseSource e.text ≠ .ok [e]) ∧
    ∃ source e offset, parseSource source = .ok [e] ∧
      parseSource e.text = .error (.parse (.tooDeep offset)) := by
  have hname : parseSource (identifier "inf").text = .ok [identifier "inf"] :=
    (printable_identifier isName_special.1).parse_text (Nat.zero_le _)
  have hsize := Binary64.magnitude_toFloat (Nat.le_refl Binary64.infinity)
  have hliteral : IsLiteral (Binary64.toFloat false Binary64.infinity) :=
    ⟨Binary64.isNegative_toFloat (Nat.le_refl _), Nat.le_of_eq hsize⟩
  have htext := text_reread_number hliteral
  rw [reread, hsize, if_neg (Nat.lt_irrefl _)] at htext
  constructor
  · refine ⟨hugeLiteral, _, parse_hugeLiteral, ?_, ?_⟩
    · rw [← htext]
      exact hname
    · rw [← htext, hname]
      simp
  · have hlow : 128 < maxNesting := by decide
    obtain ⟨offset, hdeep⟩ := (printable_chain 128).parse_text_tooDeep (by simp [height_chain])
    exact ⟨_, chain 128, offset, parse_chain hlow, hdeep⟩

end Expr

end LambdaArith

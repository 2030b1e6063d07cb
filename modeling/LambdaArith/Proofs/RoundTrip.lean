import LambdaArith.Error
import LambdaArith.Proofs.Marks
import LambdaArith.Proofs.ProgramGrammar
import LambdaArith.Proofs.Reading

/-!
# Printed expressions read back

The text of an expression is a program of one expression equal to it exactly if the expression is
printable and not too high. That nothing else reads back by accident is a matter of counting: a
minus sign would be an operator too many, and the word for a special number a name too many.
-/

namespace LambdaArith

open Token

variable {e other : Expr}

/-- The tokens of an expression with proper names are its words. -/
theorem exists_tokens_of_text (hnames : ∀ name ∈ e.names, IsName name) :
    ∃ tokens, Token.ofSource e.text = .ok tokens ∧ tokens.map word = e.words := by
  have hread := Expr.reads_text hnames (fun c hc => by cases hc) Reads.nil
  rw [List.append_nil, List.append_nil] at hread
  exact hread.ofSource

/-- A source is read as its tokens are. -/
theorem parseSource_eq_ok_iff {source : String} {exprs : List Expr} :
    parseSource source = .ok exprs ↔
      ∃ tokens, Token.ofSource source = .ok tokens ∧ parseProgram tokens = .ok exprs := by
  unfold parseSource
  constructor
  · intro h
    split at h
    · cases h
    · rename_i tokens htokens
      split at h
      · cases h
      · rename_i exprs' hexprs
        cases h
        exact ⟨tokens, htokens, hexprs⟩
  · rintro ⟨tokens, htokens, hexprs⟩
    rw [htokens]
    dsimp only
    rw [hexprs]

/-- A source is a program of one expression exactly if its tokens derive that expression. -/
theorem parseSource_eq_ok_singleton {source : String} :
    parseSource source = .ok [e] ↔
      ∃ tokens, Token.ofSource source = .ok tokens ∧ Derives maxNesting tokens e := by
  rw [parseSource_eq_ok_iff]
  constructor
  · rintro ⟨tokens, htokens, hprogram⟩
    exact ⟨tokens, htokens, derivesEach_singleton.mp (parseProgram_eq_ok_iff.mp hprogram).2⟩
  · rintro ⟨tokens, htokens, hderives⟩
    exact ⟨tokens, htokens,
      parseProgram_eq_ok_iff.mpr ⟨hderives.ne_nil, derivesEach_singleton.mpr hderives⟩⟩

/-- The text of a printable expression that is not too high reads back. -/
theorem Expr.Printable.parse_text (h : e.Printable) (hheight : e.height ≤ 127) :
    parseSource e.text = .ok [e] := by
  obtain ⟨tokens, htokens, hwords⟩ := exists_tokens_of_text h.names
  have hlevels : 2 * e.height + 1 ≤ maxNesting := by
    unfold maxNesting
    omega
  exact parseSource_eq_ok_singleton.mpr ⟨tokens, htokens, (h.derives hwords).mono hlevels⟩

/-- The text of a printable expression that is too high is nested too deep. -/
theorem Expr.Printable.parse_text_tooDeep (h : e.Printable) (hheight : 127 < e.height) :
    ∃ offset, parseSource e.text = .error (.parse (.tooDeep offset)) := by
  obtain ⟨tokens, htokens, hwords⟩ := exists_tokens_of_text h.names
  have hlevels : maxNesting ≤ 2 * e.height := by
    unfold maxNesting
    omega
  obtain ⟨offset, herror⟩ := h.tooDeep hwords hlevels [] 0
  rw [List.append_nil] at herror
  have hne : tokens ≠ [] := by
    rintro rfl
    cases herror
  refine ⟨offset, ?_⟩
  rw [parseSource, htokens]
  dsimp only
  rw [parseProgram_of_error hne herror]

/-- What reads back as an equal expression is printable. -/
theorem printable_of_parse_text (hparse : parseSource e.text = .ok [other])
    (heq : (other == e) = true) : e.Printable := by
  have hskeleton : other.skeleton = e.skeleton := Expr.skeleton_eq_of_beq heq
  obtain ⟨tokens, htokens, hderives⟩ := parseSource_eq_ok_singleton.mp hparse
  have hreads : Reads e.text.toList (tokens.map word) := ofSource_eq_ok htokens
  have hnames : ∀ name ∈ e.names, IsName name := by
    intro name hname
    rw [← e.names_skeleton, ← hskeleton, other.names_skeleton] at hname
    exact hreads.isName (hderives.mem_words hname)
  have hwords : tokens.map word = e.words := by
    obtain ⟨tokens', htokens', hwords⟩ := exists_tokens_of_text hnames
    rw [htokens, Except.ok.injEq] at htokens'
    rw [htokens', hwords]
  have hmarks : other.marks = e.marks := by
    rw [← other.marks_skeleton, hskeleton, e.marks_skeleton]
  have hcount : (e.numbers.flatMap numberWords).countP isMark = 0 := by
    have hderived := hderives.countP_isMark
    rw [hwords, e.countP_words] at hderived
    omega
  refine ⟨hnames, fun x hx => finite_of_numberWords fun word hword => ?_, ?_⟩
  · exact List.countP_eq_zero.mp hcount word (List.mem_flatMap.mpr ⟨x, hx, hword⟩)
  · rw [← e.parametersDistinct_skeleton, ← hskeleton, other.parametersDistinct_skeleton]
    exact hderives.parametersDistinct

/-- The text of an expression is read as one expression equal to it exactly if its names are
proper, its numbers are finite with a clear sign, no lambda repeats a parameter, and it is at most
127 high. If only the height is too much, the error says that the nesting is too deep. -/
theorem Expr.parse_text_iff (e : Expr) :
    ((∃ other, parseSource e.text = .ok [other] ∧ (other == e) = true) ↔
      e.Printable ∧ e.height ≤ 127) ∧
    (e.Printable → 127 < e.height →
      ∃ offset, parseSource e.text = .error (.parse (.tooDeep offset))) := by
  refine ⟨⟨?_, ?_⟩, fun h hheight => h.parse_text_tooDeep hheight⟩
  · rintro ⟨other, hparse, heq⟩
    have hprintable := printable_of_parse_text hparse heq
    refine ⟨hprintable, Nat.le_of_not_lt fun hheight => ?_⟩
    obtain ⟨offset, herror⟩ := hprintable.parse_text_tooDeep hheight
    rw [hparse] at herror
    cases herror
  · rintro ⟨hprintable, hheight⟩
    exact ⟨e, hprintable.parse_text hheight,
      Expr.beq_self fun x hx => (hprintable.numbers x hx).1⟩

end LambdaArith

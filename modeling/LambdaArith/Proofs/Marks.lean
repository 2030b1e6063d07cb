import LambdaArith.Proofs.Grammar
import LambdaArith.Proofs.Spelling

/-!
# Operators and names are counted

An expression is derived from tokens that show each of its names, and as many operators and names
as it has. A number that has to be written with an operator or a name is found out by counting
them.
-/

namespace LambdaArith

open Token

/-- Operators and names are marks. -/
def TokenKind.isMark : TokenKind → Bool
  | .operator => true
  | .identifier => true
  | _ => false

/-- Whether a word is an operator or a name. -/
def isMark (word : Word) : Bool :=
  word.1.isMark

variable {levels : Nat} {tokens : List Token} {e : Expr}

/-- A token of one of the classes of marks is a mark. -/
theorem isMark_word {token : Token} {kind : TokenKind} (h : token.kind = kind)
    (hkind : kind.isMark = true) : isMark token.word = true := by
  rw [isMark, word, h, hkind]

/-- A token of any other class is none. -/
theorem not_isMark_word {token : Token} {kind : TokenKind} (h : token.kind = kind)
    (hkind : kind.isMark = false) : ¬ isMark token.word = true := by
  rw [isMark, word, h, hkind]
  exact Bool.false_ne_true

/-- Every name of an expression is the spelling of an identifier that it is derived from. -/
theorem Derives.mem_words (h : Derives levels tokens e) {name : String} (hname : name ∈ e.names) :
    (.identifier, name) ∈ tokens.map word := by
  induction h with
  | number => cases hname
  | @identifier _ token hkind =>
    rw [List.mem_singleton.mp hname, List.map_singleton, word, hkind]
    exact List.mem_cons_self
  | paren _ _ _ ih =>
    rw [List.map_cons, List.map_append]
    exact List.mem_cons_of_mem _ (List.mem_append_left _ (ih hname))
  | binary _ _ _ _ ihl ihr =>
    rw [List.map_cons, List.map_append]
    refine List.mem_cons_of_mem _ (List.mem_append.mpr ?_)
    rcases List.mem_append.mp hname with hleft | hright
    · exact .inl (ihl hleft)
    · exact .inr (ihr hright)
  | @define _ _ defined _ _ _ _ hkind _ ih =>
    rw [List.map_cons, List.map_cons]
    refine List.mem_cons_of_mem _ ?_
    rcases List.mem_cons.mp hname with rfl | hvalue
    · rw [word, hkind]
      exact List.mem_cons_self
    · exact List.mem_cons_of_mem _ (ih hvalue)
  | lambda _ _ _ hkinds _ _ _ ih =>
    rw [List.map_cons, List.map_cons, List.map_append, List.map_cons]
    refine List.mem_cons_of_mem _ (List.mem_cons_of_mem _ (List.mem_append.mpr ?_))
    rcases List.mem_append.mp hname with hparameter | hbody
    · obtain ⟨parameter, hmem, rfl⟩ := List.mem_map.mp hparameter
      refine .inl (List.mem_map.mpr ⟨parameter, hmem, ?_⟩)
      rw [word, hkinds parameter hmem]
    · exact .inr (List.mem_cons_of_mem _ (ih hbody))

/-- No lambda of an expression that is derived repeats a parameter. -/
theorem Derives.parametersDistinct (h : Derives levels tokens e) : e.ParametersDistinct := by
  induction h with
  | number => exact trivial
  | identifier => exact trivial
  | paren _ _ _ ih => exact ih
  | binary _ _ _ _ ihl ihr => exact ⟨ihl, ihr⟩
  | define _ _ _ _ ih => exact ih
  | lambda _ _ _ _ hdistinct _ _ ih => exact ⟨hdistinct, ih⟩

/-- An expression is derived from as many marks as it has operators and names. -/
theorem Derives.countP_isMark (h : Derives levels tokens e) :
    (tokens.map word).countP isMark = e.marks := by
  induction h with
  | number hkind =>
    rw [List.map_singleton, List.countP_singleton, if_neg (not_isMark_word hkind rfl)]
    rfl
  | identifier hkind =>
    rw [List.map_singleton, List.countP_singleton, if_pos (isMark_word hkind rfl)]
    rfl
  | paren hopen _ hclose ih =>
    rw [List.map_cons, List.map_append, List.map_singleton,
      List.countP_cons_of_neg (not_isMark_word hopen rfl), List.countP_append, ih,
      List.countP_singleton, if_neg (not_isMark_word hclose rfl), Nat.add_zero]
  | binary hkind _ _ _ ihl ihr =>
    rw [List.map_cons, List.map_append, List.countP_cons_of_pos (isMark_word hkind rfl),
      List.countP_append, ihl, ihr]
    rfl
  | define hkind _ hname _ ih =>
    rw [List.map_cons, List.map_cons, List.countP_cons_of_neg (not_isMark_word hkind rfl),
      List.countP_cons_of_pos (isMark_word hname rfl), ih]
    rfl
  | @lambda _ _ _ _ names _ body hkind _ hopen hnames _ hclose _ ih =>
    have hall : (names.map word).countP isMark = names.length := by
      rw [List.countP_map, List.countP_eq_length]
      exact fun name hname => isMark_word (hnames name hname) rfl
    rw [List.map_cons, List.map_cons, List.map_append, List.map_cons,
      List.countP_cons_of_neg (not_isMark_word hkind rfl),
      List.countP_cons_of_neg (not_isMark_word hopen rfl), List.countP_append, hall,
      List.countP_cons_of_neg (not_isMark_word hclose rfl), ih, Expr.marks, List.length_map]

/-- Parentheses are no marks. -/
theorem countP_isMark_closeParen {text : String} :
    [((.closeParen, text) : Word)].countP isMark = 0 :=
  rfl

/-- An expression is written with as many marks as it has operators and names, and with those that
its numbers are written with. -/
theorem Expr.countP_words (e : Expr) :
    e.words.countP isMark = e.marks + (e.numbers.flatMap numberWords).countP isMark := by
  induction e with
  | number x => rw [words, marks, numbers, List.flatMap_singleton, Nat.zero_add]
  | identifier name => rfl
  | binary op lhs rhs ihl ihr =>
    rw [words, marks, numbers, List.countP_cons_of_neg Bool.false_ne_true,
      List.countP_cons_of_pos rfl, List.countP_append, List.countP_append, ihl, ihr,
      countP_isMark_closeParen, List.flatMap_append, List.countP_append]
    omega
  | define name value ih =>
    rw [words, marks, numbers, List.countP_cons_of_neg Bool.false_ne_true,
      List.countP_cons_of_neg Bool.false_ne_true, List.countP_cons_of_pos rfl,
      List.countP_append, ih, countP_isMark_closeParen]
    omega
  | lambda parameters body ih =>
    have hparameters : (parameters.map fun name => ((.identifier, name) : Word)).countP isMark =
        parameters.length := by
      rw [List.countP_map, List.countP_eq_length]
      exact fun _ _ => rfl
    rw [words, marks, numbers, List.countP_cons_of_neg Bool.false_ne_true,
      List.countP_cons_of_neg Bool.false_ne_true, List.countP_cons_of_neg Bool.false_ne_true,
      List.countP_append, hparameters, List.countP_cons_of_neg Bool.false_ne_true,
      List.countP_append, ih, countP_isMark_closeParen]
    omega

/-- A number that is written without a mark is finite and has a clear sign. -/
theorem finite_of_numberWords {x : Float} (h : ∀ word ∈ numberWords x, ¬ isMark word = true) :
    Binary64.magnitude x < Binary64.infinity ∧ Binary64.isNegative x = false := by
  unfold numberWords at h
  split at h
  · exact (h _ List.mem_cons_self rfl).elim
  · rename_i hnumber
    split at h
    · exact (h _ List.mem_cons_self rfl).elim
    · rename_i hsign
      refine ⟨Nat.lt_of_le_of_ne (Nat.le_of_not_lt hnumber) fun hinfinite => ?_,
        Bool.eq_false_iff.mpr hsign⟩
      rw [magnitudeWord, if_pos hinfinite] at h
      exact h _ List.mem_cons_self rfl

end LambdaArith

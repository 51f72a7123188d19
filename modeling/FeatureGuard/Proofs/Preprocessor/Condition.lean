import FeatureGuard.Proofs.Condition.Meaning

/-!
Conditions as the preprocessor reads them. The operands of a condition ask whether a macro is
defined, and rendered conditions ask for nothing else; conditions that do are not read here. The
rendered text of a condition is read as the formula that its own text states.
-/

namespace FeatureGuard

namespace Preprocessor

/-! ### Reading a condition -/

def isWordChar (c : Char) : Bool := c.isAlphanum || c == '_'

/-- Puts a character in front of a text whose symbols are known: it is part of the word that the
text begins with, or else a word on its own. -/
def prepend (c : Char) (rest : Text) (symbols : List (Symbol Text)) : List (Symbol Text) :=
  match rest.head?.any isWordChar, symbols with
  | true, .operand word :: symbols => .operand (c :: word) :: symbols
  | _, symbols => .operand [c] :: symbols

/-- The words and the symbols of a condition. A word is as long as possible. -/
def lex : Text → Option (List (Symbol Text))
  | [] => some []
  | '(' :: rest => (lex rest).map (.opening :: ·)
  | ')' :: rest => (lex rest).map (.closing :: ·)
  | '!' :: rest => (lex rest).map (.not :: ·)
  | '&' :: '&' :: rest => (lex rest).map (.and :: ·)
  | '|' :: '|' :: rest => (lex rest).map (.or :: ·)
  | c :: rest =>
    if c = ' ' ∨ c = '\t' then lex rest
    else if isWordChar c then (lex rest).map (prepend c rest)
    else none

/-- Whether a word can be the name of a macro; the other words are numbers. -/
def isMacroName (word : Text) : Bool := word.head?.any (!·.isDigit)

/-- Puts the name of a macro in the place of the question whether it is defined. -/
def ask : List (Symbol Text) → Option (List (Symbol Text))
  | [] => some []
  | .operand word :: .opening :: .operand name :: .closing :: rest =>
    if word = "defined" ∧ isMacroName name then (ask rest).map (.operand name :: ·) else none
  | .operand word :: .operand name :: rest =>
    if word = "defined" ∧ isMacroName name then (ask rest).map (.operand name :: ·) else none
  | .operand _ :: _ => none
  | symbol :: rest => (ask rest).map (symbol :: ·)

/-- Reads a condition as a formula over names of macros. -/
def readCondition (t : Text) : Option (Formula Text) :=
  ((lex t).bind ask).bind Formula.ofSymbols

/-! ### Words -/

theorem lex_cons_of_isWordChar {c : Char} (hc : isWordChar c = true) (rest : Text) :
    lex (c :: rest) = (lex rest).map (prepend c rest) := by
  have hne : ∀ d : Char, isWordChar d = false → c ≠ d := by
    rintro d hd rfl
    exact Bool.noConfusion (hc.symm.trans hd)
  rw [lex]
  · have hblank : ¬(c = ' ' ∨ c = '\t') := not_or.2 ⟨hne ' ' (by decide), hne '\t' (by decide)⟩
    rw [if_neg hblank, if_pos hc]
  · exact hne '(' (by decide)
  · exact hne ')' (by decide)
  · exact hne '!' (by decide)
  · exact fun _ h _ => hne '&' (by decide) h
  · exact fun _ h _ => hne '|' (by decide) h

theorem lex_append {word rest : Text} (hne : word ≠ []) (hword : ∀ c ∈ word, isWordChar c = true)
    (hrest : rest.head?.any isWordChar = false) :
    lex (word ++ rest) = (lex rest).map (.operand word :: ·) := by
  induction word with
  | nil => exact absurd rfl hne
  | cons c word ih =>
      obtain ⟨hc, hword⟩ := List.forall_mem_cons.1 hword
      rw [List.cons_append, lex_cons_of_isWordChar hc]
      cases word with
      | nil =>
          congr 1
          funext symbols
          simp only [List.nil_append, prepend, hrest]
      | cons d word =>
          have hd : (d :: word ++ rest).head?.any isWordChar = true :=
            hword d List.mem_cons_self
          rw [ih (List.cons_ne_nil _ _) hword, Option.map_map]
          congr 1
          funext symbols
          simp only [Function.comp_apply, prepend, hd]

theorem isWordChar_of_isLater {c : Char} (h : Name.isLater c = true) : isWordChar c = true := by
  have hword : isWordChar c = (c.isUpper || c.isLower || c.isDigit || c == '_') := rfl
  have hlater : Name.isLater c = (c.isUpper || c == '_' || c.isDigit) := rfl
  rw [hlater, Bool.or_eq_true, Bool.or_eq_true] at h
  rw [hword, Bool.or_eq_true, Bool.or_eq_true, Bool.or_eq_true]
  rcases h with (h | h) | h
  · exact Or.inl (Or.inl (Or.inl h))
  · exact Or.inr h
  · exact Or.inl (Or.inr h)

theorem isWordChar_of_mem_name {n : Name} {c : Char} (hc : c ∈ n.text) :
    isWordChar c = true := by
  obtain ⟨text, form⟩ := n
  cases text with
  | nil => cases hc
  | cons d r =>
      simp only [Name.hasForm, Bool.and_eq_true, List.all_eq_true] at form
      apply isWordChar_of_isLater
      rcases List.mem_cons.1 hc with rfl | hc
      · simp [Name.isLater, form.1]
      · exact form.2 c hc

theorem not_isDigit_of_isInitial {c : Char} (h : Name.isInitial c = true) :
    c.isDigit = false := by
  by_contra hdigit
  rw [Bool.not_eq_false, Char.isDigit_iff_toNat] at hdigit
  rw [Name.isInitial, Bool.or_eq_true, beq_iff_eq] at h
  rcases h with h | rfl
  · have hupper : 'A'.val ≤ c.val ∧ c.val ≤ 'Z'.val := of_decide_eq_true h
    have hlower : 'A'.toNat ≤ c.toNat := hupper.1
    have hletter : '9'.toNat < 'A'.toNat := by decide
    omega
  · revert hdigit
    decide

theorem isMacroName_text (n : Name) : isMacroName n.text = true := by
  obtain ⟨text, form⟩ := n
  cases text with
  | nil => cases form
  | cons c r =>
      simp only [Name.hasForm, Bool.and_eq_true] at form
      simp [isMacroName, not_isDigit_of_isInitial form.1]

theorem lex_name {n : Name} {rest : Text} (hrest : rest.head?.any isWordChar = false) :
    lex (n.text ++ rest) = (lex rest).map (.operand n.text :: ·) := by
  refine lex_append ?_ (fun c hc => isWordChar_of_mem_name hc) hrest
  intro hnil
  have := isMacroName_text n
  rw [hnil] at this
  cases this

/-! ### Rendered conditions -/

/-- The words and symbols of the rendered text of a token. -/
def lexemes : Token → List (Symbol Text)
  | .name n => [.operand "defined", .opening, .operand n.text, .closing]
  | token => [token.symbol.map Name.text]

theorem lex_blank (rest : Text) : lex (' ' :: rest) = lex rest := rfl

theorem lex_rendered (token : Token) (rest : Text) :
    lex (token.rendered ++ rest) = (lex rest).map (lexemes token ++ ·) := by
  cases token with
  | name n =>
      have hall : ("defined" : Text).all isWordChar = true := by decide +kernel
      have hword : ∀ c ∈ ("defined" : Text), isWordChar c = true := List.all_eq_true.1 hall
      have htext : (Token.name n).rendered ++ rest =
          ("defined" : Text) ++ '(' :: (n.text ++ ')' :: rest) := by
        have hrendered : (Token.name n).rendered =
            ("defined" : Text) ++ ['('] ++ n.text ++ [')'] := rfl
        rw [hrendered, List.append_assoc, List.append_assoc, List.append_assoc]
        rfl
      have hname : lex (n.text ++ ')' :: rest) =
          (lex (')' :: rest)).map (.operand n.text :: ·) := lex_name rfl
      rw [htext, lex_append (by decide) hword rfl, lex, hname, lex]
      simp only [Option.map_map]
      rfl
  | _ => rfl

theorem lex_render (tokens : List Token) :
    lex (Token.render tokens) = some (tokens.flatMap lexemes) := by
  induction tokens with
  | nil => rfl
  | cons left rest ih =>
      cases rest with
      | nil =>
          have := lex_rendered left []
          rw [List.append_nil] at this
          rw [Token.render, this]
          simp [lex]
      | cons right rest =>
          rw [Token.render, List.append_assoc, lex_rendered]
          split
          · show (lex (' ' :: Token.render (right :: rest))).map _ = _
            rw [lex_blank, ih]
            rfl
          · show (lex (Token.render (right :: rest))).map _ = _
            rw [ih]
            rfl

theorem ask_lexemes (tokens : List Token) :
    ask (tokens.flatMap lexemes) = some ((tokens.map Token.symbol).map (Symbol.map Name.text)) := by
  induction tokens with
  | nil => rfl
  | cons token rest ih =>
      rw [List.flatMap_cons]
      cases token with
      | name n =>
          simp only [lexemes, List.cons_append, List.nil_append, ask, isMacroName_text, and_self,
            if_true, ih]
          rfl
      | _ =>
          show (ask (rest.flatMap lexemes)).map _ = _
          rw [ih]
          rfl

/-- The preprocessor reads a rendered condition as the formula that the tokens spell. -/
theorem readCondition_render {tokens : List Token} {f : Formula Name}
    (hf : Spells .sum (tokens.map Token.symbol) f) :
    readCondition (Token.render tokens) = some (f.map Name.text) := by
  rw [readCondition, lex_render, Option.bind_some, ask_lexemes, Option.bind_some,
    Formula.ofSymbols_eq_some_iff]
  exact hf.map Name.text

end Preprocessor

/-- The rendered text of a condition means to the preprocessor what its own text states. -/
theorem Condition.exists_readCondition {t : Text} {c : Condition} (h : ofText t = .ok c) :
    ∃ f, Preprocessor.readCondition c.rendered = some f ∧
      ∀ macros : Set Text, f.Holds (· ∈ macros) ↔ HoldsIn t macros := by
  obtain ⟨tokens, htokens, ⟨f, hf⟩, rfl⟩ := ofText_eq_ok_iff.1 h
  refine ⟨f.map Name.text, Preprocessor.readCondition_render hf, fun macros => ?_⟩
  have hstates : States t f := ⟨tokens, htokens, hf⟩
  rw [hstates.holdsIn_iff, Formula.holds_map]

end FeatureGuard

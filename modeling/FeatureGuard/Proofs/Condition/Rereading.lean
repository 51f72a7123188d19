import Mathlib.Data.Set.Insert
import FeatureGuard.Proofs.Condition.Grammar

/-!
Reading the two spellings of a condition again. The preprocessor reads the rendered spelling as the
formula that the source states. The tokens of a condition do not show how its words are laid out, so
that the spelling with single blanks is read as the same condition again.
-/

namespace FeatureGuard

/-! ### The rendered spelling -/

namespace Condition

/-- The preprocessor reads the rendered text of a condition. It finds the only formula that the
tokens of the source spell, and which macros are defined matters for the references alone. -/
theorem preprocessor_reads_rendered {t : Text} {c : Condition} (h : ofText t = .ok c) :
    ∃ f : Formula Name,
      (∃ tokens, Token.Splits t tokens ∧ Spells .sum (tokens.map Token.symbol) f) ∧
      (∀ tokens g, Token.Splits t tokens → Spells .sum (tokens.map Token.symbol) g → g = f) ∧
      ∃ rendered, Preprocessor.readCondition c.rendered = some rendered ∧
        (∀ macros : Set Text, rendered.Holds (· ∈ macros) ↔ f.Holds fun n => n.text ∈ macros) ∧
        ∀ macros others : Set Text,
          (∀ n ∈ c.references, n.text ∈ macros ↔ n.text ∈ others) →
            (rendered.Holds (· ∈ macros) ↔ rendered.Holds (· ∈ others)) := by
  obtain ⟨tokens, htokens, ⟨f, hf⟩, -⟩ := ofText_eq_ok_iff.1 h
  have hstates : States t f := ⟨tokens, htokens, hf⟩
  obtain ⟨rendered, hread, hmeaning⟩ := exists_readCondition h
  refine ⟨f, ⟨tokens, Token.scan_eq_ok_iff.1 htokens, hf⟩, ?_, rendered, hread, ?_, ?_⟩
  · intro others g hothers hg
    exact States.unique ⟨others, Token.scan_eq_ok_iff.2 hothers, hg⟩ hstates
  · intro macros
    rw [hmeaning, hstates.holdsIn_iff]
  · intro macros others hnames
    rw [hmeaning, hmeaning]
    exact holdsIn_congr h hnames

/-- Negations in front of names and parentheses, and all three operators without parentheses. -/
def nested : Text := "not A or B and!(C||not(A)) and not not D"

theorem preprocessor_reads_nested : ∃ (c : Condition) (f : Formula Name) (rendered : Formula Text),
    ofText nested = .ok c ∧ Preprocessor.readCondition c.rendered = some rendered ∧
    (∀ macros : Set Text, rendered.Holds (· ∈ macros) ↔ f.Holds fun n => n.text ∈ macros) ∧
    (rendered.Holds (· ∈ ({['A'], ['E']} : Set Text)) ↔
      rendered.Holds (· ∈ ({['A']} : Set Text))) := by
  let c : Condition :=
    { human := nested
      rendered := "!defined(A) || defined(B) && !(defined(C) || !(defined(A))) && !!defined(D)"
      references := [⟨"A", rfl⟩, ⟨"B", rfl⟩, ⟨"C", rfl⟩, ⟨"D", rfl⟩] }
  have hread : ofText nested = .ok c := by decide +kernel
  obtain ⟨f, -, -, rendered, hrendered, hmeaning, hreferences⟩ := preprocessor_reads_rendered hread
  refine ⟨c, f, rendered, hread, hrendered, hmeaning, hreferences _ _ ?_⟩
  simp only [c, List.forall_mem_cons, Set.mem_insert_iff, Set.mem_singleton_iff]
  exact ⟨by decide, by decide, by decide, by decide, List.forall_mem_nil _⟩

end Condition

/-! ### Words and tokens -/

namespace Token

theorem isWordChar_of_isBlank {c : Char} (hc : Text.isBlank c = true) : isWordChar c = false := by
  by_contra hword
  exact Bool.noConfusion (hc.symm.trans (isBlank_of_isWordChar (Bool.not_eq_false _ ▸ hword)))

theorem IsSymbol.not_isBlank {symbol : Text} {token : Token} (h : IsSymbol symbol token) :
    ∀ c ∈ symbol, Text.isBlank c = false := by
  have hsolid : symbol.Solid := by
    cases h <;> exact Text.solid_of_all (by decide) (by decide)
  exact hsolid.not_blank

/-- No symbol has a blank in it. -/
theorem symbol?_append_blank {t : Text} {c : Char} (hc : Text.isBlank c = true) (rest : Text) :
    symbol? (t ++ c :: rest) =
      (symbol? t).map fun (token, after) => (token, after ++ c :: rest) := by
  cases hsymbol : symbol? t with
  | some found =>
      obtain ⟨token, after⟩ := found
      obtain ⟨symbol, hspells, rfl⟩ := symbol?_eq_some_iff.1 hsymbol
      exact symbol?_eq_some_iff.2 ⟨symbol, hspells, List.append_assoc ..⟩
  | none =>
      rw [Option.map_none, Option.eq_none_iff_forall_not_mem]
      rintro ⟨token, after⟩ hlater
      obtain ⟨symbol, hspells, heq⟩ := symbol?_eq_some_iff.1 hlater
      -- a symbol at the beginning would end in front of the blank
      rcases List.append_eq_append_iff.1 heq with ⟨others, hothers, hrest⟩ | ⟨others, rfl, -⟩
      · cases others with
        | nil =>
            rw [List.append_nil] at hothers
            have hsome := symbol?_eq_some_iff.2 ⟨symbol, hspells, (List.append_nil symbol).symm⟩
            rw [hothers, hsymbol] at hsome
            cases hsome
        | cons d others =>
            obtain ⟨rfl, -⟩ := List.cons_eq_cons.1 hrest
            have hd := hspells.not_isBlank c (hothers ▸ List.mem_append_right _ List.mem_cons_self)
            exact Bool.noConfusion (hc.symm.trans hd)
      · have hsome : symbol? (symbol ++ others) = some (token, others) :=
          symbol?_eq_some_iff.2 ⟨symbol, hspells, rfl⟩
        rw [hsymbol] at hsome
        cases hsome

/-- Tokens do not go on behind a blank. -/
theorem scan_append_blank {c : Char} (hc : Text.isBlank c = true) (a b : Text) :
    scan (a ++ c :: b) = do return (← scan a) ++ (← scan b) := by
  fun_induction scan a with
  | case1 =>
      rw [List.nil_append, scan, if_pos hc]
      cases scan b <;> rfl
  | case2 d r hblank ih => rw [List.cons_append, scan, if_pos hblank, ih]
  | case3 d r hblank hword word token htoken ih =>
      have hstop := isWordChar_of_isBlank hc
      rw [List.cons_append, scan, if_neg hblank, if_pos hword,
        Text.takeWhile_append_cons hstop, Text.dropWhile_append_cons hstop, ih]
      have hfirst : ofWord? (d :: r.takeWhile isWordChar) = some token := htoken
      simp only [hfirst]
      cases scan (r.dropWhile isWordChar) with
      | error flaw => rfl
      | ok tokens => cases scan b <;> rfl
  | case4 d r hblank hword word htoken =>
      have hstop := isWordChar_of_isBlank hc
      rw [List.cons_append, scan, if_neg hblank, if_pos hword, Text.takeWhile_append_cons hstop]
      have hfirst : ofWord? (d :: r.takeWhile isWordChar) = none := htoken
      simp only [hfirst]
      rfl
  | case5 d r hblank hword token rest hsymbol _ ih =>
      have hlater := symbol?_append_blank (t := d :: r) hc b
      rw [hsymbol, Option.map_some, List.cons_append] at hlater
      rw [List.cons_append, scan, if_neg hblank, if_neg hword]
      split
      · rename_i found
        cases hlater.symm.trans found
        rw [ih]
        cases scan rest with
        | error flaw => rfl
        | ok tokens => cases scan b <;> rfl
      · rename_i hnone
        cases hlater.symm.trans hnone
  | case6 d r hblank hword hsymbol =>
      have hlater := symbol?_append_blank (t := d :: r) hc b
      rw [hsymbol, Option.map_none, List.cons_append] at hlater
      rw [List.cons_append, scan, if_neg hblank, if_neg hword]
      split
      · rename_i found
        cases hlater.symm.trans found
      · rfl

/-- The tokens of a text are those of its words. -/
theorem scan_eq_mapM_words (t : Text) :
    scan t = do return (← (Text.words t).mapM scan).flatten := by
  induction t using Text.separatorInduction Text.isBlank with
  | single field hfield =>
      by_cases hnil : field = []
      · subst hnil
        rw [scan]
        rfl
      · rw [Text.words_of_solid ⟨hnil, hfield⟩]
        cases hscan : scan field with
        | error flaw => simp [hscan, bind, Except.bind]
        | ok tokens => simp [hscan, bind, Except.bind, pure, Except.pure]
  | append field c rest hfield hc ihfield ihrest =>
      rw [scan_append_blank hc, ihfield, ihrest, Text.words_append_cons _ _ hc, List.mapM_append]
      cases (Text.words field).mapM scan with
      | error flaw => rfl
      | ok front =>
          cases (Text.words rest).mapM scan with
          | error flaw => rfl
          | ok back => exact congrArg Except.ok List.flatten_append.symm

end Token

/-! ### The spelling with single blanks -/

namespace Condition

/-- Texts with the same words are read alike. -/
theorem ofText_congr {t t' : Text} (h : Text.words t = Text.words t') : ofText t = ofText t' := by
  have hscan : Token.scan t = Token.scan t' := by
    rw [Token.scan_eq_mapM_words, h, ← Token.scan_eq_mapM_words]
  rw [ofText, ofText, hscan, normalized, normalized, h]

theorem words_normalized (t : Text) : Text.words (normalized t) = Text.words t :=
  Text.words_join fun _ => Text.solid_of_mem_words

theorem normalized_normalized (t : Text) : normalized (normalized t) = normalized t := by
  rw [normalized, words_normalized, ← normalized]

theorem ofText_normalized (t : Text) : ofText (normalized t) = ofText t :=
  ofText_congr (words_normalized t)

theorem human_eq_normalized {t : Text} {c : Condition} (h : ofText t = .ok c) :
    c.human = normalized t := by
  obtain ⟨tokens, -, -, rfl⟩ := ofText_eq_ok_iff.1 h
  rfl

/-- The spelling of a condition with single blanks is read as the condition. -/
theorem ofText_human {t : Text} {c : Condition} (h : ofText t = .ok c) :
    ofText c.human = .ok c := by
  rw [human_eq_normalized h, ofText_normalized, h]

/-- The text consists of words of letters, digits, underscores, parentheses and signs for operators,
with single blanks between the words and nothing else. -/
def SinglySpaced (t : Text) : Prop :=
  ∃ words : List Text, words ≠ [] ∧ t = Text.join " " words ∧ ∀ word ∈ words, word ≠ [] ∧
    ∀ c ∈ word, Token.isWordChar c = true ∨ c ∈ ['(', ')', '!', '&', '|']

theorem singlySpaced_human {t : Text} {c : Condition} (h : ofText t = .ok c) :
    SinglySpaced c.human := by
  have hspelling := (spelling_of_ofText h).1
  rw [human_eq_normalized h] at hspelling ⊢
  refine ⟨Text.words t, ?_, rfl, fun word hword => ⟨(Text.solid_of_mem_words hword).ne_nil, ?_⟩⟩
  · intro hnil
    refine hspelling.ne_nil ?_
    rw [normalized, hnil]
    rfl
  · intro d hd
    have hspelled := hspelling.characters d (Text.mem_join_of_mem hword hd)
    have hblank := (Text.mem_of_mem_words hword hd).2
    rw [isSpelling, Bool.or_eq_true, decide_eq_true_eq, List.mem_cons] at hspelled
    rcases hspelled with hspelled | rfl | hspelled
    · exact .inl hspelled
    · cases hblank
    · exact .inr hspelled

end Condition

end FeatureGuard

import Mathlib.Data.List.Basic
import FeatureGuard.Proofs.Condition.Spelling

/-!
The grammar of conditions. A condition is accepted exactly when its text consists of tokens that an
ambiguous grammar derives: what the grammar leaves open is only which operator binds tighter. The
names that are kept with a condition are those that occur in it, each once.
-/

namespace FeatureGuard

/-! ### First occurrences -/

namespace Sifted

variable {α : Type} [DecidableEq α] {cmp : α → α → Ordering} [Std.TransCmp cmp]
  [Std.LawfulEqCmp cmp]

/-- First occurrences are in the order in which they occur. -/
theorem pairwise_idxOf_first (entries : List α) (seen : Std.TreeSet α cmp) :
    (after seen entries).first.Pairwise fun a b => entries.idxOf a < entries.idxOf b := by
  induction entries generalizing seen with
  | nil => exact List.Pairwise.nil
  | cons first rest ih =>
      -- the first entry is no other first occurrence, so that the others are one place further on
      have hne : ∀ a ∈ (after (seen.insert first) rest).first, a ≠ first := by
        rintro a ha rfl
        exact not_mem_of_mem_first ha (Std.TreeSet.mem_insert.2 (.inl Std.ReflCmp.compare_self))
      have hidx : ∀ a ∈ (after (seen.insert first) rest).first,
          (first :: rest).idxOf a = rest.idxOf a + 1 :=
        fun a ha => List.idxOf_cons_ne rest (hne a ha).symm
      have hrest : (after (seen.insert first) rest).first.Pairwise fun a b =>
          (first :: rest).idxOf a < (first :: rest).idxOf b := by
        refine (ih (seen.insert first)).imp_of_mem fun {a b} ha hb hab => ?_
        rw [hidx a ha, hidx b hb]
        exact Nat.succ_lt_succ hab
      simp only [after]
      split
      · exact hrest
      · refine List.pairwise_cons.2 ⟨fun a ha => ?_, hrest⟩
        rw [hidx a ha, List.idxOf_cons_self]
        exact Nat.succ_pos _

end Sifted

theorem Name.pairwise_idxOf_distinct (names : List Name) :
    (distinct names).Pairwise fun m n => names.idxOf m < names.idxOf n :=
  Sifted.pairwise_idxOf_first names ∅

namespace Token

/-! ### Texts that consist of tokens -/

/-- The words that are tokens: the operators and the names of features. -/
inductive IsWord : Text → Token → Prop
  | and : IsWord "and" and
  | or : IsWord "or" or
  | not : IsWord "not" not
  | name (n : Name) : IsWord n.text (name n)

/-- The symbols that are tokens. -/
inductive IsSymbol : Text → Token → Prop
  | and : IsSymbol "&&" and
  | or : IsSymbol "||" or
  | not : IsSymbol "!" not
  | opening : IsSymbol "(" opening
  | closing : IsSymbol ")" closing

/-- The text consists of the tokens, with blanks around them. Where a word ends, no character
follows that would belong to it. -/
inductive Splits : Text → List Token → Prop
  | nil : Splits [] []
  | blank {c rest tokens} : Text.isBlank c = true → Splits rest tokens → Splits (c :: rest) tokens
  | word {word token rest tokens} : IsWord word token → (∀ c ∈ rest.head?, isWordChar c = false) →
      Splits rest tokens → Splits (word ++ rest) (token :: tokens)
  | symbol {symbol token rest tokens} : IsSymbol symbol token → Splits rest tokens →
      Splits (symbol ++ rest) (token :: tokens)

theorem ofWord?_eq_some_iff {word : Text} {token : Token} :
    ofWord? word = some token ↔ IsWord word token := by
  constructor
  · intro h
    rw [ofWord?] at h
    split at h
    · rename_i hword
      cases h
      exact hword ▸ .and
    split at h
    · rename_i hword
      cases h
      exact hword ▸ .or
    split at h
    · rename_i hword
      cases h
      exact hword ▸ .not
    · obtain ⟨n, hname, rfl⟩ := Option.map_eq_some_iff.1 h
      exact Name.text_of_ofText? hname ▸ .name n
  · intro h
    cases h with
    | name n =>
        have hne : ∀ word : Text, Name.hasForm word = false → n.text ≠ word := by
          rintro word hform rfl
          exact Bool.noConfusion (n.form.symm.trans hform)
        rw [ofWord?, if_neg (hne _ (by decide)), if_neg (hne _ (by decide)),
          if_neg (hne _ (by decide)), Name.ofText?_text]
        rfl
    | _ => decide

theorem symbol?_eq_some_iff {t rest : Text} {token : Token} :
    symbol? t = some (token, rest) ↔ ∃ symbol, IsSymbol symbol token ∧ t = symbol ++ rest := by
  constructor
  · intro h
    unfold symbol? at h
    split at h <;> simp only [Option.some.injEq, Prod.mk.injEq, reduceCtorEq] at h
    all_goals obtain ⟨rfl, rfl⟩ := h
    · exact ⟨_, .opening, rfl⟩
    · exact ⟨_, .closing, rfl⟩
    · exact ⟨_, .not, rfl⟩
    · exact ⟨_, .and, rfl⟩
    · exact ⟨_, .or, rfl⟩
  · rintro ⟨symbol, hsymbol, rfl⟩
    cases hsymbol <;> rfl

theorem IsWord.ne_nil {word : Text} {token : Token} (h : IsWord word token) : word ≠ [] := by
  cases h with
  | name n =>
      intro hnil
      have hform := n.form
      rw [hnil] at hform
      cases hform
  | _ => decide

theorem IsWord.isWordChar {word : Text} {token : Token} (h : IsWord word token) :
    ∀ c ∈ word, Token.isWordChar c = true := by
  cases h with
  | name n => exact fun c hc => Preprocessor.isWordChar_of_mem_name hc
  | _ => exact List.all_eq_true.1 (by decide)

theorem scan_word {word rest : Text} {token : Token} (hword : IsWord word token)
    (hrest : ∀ c ∈ rest.head?, isWordChar c = false) :
    scan (word ++ rest) = (token :: ·) <$> scan rest := by
  have htoken := ofWord?_eq_some_iff.2 hword
  obtain ⟨c, r, rfl⟩ := List.exists_cons_of_ne_nil hword.ne_nil
  obtain ⟨hc, hr⟩ := List.forall_mem_cons.1 hword.isWordChar
  have htake : rest.takeWhile isWordChar = [] := by
    cases rest with
    | nil => rfl
    | cons d rest => exact List.takeWhile_cons_of_neg (Bool.eq_false_iff.1 (hrest d rfl))
  have hdrop : rest.dropWhile isWordChar = rest := by
    cases rest with
    | nil => rfl
    | cons d rest => exact List.dropWhile_cons_of_neg (Bool.eq_false_iff.1 (hrest d rfl))
  have hnot : ¬Text.isBlank c = true := Bool.eq_false_iff.1 (isBlank_of_isWordChar hc)
  rw [List.cons_append, scan, if_neg hnot, if_pos hc, List.takeWhile_append_of_pos hr, htake,
    List.append_nil, List.dropWhile_append_of_pos hr, hdrop]
  simp only [htoken]
  cases scan rest <;> rfl

theorem IsSymbol.head_spec {symbol : Text} {token : Token} (h : IsSymbol symbol token) :
    ∃ c r, symbol = c :: r ∧ Text.isBlank c = false ∧ isWordChar c = false := by
  cases h <;> exact ⟨_, _, rfl, by decide, by decide⟩

theorem scan_symbol {symbol rest : Text} {token : Token} (hsymbol : IsSymbol symbol token) :
    scan (symbol ++ rest) = (token :: ·) <$> scan rest := by
  have hsome : symbol? (symbol ++ rest) = some (token, rest) :=
    symbol?_eq_some_iff.2 ⟨symbol, hsymbol, rfl⟩
  obtain ⟨c, r, rfl, hblank, hword⟩ := hsymbol.head_spec
  rw [List.cons_append] at hsome ⊢
  rw [scan, if_neg (Bool.eq_false_iff.1 hblank), if_neg (Bool.eq_false_iff.1 hword)]
  split
  · rename_i other others hother
    cases hsome.symm.trans hother
    cases scan rest <;> rfl
  · rename_i hnone
    cases hsome.symm.trans hnone

theorem splits_of_scan {t : Text} {tokens : List Token} (h : scan t = .ok tokens) :
    Splits t tokens := by
  fun_induction scan t generalizing tokens with
  | case1 =>
      cases h
      exact .nil
  | case2 c r hblank ih => exact .blank hblank (ih h)
  | case3 c r hblank hword word token htoken =>
      rename_i ih
      cases hrest : scan (r.dropWhile isWordChar) with
      | error flaw => simp [hrest, bind, Except.bind] at h
      | ok rest =>
          simp only [hrest, bind, Except.bind, pure, Except.pure, Except.ok.injEq] at h
          subst h
          have hsplits := Splits.word (ofWord?_eq_some_iff.1 htoken) ?_ (ih hrest)
          · rwa [List.cons_append, List.takeWhile_append_dropWhile] at hsplits
          · intro d hd
            have hnot := List.head?_dropWhile_not isWordChar r
            rw [hd] at hnot
            exact hnot
  | case4 => cases h
  | case5 c r hblank hword token rest hsymbol _ ih =>
      cases hrest : scan rest with
      | error flaw => simp [hrest, bind, Except.bind] at h
      | ok tokens =>
          simp only [hrest, bind, Except.bind, pure, Except.pure, Except.ok.injEq] at h
          subst h
          obtain ⟨symbol, hspells, heq⟩ := symbol?_eq_some_iff.1 hsymbol
          rw [heq]
          exact .symbol hspells (ih hrest)
  | case6 => cases h

theorem scan_eq_ok_iff {t : Text} {tokens : List Token} :
    scan t = .ok tokens ↔ Splits t tokens := by
  refine ⟨splits_of_scan, fun h => ?_⟩
  induction h with
  | nil => rw [scan]
  | blank hblank _ ih => rw [scan, if_pos hblank, ih]
  | word hword hrest _ ih =>
      rw [scan_word hword hrest, ih]
      rfl
  | symbol hsymbol _ ih =>
      rw [scan_symbol hsymbol, ih]
      rfl

/-! ### The grammar -/

/-- The phrases of the grammar: whole conditions, and what an operator may stand between. -/
inductive Phrase
  | condition
  | operand

/-- The phrase that symbols of a level are. -/
def Phrase.ofLevel : Level → Phrase
  | .unit => operand
  | .product | .sum => condition

/-- The grammar derives the tokens as a phrase. -/
inductive Derives : Phrase → List Token → Prop
  | name (n : Name) : Derives .operand [name n]
  | not {tokens} : Derives .operand tokens → Derives .operand (not :: tokens)
  | enclosed {tokens} : Derives .condition tokens →
      Derives .operand (opening :: tokens ++ [closing])
  | operand {tokens} : Derives .operand tokens → Derives .condition tokens
  | binary {left right operator} : Derives .condition left → operator = and ∨ operator = or →
      Derives .condition right → Derives .condition (left ++ operator :: right)

/-- A phrase takes the place of an operand that is due. -/
theorem Derives.checkShape_append {phrase : Phrase} {tokens : List Token}
    (h : Derives phrase tokens) (depth : ℕ) (rest : List Token) :
    checkShape true depth (tokens ++ rest) = checkShape false depth rest := by
  induction h generalizing depth rest with
  | name n => rw [List.singleton_append, checkShape]
  | not _ ih => rw [List.cons_append, checkShape, ih]
  | enclosed _ ih =>
      rw [List.append_assoc, List.cons_append, checkShape, ih, List.singleton_append, checkShape]
  | operand _ ih => exact ih depth rest
  | @binary _ right operator _ hoperator _ ihleft ihright =>
      have hnext : checkShape false depth (operator :: (right ++ rest)) =
          checkShape true depth (right ++ rest) := by
        rcases hoperator with rfl | rfl
        · rw [checkShape]
        · rw [checkShape]
      rw [List.append_assoc, ihleft, List.cons_append, hnext, ihright]

def ofSymbol : Symbol Name → Token
  | .operand n => name n
  | .not => not
  | .and => and
  | .or => or
  | .opening => opening
  | .closing => closing

theorem map_ofSymbol_map_symbol (tokens : List Token) :
    (tokens.map symbol).map ofSymbol = tokens := by
  have hinverse : ofSymbol ∘ symbol = id := by
    funext token
    cases token <;> rfl
  rw [List.map_map, hinverse, List.map_id]

/-- The spelling of a formula is derived, whichever operator binds tighter. -/
theorem derives_of_spells {level : Level} {symbols : List (Symbol Name)} {f : Formula Name}
    (h : Spells level symbols f) : Derives (.ofLevel level) (symbols.map ofSymbol) := by
  induction h with
  | operand => exact .name _
  | not _ ih => exact .not ih
  | enclosed _ ih =>
      rw [List.map_append]
      exact .enclosed ih
  | unit _ ih => exact .operand ih
  | and _ _ ihf ihg =>
      rw [List.map_append]
      exact .binary ihf (Or.inl rfl) (.operand ihg)
  | product _ ih => exact ih
  | or _ _ ihf ihg =>
      rw [List.map_append]
      exact .binary ihf (Or.inr rfl) ihg

theorem derives_iff_exists_spells {tokens : List Token} :
    Derives .condition tokens ↔ ∃ f, Spells .sum (tokens.map symbol) f := by
  rw [← checkShape_eq_ok_iff]
  constructor
  · intro h
    have hshape := h.checkShape_append 0 []
    rwa [List.append_nil] at hshape
  · intro h
    obtain ⟨f, hf⟩ := checkShape_eq_ok_iff.1 h
    exact map_ofSymbol_map_symbol tokens ▸ derives_of_spells hf

/-! ### The names in a condition -/

theorem mem_names {tokens : List Token} {n : Name} : n ∈ names tokens ↔ name n ∈ tokens := by
  rw [names, Name.mem_distinct, List.mem_filterMap]
  constructor
  · rintro ⟨token, hmem, hname⟩
    cases token <;> cases hname
    exact hmem
  · exact fun hmem => ⟨name n, hmem, rfl⟩

theorem idxOf_name_lt {tokens : List Token} {m n : Name}
    (h : (tokens.filterMap name?).idxOf m < (tokens.filterMap name?).idxOf n) :
    tokens.idxOf (name m) < tokens.idxOf (name n) := by
  induction tokens with
  | nil => exact absurd h (Nat.lt_irrefl _)
  | cons token rest ih =>
      cases token with
      | name k =>
          rw [List.filterMap_cons_some (f := name?) (a := name k) rfl] at h
          have hne : k ≠ n := by
            rintro rfl
            rw [List.idxOf_cons_self] at h
            exact Nat.not_lt_zero _ h
          rw [List.idxOf_cons_ne rest fun heq => hne (name.inj heq)]
          by_cases hm : k = m
          · rw [hm, List.idxOf_cons_self]
            exact Nat.succ_pos _
          · rw [List.idxOf_cons_ne rest fun heq => hm (name.inj heq)]
            rw [List.idxOf_cons_ne _ hm, List.idxOf_cons_ne _ hne] at h
            exact Nat.succ_lt_succ (ih (Nat.lt_of_succ_lt_succ h))
      | _ =>
          rw [List.idxOf_cons_ne rest (by simp), List.idxOf_cons_ne rest (by simp)]
          exact Nat.succ_lt_succ (ih h)

theorem pairwise_idxOf_names (tokens : List Token) :
    (names tokens).Pairwise fun m n => tokens.idxOf (name m) < tokens.idxOf (name n) :=
  (Name.pairwise_idxOf_distinct _).imp idxOf_name_lt

theorem nodup_names (tokens : List Token) : (names tokens).Nodup := by
  refine (pairwise_idxOf_names tokens).imp fun {m n} hlt => ?_
  rintro rfl
  exact Nat.lt_irrefl _ hlt

end Token

/-! ### Acceptance -/

namespace Condition

/-- A condition is accepted exactly when its text consists of tokens that the grammar derives. The
names that are kept with it are those that occur, each once and in the order in which they first
occur. -/
theorem accepts_iff_derives (t : Text) :
    ((∃ c, ofText t = .ok c) ↔
      ∃ tokens, Token.Splits t tokens ∧ Token.Derives .condition tokens) ∧
    ∀ c tokens, ofText t = .ok c → Token.Splits t tokens →
      c.references.Nodup ∧ (∀ n, n ∈ c.references ↔ .name n ∈ tokens) ∧
        c.references.Pairwise fun m n => tokens.idxOf (.name m) < tokens.idxOf (.name n) := by
  constructor
  · simp only [ofText_isOk_iff, States, Token.derives_iff_exists_spells, ← Token.scan_eq_ok_iff]
    rw [exists_comm]
    exact exists_congr fun tokens => exists_and_left
  · intro c tokens haccepted hsplits
    obtain ⟨others, hothers, -, rfl⟩ := ofText_eq_ok_iff.1 haccepted
    cases hothers.symm.trans (Token.scan_eq_ok_iff.2 hsplits)
    exact ⟨Token.nodup_names tokens, fun _ => Token.mem_names, Token.pairwise_idxOf_names tokens⟩

/-- Words that end at a symbol, words that end at a blank, and a name that begins like a keyword. -/
def specimen : Text := "B or!(A_1 &&\tB)and not NOT_A"

theorem accepts_specimen : ∃ c tokens, ofText specimen = .ok c ∧ Token.Splits specimen tokens ∧
    c.references.map Name.text = ["B", "A_1", "NOT_A"] ∧ c.references.Nodup ∧
      c.references.Pairwise fun m n => tokens.idxOf (.name m) < tokens.idxOf (.name n) := by
  let a : Name := ⟨"A_1", rfl⟩
  let b : Name := ⟨"B", rfl⟩
  let notA : Name := ⟨"NOT_A", rfl⟩
  let c : Condition :=
    { human := "B or!(A_1 && B)and not NOT_A"
      rendered := "defined(B) || !(defined(A_1) && defined(B)) && !defined(NOT_A)"
      references := [b, a, notA] }
  have hread : ofText specimen = .ok c := by decide +kernel
  obtain ⟨tokens, hsplits, -⟩ := (accepts_iff_derives specimen).1.1 ⟨c, hread⟩
  obtain ⟨hnodup, -, horder⟩ := (accepts_iff_derives specimen).2 c tokens hread hsplits
  exact ⟨c, tokens, hread, hsplits, rfl, hnodup, horder⟩

end Condition

end FeatureGuard

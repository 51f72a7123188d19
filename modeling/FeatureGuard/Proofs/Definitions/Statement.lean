import FeatureGuard.Definitions.Statement

/-!
What a line says. A line is read as a statement exactly when its words have the form of that
statement, so that what is true of statements can be shown form by form.
-/

namespace FeatureGuard

namespace Statement

/-- The five forms of a line. -/
inductive Says (t : Text) : Statement → Prop
  | external {n : Name} {rest : Text} (head : Text.splitWord t = (("external" : Text), rest))
      (only : Text.splitWord rest = (n.text, [])) : Says t (external n)
  | basic {n : Name} {rest : Text} (head : Text.splitWord t = (n.text, rest))
      (only : (Text.splitWord rest).1 = []) : Says t (basic n)
  | implies {n : Name} {rest e : Text} {names : List Name}
      (head : Text.splitWord t = (n.text, rest))
      (keyword : Text.splitWord rest = (("implies" : Text), e))
      (consequents : readNames e = .ok names) : Says t (implies n names)
  | equals {n : Name} {rest e : Text} {c : Condition} (head : Text.splitWord t = (n.text, rest))
      (keyword : Text.splitWord rest = (("equals" : Text), e))
      (condition : Condition.ofText e = .ok c) : Says t (equals n c)
  | requires {n : Name} {rest e : Text} {c : Condition} (head : Text.splitWord t = (n.text, rest))
      (keyword : Text.splitWord rest = (("requires" : Text), e))
      (condition : Condition.ofText e = .ok c) : Says t (requires n c)

theorem external_ne_text (n : Name) : n.text ≠ "external" := by
  intro h
  have hform := n.form
  rw [h] at hform
  revert hform
  decide

theorem text_ne_nil (n : Name) : n.text ≠ [] := by
  intro h
  have hform := n.form
  rw [h] at hform
  cases hform

/-! ### Reading the parts of a line -/

theorem exists_of_map_eq_ok {ε α β : Type} {f : α → β} {x : Except ε α} {b : β}
    (h : f <$> x = .ok b) : ∃ a, x = .ok a ∧ f a = b := by
  cases x with
  | error e => cases h
  | ok a => exact ⟨a, rfl, Except.ok.inj h⟩

theorem readName_eq_ok_iff {t : Text} {n : Name} : readName t = .ok n ↔ t = n.text := by
  rw [readName]
  constructor
  · intro h
    split at h
    · rename_i name hname
      cases h
      exact (Name.text_of_ofText? hname).symm
    · cases h
  · rintro rfl
    rw [Name.ofText?_text]

theorem readExternal_eq_ok_iff {t : Text} {statement : Statement} :
    readExternal t = .ok statement ↔
      ∃ n, Text.splitWord t = (n.text, []) ∧ statement = external n := by
  rw [readExternal]
  constructor
  · intro h
    split at h
    · cases h
    · rename_i word hsplit
      obtain ⟨n, hname, rfl⟩ := exists_of_map_eq_ok h
      rw [readName_eq_ok_iff] at hname
      exact ⟨n, hname ▸ hsplit, rfl⟩
    · cases h
  · rintro ⟨n, hsplit, rfl⟩
    rw [hsplit]
    split
    · rename_i heq
      exact absurd (congrArg Prod.fst heq) (text_ne_nil n)
    · rename_i word heq
      cases heq
      rw [readName_eq_ok_iff.2 rfl]
      rfl
    · rename_i hne heq
      cases heq
      exact (hne rfl).elim

theorem readRule_eq_ok {n : Name} {t : Text} {statement : Statement}
    (h : readRule n t = .ok statement) :
    ((Text.splitWord t).1 = [] ∧ statement = basic n) ∨
    (∃ e names, Text.splitWord t = (("implies" : Text), e) ∧ readNames e = .ok names ∧
      statement = implies n names) ∨
    (∃ e c, Text.splitWord t = (("equals" : Text), e) ∧ Condition.ofText e = .ok c ∧
      statement = equals n c) ∨
    ∃ e c, Text.splitWord t = (("requires" : Text), e) ∧ Condition.ofText e = .ok c ∧
      statement = requires n c := by
  rw [readRule] at h
  split at h
  rename_i keyword e hsplit
  rw [hsplit]
  split at h
  · rename_i hkeyword
    cases h
    exact .inl ⟨hkeyword, rfl⟩
  split at h
  · rename_i hkeyword
    obtain ⟨names, hnames, rfl⟩ := exists_of_map_eq_ok h
    exact .inr (.inl ⟨e, names, hkeyword ▸ rfl, hnames, rfl⟩)
  split at h
  · rename_i hkeyword
    obtain ⟨c, hcondition, rfl⟩ := exists_of_map_eq_ok h
    exact .inr (.inr (.inl ⟨e, c, hkeyword ▸ rfl, hcondition, rfl⟩))
  split at h
  · rename_i hkeyword
    obtain ⟨c, hcondition, rfl⟩ := exists_of_map_eq_ok h
    exact .inr (.inr (.inr ⟨e, c, hkeyword ▸ rfl, hcondition, rfl⟩))
  · cases h

/-! ### Reading a line -/

theorem ofText_of_splitWord {t rest : Text} {n : Name} (h : Text.splitWord t = (n.text, rest)) :
    ofText t = readRule n rest := by
  simp only [ofText, h]
  rw [if_neg (external_ne_text n), readName_eq_ok_iff.2 rfl]
  rfl

theorem says_of_ofText {t : Text} {statement : Statement} (h : ofText t = .ok statement) :
    Says t statement := by
  cases hsplit : Text.splitWord t with
  | mk head rest =>
  simp only [ofText, hsplit] at h
  split at h
  · rename_i hexternal
    obtain ⟨n, honly, rfl⟩ := readExternal_eq_ok_iff.1 h
    exact .external (hexternal ▸ hsplit) honly
  · cases hname : readName head with
    | error flaw =>
        rw [hname] at h
        cases h
    | ok n =>
        rw [hname] at h
        rw [readName_eq_ok_iff.1 hname] at hsplit
        obtain ⟨honly, rfl⟩ | ⟨e, names, hkeyword, hnames, rfl⟩ | ⟨e, c, hkeyword, hcondition, rfl⟩ |
          ⟨e, c, hkeyword, hcondition, rfl⟩ := readRule_eq_ok h
        · exact .basic hsplit honly
        · exact .implies hsplit hkeyword hnames
        · exact .equals hsplit hkeyword hcondition
        · exact .requires hsplit hkeyword hcondition

theorem exists_of_ofText_equals {t rest e : Text} {n : Name} {statement : Statement}
    (h : ofText t = .ok statement) (head : Text.splitWord t = (n.text, rest))
    (keyword : Text.splitWord rest = (("equals" : Text), e)) :
    ∃ c, Condition.ofText e = .ok c ∧ statement = equals n c := by
  rw [ofText_of_splitWord head] at h
  simp only [readRule, keyword] at h
  rw [if_neg (by decide), if_neg (by decide), if_true] at h
  obtain ⟨c, hcondition, rfl⟩ := exists_of_map_eq_ok h
  exact ⟨c, hcondition, rfl⟩

/-- A line is read as a statement exactly when it has the form of the statement. -/
theorem ofText_eq_ok_iff {t : Text} {statement : Statement} :
    ofText t = .ok statement ↔ Says t statement := by
  refine ⟨says_of_ofText, fun h => ?_⟩
  cases h with
  | external head only =>
      simp only [ofText, head]
      rw [if_true]
      exact readExternal_eq_ok_iff.2 ⟨_, only, rfl⟩
  | basic head only =>
      rw [ofText_of_splitWord head, readRule]
      exact if_pos only
  | implies head keyword consequents =>
      rw [ofText_of_splitWord head]
      simp only [readRule, keyword, consequents]
      rw [if_neg (by decide), if_true]
      rfl
  | equals head keyword condition =>
      rw [ofText_of_splitWord head]
      simp only [readRule, keyword, condition]
      rw [if_neg (by decide), if_neg (by decide), if_true]
      rfl
  | requires head keyword condition =>
      rw [ofText_of_splitWord head]
      simp only [readRule, keyword, condition]
      rw [if_neg (by decide), if_neg (by decide), if_neg (by decide), if_true]
      rfl

end Statement

end FeatureGuard

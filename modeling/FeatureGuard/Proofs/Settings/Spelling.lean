import Mathlib
import FeatureGuard.Proofs.Settings.Layer
import FeatureGuard.Proofs.Text.Numeral
import FeatureGuard.Settings.Basic

/-!
Values as a tree spells them. A decoder accepts exactly what spells a value and gives that value, and
a value is still spelled when its source was laid over an empty tree.
-/

namespace FeatureGuard

namespace Tree

/-- Strings, booleans and numbers spell a text. -/
inductive SpellsText : Tree → Text → Prop
  | string (origin : Option Text) (t : Text) : SpellsText (scalar origin (.string t)) t
  | yes (origin : Option Text) : SpellsText (scalar origin (.boolean true)) "true"
  | no (origin : Option Text) : SpellsText (scalar origin (.boolean false)) "false"
  | integer (origin : Option Text) (n : ℤ) : SpellsText (scalar origin (.integer n)) (Text.ofInt n)
  | float (origin : Option Text) (f : Binary64) : SpellsText (scalar origin (.float f)) f.text

/-- A target is spelled as it stands on an include line, or without the quotes. -/
def SpellsTarget (t : Tree) (target : IncludePath) : Prop :=
  ∃ raw, t.SpellsText raw ∧ target = .ofText raw

/-- A text, or the null value for none. -/
inductive SpellsOptional : Tree → Option Text → Prop
  | null (origin : Option Text) : SpellsOptional (scalar origin .null) none
  | text {t : Tree} {raw : Text} : t.SpellsText raw → SpellsOptional t (some raw)

/-- One of several words: as a string, or as the only key of a table. -/
inductive SpellsWord {α : Type} (word : α → Text) : Tree → α → Prop
  | string (origin : Option Text) (a : α) : SpellsWord word (scalar origin (.string (word a))) a
  | key (origin : Option Text) (a : α) (value : Tree) :
      SpellsWord word (table origin [(word a, value)]) a

/-- The words for true, in lower case. -/
def affirmations : List Text := ["true", "on", "yes"]

/-- The words for false, in lower case. -/
def denials : List Text := ["false", "off", "no"]

/-- A number of 64 bits: a number that is not below zero, a boolean, or a string with a word for a
boolean in any case or with digits, which may have a plus sign in front. -/
inductive SpellsNumber : Tree → ℕ → Prop
  | integer (origin : Option Text) (n : ℕ) : SpellsNumber (scalar origin (.integer n)) n
  | float (origin : Option Text) (f : Binary64) : SpellsNumber (scalar origin (.float f)) f.toWord64
  | boolean (origin : Option Text) (b : Bool) : SpellsNumber (scalar origin (.boolean b)) b.toNat
  | yes (origin : Option Text) {t : Text} : t.map Char.toLower ∈ affirmations →
      SpellsNumber (scalar origin (.string t)) 1
  | no (origin : Option Text) {t : Text} : t.map Char.toLower ∈ denials →
      SpellsNumber (scalar origin (.string t)) 0
  | digits (origin : Option Text) {t : Text} : t.Decimal → Text.decimalValue t < 2 ^ 64 →
      SpellsNumber (scalar origin (.string t)) (Text.decimalValue t)
  | plus (origin : Option Text) {t : Text} : t.Decimal → Text.decimalValue t < 2 ^ 64 →
      SpellsNumber (scalar origin (.string ('+' :: t))) (Text.decimalValue t)

variable {t : Tree}

theorem text_eq_ok_iff {raw : Text} : t.text = .ok raw ↔ t.SpellsText raw := by
  constructor
  · intro h
    unfold text at h
    split at h
    · split at h
      all_goals cases h
      · exact .string _ _
      · rename_i origin b
        cases b
        · exact .no _
        · exact .yes _
      · exact .integer _ _
      · exact .float _ _
    · cases h
    · cases h
  · rintro (- | - | - | - | -) <;> rfl

theorem ofTree_eq_ok_iff {target : IncludePath} :
    IncludePath.ofTree t = .ok target ↔ t.SpellsTarget target := by
  simp only [SpellsTarget, ← text_eq_ok_iff, IncludePath.ofTree]
  cases t.text with
  | error m => simp [Except.map]
  | ok raw => simp [Except.map, eq_comm]

theorem optionalText_eq_ok_iff {raw : Option Text} :
    t.optionalText = .ok raw ↔ t.SpellsOptional raw := by
  constructor
  · intro h
    unfold optionalText at h
    split at h
    · cases h
      exact .null _
    · obtain ⟨read, hread, rfl⟩ : ∃ read, t.text = .ok read ∧ some read = raw := by
        cases ht : t.text with
        | error m => simp [ht, Functor.map, Except.map] at h
        | ok read => exact ⟨read, rfl, by simpa [ht, Functor.map, Except.map] using h⟩
      exact .text (text_eq_ok_iff.1 hread)
  · rintro (- | h)
    · rfl
    · rw [optionalText, text_eq_ok_iff.2 h]
      · rfl
      · rintro origin rfl
        cases h

theorem get?_words {α : Type} {word : α → Text} (hword : Function.Injective word) {all : List α}
    (hall : ∀ a, a ∈ all) (t : Text) (a : α) :
    Keyed.get? t (all.map fun a => (word a, a)) = some a ↔ word a = t := by
  have hfound : ∀ {listed : List α}, a ∈ listed →
      Keyed.get? (word a) (listed.map fun a => (word a, a)) = some a := by
    intro listed ha
    induction listed with
    | nil => cases ha
    | cons b rest ih =>
        rw [List.map_cons, Keyed.get?]
        split_ifs with heq
        · rw [hword heq]
        · exact ih ((List.mem_cons.1 ha).resolve_left fun h => heq (by rw [h]))
  constructor
  · intro h
    obtain ⟨b, -, hb⟩ := List.mem_map.1 (Keyed.mem_of_get? h)
    cases hb
    rfl
  · rintro rfl
    exact hfound (hall a)

theorem choice_eq_ok_iff {α : Type} {name : Text} {word : α → Text}
    (hword : Function.Injective word) {all : List α} (hall : ∀ a, a ∈ all) {a : α} :
    choice name (all.map fun a => (word a, a)) t = .ok a ↔ SpellsWord word t a := by
  constructor
  · intro h
    unfold choice at h
    dsimp only at h
    split at h
    · split at h
      · rename_i hfound
        cases h
        rw [← (get?_words hword hall _ _).1 hfound]
        exact .string _ _
      · cases h
    · split at h
      · rename_i hfound
        cases h
        rw [← (get?_words hword hall _ _).1 hfound]
        exact .key _ _ _
      · cases h
    · cases h
  · rintro (- | -)
    all_goals simp only [choice, (get?_words hword hall _ a).2 rfl]

theorem policy_eq_ok_iff {policy : StampPolicy} :
    StampPolicy.ofTree t = .ok policy ↔ SpellsWord StampPolicy.text t policy := by
  have hword : Function.Injective StampPolicy.text := by
    intro p q h
    cases p <;> cases q
    all_goals first | rfl | exact absurd h (by decide)
  have hall (p : StampPolicy) : p ∈ StampPolicy.all := by
    cases p <;> simp [StampPolicy.all]
  rw [StampPolicy.ofTree, choice_eq_ok_iff hword hall]

theorem rotation_eq_ok_iff {rotation : Rotation} :
    Rotation.ofTree t = .ok rotation ↔ SpellsWord Rotation.text t rotation := by
  have hword : Function.Injective Rotation.text := by
    intro r s h
    cases r <;> cases s
    all_goals first | rfl | exact absurd h (by decide)
  have hall (r : Rotation) : r ∈ Rotation.all := by
    cases r <;> simp [Rotation.all]
  rw [Rotation.ofTree, choice_eq_ok_iff hword hall]

theorem toLower_of_isDigit {c : Char} (h : c.isDigit = true) : c.toLower = c := by
  simp only [Char.isDigit, ge_iff_le, Bool.and_eq_true, decide_eq_true_eq,
    UInt32.le_iff_toNat_le] at h
  rw [Char.toLower, dif_neg]
  simp only [ge_iff_le, UInt32.le_iff_toNat_le, not_and, not_le]
  simp only [Char.reduceVal, UInt32.reduceToNat] at h ⊢
  omega

theorem flag?_eq_some_iff {t : Text} {n : ℕ} : flag? t = some n ↔
    n = 1 ∧ t.map Char.toLower ∈ affirmations ∨ n = 0 ∧ t.map Char.toLower ∈ denials := by
  have hyes : t.map Char.toLower ∈ affirmations ↔ t.map Char.toLower = "true".toList ∨
      t.map Char.toLower = "on".toList ∨ t.map Char.toLower = "yes".toList := by
    simp only [affirmations, List.mem_cons, List.not_mem_nil, or_false]
  have hno : t.map Char.toLower ∈ denials ↔ t.map Char.toLower = "false".toList ∨
      t.map Char.toLower = "off".toList ∨ t.map Char.toLower = "no".toList := by
    simp only [denials, List.mem_cons, List.not_mem_nil, or_false]
  have hapart : ∀ word ∈ affirmations, word ∉ denials := by decide
  have hflag : flag? t = if t.map Char.toLower ∈ affirmations then some 1
      else if t.map Char.toLower ∈ denials then some 0 else none := by
    rw [flag?]
    exact if_congr hyes.symm rfl (if_congr hno.symm rfl rfl)
  rw [hflag]
  split_ifs with h h'
  · simp [h, hapart _ h, eq_comm]
  · simp [h, h', eq_comm]
  · simp [h, h']

/-- What begins with a digit or a sign is no word for a boolean. -/
theorem flag?_eq_none {t : Text} {c : Char} (hhead : t.head? = some c)
    (hc : c.isDigit = true ∨ c = '+') : flag? t = none := by
  have hlower : c.toLower = c := by
    rcases hc with hdigit | rfl
    · exact toLower_of_isDigit hdigit
    · decide
  have hheads : ∀ word ∈ affirmations ++ denials,
      (word.head?.any fun d => d.isDigit || d == '+') = false := by
    decide
  rw [Option.eq_none_iff_forall_not_mem]
  intro n hn
  have hmem : t.map Char.toLower ∈ affirmations ++ denials := by
    rw [List.mem_append]
    exact (flag?_eq_some_iff.1 hn).imp And.right And.right
  have hneither : ¬(c.isDigit = true ∨ c = '+') := by
    simpa [List.head?_map, hhead, hlower] using hheads _ hmem
  exact hneither hc

theorem word64?_eq_some_iff {t : Text} {n : ℕ} : Text.word64? t = some n ↔
    ∃ digits : Text, digits.Decimal ∧ Text.decimalValue digits = n ∧ n < 2 ^ 64 ∧
      (t = digits ∨ t = '+' :: digits) := by
  rw [Text.word64?, Option.filter_eq_some_iff, Text.nat?_eq_some_iff]
  constructor
  · rintro ⟨⟨digits, hdecimal, hvalue, ht⟩, hlt⟩
    exact ⟨digits, hdecimal, hvalue, of_decide_eq_true hlt, ht⟩
  · rintro ⟨digits, hdecimal, hvalue, hlt, ht⟩
    exact ⟨⟨digits, hdecimal, hvalue, ht⟩, decide_eq_true hlt⟩

theorem word64_string_eq_ok_iff {origin : Option Text} {t : Text} {n : ℕ} :
    word64 (scalar origin (.string t)) = .ok n ↔ (flag? t).or (Text.word64? t) = some n := by
  rw [word64]
  cases (flag? t).or (Text.word64? t) <;> simp

theorem spellsNumber_of_word64 {n : ℕ} (h : t.word64 = .ok n) : t.SpellsNumber n := by
  cases t with
  | scalar origin value =>
      cases value with
      | null => cases h
      | boolean b =>
          cases h
          exact .boolean origin b
      | integer k =>
          rw [word64] at h
          split_ifs at h with hneg
          cases h
          obtain ⟨k, rfl⟩ := Int.eq_ofNat_of_zero_le (Int.not_lt.1 hneg)
          exact .integer origin k
      | float f =>
          cases h
          exact .float origin f
      | string s =>
          rcases Option.or_eq_some_iff.1 (word64_string_eq_ok_iff.1 h) with hflag | ⟨-, hword⟩
          · rcases flag?_eq_some_iff.1 hflag with ⟨rfl, hyes⟩ | ⟨rfl, hno⟩
            · exact .yes origin hyes
            · exact .no origin hno
          · obtain ⟨digits, hdecimal, rfl, hlt, rfl | rfl⟩ := word64?_eq_some_iff.1 hword
            · exact .digits origin hdecimal hlt
            · exact .plus origin hdecimal hlt
  | array origin items => cases h
  | table origin entries => cases h

theorem word64_of_spellsNumber {n : ℕ} (h : t.SpellsNumber n) : t.word64 = .ok n := by
  cases h with
  | integer origin n => rw [word64]; exact if_neg (by simp)
  | float origin f => rfl
  | boolean origin b => rfl
  | yes origin hyes =>
      rw [word64_string_eq_ok_iff, flag?_eq_some_iff.2 (.inl ⟨rfl, hyes⟩)]
      rfl
  | no origin hno =>
      rw [word64_string_eq_ok_iff, flag?_eq_some_iff.2 (.inr ⟨rfl, hno⟩)]
      rfl
  | @digits origin t hdecimal hlt =>
      obtain ⟨c, rest, rfl⟩ := List.exists_cons_of_ne_nil hdecimal.ne_nil
      have hdigit := hdecimal.digit c List.mem_cons_self
      rw [word64_string_eq_ok_iff, flag?_eq_none rfl (.inl hdigit), Option.none_or]
      exact word64?_eq_some_iff.2 ⟨_, hdecimal, rfl, hlt, .inl rfl⟩
  | plus origin hdecimal hlt =>
      rw [word64_string_eq_ok_iff, flag?_eq_none rfl (.inr rfl), Option.none_or]
      exact word64?_eq_some_iff.2 ⟨_, hdecimal, rfl, hlt, .inr rfl⟩

theorem word64_eq_ok_iff {n : ℕ} : t.word64 = .ok n ↔ t.SpellsNumber n :=
  ⟨spellsNumber_of_word64, word64_of_spellsNumber⟩

/-! ### Values of a source -/

/-- A value of a source, as it stands in the tree once the source was laid over nothing. -/
def laid (origin : Text) (t : Tree) : Tree := covering (t.writtenIn origin) none

variable {origin : Text}

theorem SpellsText.laid {raw : Text} (h : t.SpellsText raw) : (t.laid origin).SpellsText raw := by
  cases h <;> simp only [Tree.laid, writtenIn, covering] <;> constructor

theorem SpellsOptional.laid {raw : Option Text} (h : t.SpellsOptional raw) :
    (t.laid origin).SpellsOptional raw := by
  cases h with
  | null _ =>
      simp only [Tree.laid, writtenIn, covering]
      exact .null _
  | text h => exact .text h.laid

theorem SpellsWord.laid {α : Type} {word : α → Text} {a : α} (h : SpellsWord word t a) :
    SpellsWord word (t.laid origin) a := by
  cases h with
  | string _ a =>
      simp only [Tree.laid, writtenIn, covering]
      exact .string _ a
  | key _ a value =>
      simp only [Tree.laid, writtenIn, fromEntries, covering, coveringEntries, Keyed.set]
      exact .key _ a _

theorem SpellsNumber.laid {n : ℕ} (h : t.SpellsNumber n) : (t.laid origin).SpellsNumber n := by
  cases h
  all_goals simp only [Tree.laid, writtenIn, covering]
  · exact .integer _ _
  · exact .float _ _
  · exact .boolean _ _
  · exact .yes _ ‹_›
  · exact .no _ ‹_›
  · exact .digits _ ‹_› ‹_›
  · exact .plus _ ‹_› ‹_›

end Tree

end FeatureGuard

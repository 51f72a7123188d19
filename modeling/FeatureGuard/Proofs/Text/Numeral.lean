import Mathlib.Data.List.Basic
import FeatureGuard.Text.Numeral
import FeatureGuard.Proofs.Text.Word

/-!
Decimal numerals, read and written. A text is read as an integer exactly where it is a numeral for
it, and every natural number is found again in its digits, also behind zeros that fill them up.
-/

namespace FeatureGuard.Text

/-- One or more decimal digits. -/
structure Decimal (t : Text) : Prop where
  ne_nil : t ≠ []
  digit : ∀ c ∈ t, c.isDigit = true

/-- The number that decimal digits denote. -/
def decimalValue (t : Text) : ℕ := Nat.ofDigitChars 10 t 0

/-- The numerals of an integer: digits, with at most one sign in front. -/
inductive Numeral : Text → ℤ → Prop
  | unsigned {t : Text} : t.Decimal → Numeral t (decimalValue t)
  | plus {t : Text} : t.Decimal → Numeral ('+' :: t) (decimalValue t)
  | minus {t : Text} : t.Decimal → Numeral ('-' :: t) (-(decimalValue t))

/-! ### Reading -/

theorem digits?_of_decimal {t : Text} (h : t.Decimal) : digits? t = some (decimalValue t) := by
  rw [digits?, if_pos ⟨h.ne_nil, List.all_eq_true.2 h.digit⟩]
  rfl

theorem digits?_eq_some_iff {t : Text} {n : ℕ} :
    digits? t = some n ↔ t.Decimal ∧ decimalValue t = n := by
  constructor
  · intro h
    rw [digits?] at h
    split_ifs at h with hdigits
    exact ⟨⟨hdigits.1, List.all_eq_true.1 hdigits.2⟩, Option.some.inj h⟩
  · rintro ⟨hdecimal, rfl⟩
    exact digits?_of_decimal hdecimal

theorem Decimal.head?_ne {t : Text} (h : t.Decimal) {sign : Char} (hsign : sign.isDigit = false) :
    t.head? ≠ some sign := by
  intro hhead
  exact Bool.noConfusion (hsign.symm.trans (h.digit sign (List.mem_of_mem_head? hhead)))

theorem int?_minus (t : Text) : int? ('-' :: t) = (digits? t).map fun n : ℕ => -(n : ℤ) := by
  rw [int?]
  cases digits? t <;> rfl

theorem int?_plus (t : Text) : int? ('+' :: t) = (digits? t).map fun n : ℕ => (n : ℤ) := by
  rw [int?]
  cases digits? t <;> rfl

/-- Without a sign, an integer is read as a natural number. -/
theorem int?_unsigned {t : Text} (hminus : t.head? ≠ some '-') (hplus : t.head? ≠ some '+') :
    int? t = (digits? t).map fun n : ℕ => (n : ℤ) := by
  rw [int?]
  · cases digits? t <;> rfl
  · rintro r rfl
    exact hminus rfl
  · rintro r rfl
    exact hplus rfl

theorem int?_of_numeral {t : Text} {n : ℤ} (h : Numeral t n) : int? t = some n := by
  cases h with
  | unsigned h =>
      rw [int?_unsigned (h.head?_ne (by decide)) (h.head?_ne (by decide)), digits?_of_decimal h]
      rfl
  | plus h =>
      rw [int?_plus, digits?_of_decimal h]
      rfl
  | minus h =>
      rw [int?_minus, digits?_of_decimal h]
      rfl

theorem numeral_of_int? {t : Text} {n : ℤ} (h : int? t = some n) : Numeral t n := by
  by_cases hminus : t.head? = some '-'
  · obtain ⟨r, rfl⟩ := List.head?_eq_some_iff.1 hminus
    rw [int?_minus, Option.map_eq_some_iff] at h
    obtain ⟨value, hvalue, rfl⟩ := h
    obtain ⟨hdecimal, rfl⟩ := digits?_eq_some_iff.1 hvalue
    exact .minus hdecimal
  by_cases hplus : t.head? = some '+'
  · obtain ⟨r, rfl⟩ := List.head?_eq_some_iff.1 hplus
    rw [int?_plus, Option.map_eq_some_iff] at h
    obtain ⟨value, hvalue, rfl⟩ := h
    obtain ⟨hdecimal, rfl⟩ := digits?_eq_some_iff.1 hvalue
    exact .plus hdecimal
  · rw [int?_unsigned hminus hplus, Option.map_eq_some_iff] at h
    obtain ⟨value, hvalue, rfl⟩ := h
    obtain ⟨hdecimal, rfl⟩ := digits?_eq_some_iff.1 hvalue
    exact .unsigned hdecimal

/-- A text is read as an integer exactly where it is a numeral for it. -/
theorem int?_eq_some_iff {t : Text} {n : ℤ} : int? t = some n ↔ Numeral t n :=
  ⟨numeral_of_int?, int?_of_numeral⟩

/-- A natural number is read from digits, which may have a plus sign in front. -/
theorem nat?_eq_some_iff {t : Text} {n : ℕ} :
    nat? t = some n ↔ ∃ digits : Text, digits.Decimal ∧ decimalValue digits = n ∧
      (t = digits ∨ t = '+' :: digits) := by
  constructor
  · intro h
    unfold nat? at h
    split at h
    all_goals obtain ⟨hdecimal, hvalue⟩ := digits?_eq_some_iff.1 h
    · exact ⟨_, hdecimal, hvalue, .inr rfl⟩
    · exact ⟨_, hdecimal, hvalue, .inl rfl⟩
  · rintro ⟨digits, hdecimal, rfl, rfl | rfl⟩
    · rw [nat?]
      · exact digits?_of_decimal hdecimal
      · rintro r rfl
        exact hdecimal.head?_ne (show Char.isDigit '+' = false by decide) rfl
    · exact digits?_of_decimal hdecimal

/-! ### Writing -/

theorem decimal_ofNat (n : ℕ) : (ofNat n).Decimal :=
  ⟨Nat.toDigits_ne_nil, fun _ hc => Nat.isDigit_of_mem_toDigits (by decide) (by decide) hc⟩

theorem decimalValue_ofNat (n : ℕ) : decimalValue (ofNat n) = n :=
  Nat.ofDigitChars_toDigits (by decide) (by decide)

theorem decimal_padded (width n : ℕ) : (padded width n).Decimal := by
  constructor
  · simp [padded, (decimal_ofNat n).ne_nil]
  · intro c hc
    rcases List.mem_append.1 hc with hzero | hdigit
    · rw [List.eq_of_mem_replicate hzero]
      decide
    · exact (decimal_ofNat n).digit c hdigit

theorem decimalValue_padded (width n : ℕ) : decimalValue (padded width n) = n := by
  rw [padded, decimalValue, Nat.ofDigitChars_append, Nat.ofDigitChars_replicate_zero, Nat.mul_zero]
  exact decimalValue_ofNat n

/-! ### Numerals as words -/

theorem isBlank_of_isDigit {c : Char} (h : c.isDigit = true) : isBlank c = false := by
  simp only [Char.isDigit, ge_iff_le, Bool.and_eq_true, decide_eq_true_eq,
    UInt32.le_iff_toNat_le] at h
  simp only [isBlank, inRanges, blankRanges, List.any_cons, List.any_nil, Bool.or_false,
    Bool.or_eq_false_iff, Bool.and_eq_false_iff, decide_eq_false_iff_not, Char.toNat]
  simp only [Char.reduceVal, UInt32.reduceToNat] at h
  omega

theorem Decimal.solid {t : Text} (h : t.Decimal) : t.Solid :=
  ⟨h.ne_nil, fun c hc => isBlank_of_isDigit (h.digit c hc)⟩

theorem Numeral.solid {t : Text} {n : ℤ} (h : Numeral t n) : t.Solid := by
  have hsigned {sign : Char} (hsign : isBlank sign = false) {r : Text} (hr : r.Decimal) :
      Solid (sign :: r) :=
    ⟨List.cons_ne_nil sign r, List.forall_mem_cons.2 ⟨hsign, hr.solid.not_blank⟩⟩
  cases h with
  | unsigned h => exact h.solid
  | plus h => exact hsigned (by decide) h
  | minus h => exact hsigned (by decide) h

end FeatureGuard.Text

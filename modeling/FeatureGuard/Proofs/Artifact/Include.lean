import FeatureGuard.Artifact.Include
import FeatureGuard.Proofs.Text.Word

/-!
Targets of include lines, written and read back. A target is found again in its text exactly where
it is a system include or its path neither begins nor ends with a quote: the quotes around a path
that the user owns are all taken off, those of the path with them. A target that was read has no
such quotes, so its text says the same when it is read once more.
-/

namespace FeatureGuard.IncludePath

open Text

/-- What reading a target from its text keeps: all of a system include, and a path that neither
begins nor ends with a quote. -/
def Legible (p : IncludePath) : Prop :=
  p.system = true ∨ (p.path.head? ≠ some '"' ∧ p.path.getLast? ≠ some '"')

/-- Takes off the quotes around a path. -/
def unquoted (t : Text) : Text := dropEnds (· = '"') t

theorem head?_unquoted_ne (t : Text) : (unquoted t).head? ≠ some '"' := by
  intro hhead
  have hquote : decide ('"' = '"') = false :=
    of_mem_head?_dropEnds (p := (· = '"')) (t := t) hhead
  simp at hquote

theorem getLast?_unquoted_ne (t : Text) : (unquoted t).getLast? ≠ some '"' := by
  intro hlast
  have hquote : decide ('"' = '"') = false :=
    of_mem_getLast?_dropEnds (p := (· = '"')) (t := t) hlast
  simp at hquote

theorem unquoted_eq_self_iff (t : Text) :
    unquoted t = t ↔ t.head? ≠ some '"' ∧ t.getLast? ≠ some '"' := by
  constructor
  · intro h
    rw [← h]
    exact ⟨head?_unquoted_ne t, getLast?_unquoted_ne t⟩
  · rintro ⟨hhead, hlast⟩
    refine dropEnds_eq_self ?_ ?_
    · rintro c hc
      simp only [decide_eq_false_iff_not]
      rintro rfl
      exact hhead hc
    · rintro c hc
      simp only [decide_eq_false_iff_not]
      rintro rfl
      exact hlast hc

theorem unquoted_quoted (path : Text) : unquoted ('"' :: (path ++ ['"'])) = unquoted path := by
  rw [unquoted, dropEnds_cons (by simp), dropEnds_concat (by simp), unquoted]

/-! ### Reading -/

/-- A text is a system include or a path in quotes. -/
theorem ofText_cases (t : Text) :
    (ofText t).system = true ∨ ofText t = ⟨unquoted (trim t), false⟩ := by
  rw [ofText]
  split
  · split_ifs with hlast
    · exact .inl rfl
    · exact .inr rfl
  · exact .inr rfl

theorem legible_ofText (t : Text) : (ofText t).Legible := by
  rcases ofText_cases t with hsystem | hown
  · exact .inl hsystem
  · rw [hown]
    exact .inr ⟨head?_unquoted_ne _, getLast?_unquoted_ne _⟩

theorem trim_text (p : IncludePath) : trim p.text = p.text := by
  obtain ⟨path, system⟩ := p
  refine Trimmed.trim_eq ?_
  cases system with
  | true => exact Trimmed.of_ends (a := '<' :: path) (b := ['>']) rfl (by decide) rfl (by decide)
  | false => exact Trimmed.of_ends (a := '"' :: path) (b := ['"']) rfl (by decide) rfl (by decide)

theorem ofText_text_system (path : Text) : ofText (text ⟨path, true⟩) = ⟨path, true⟩ := by
  rw [ofText, trim_text]
  show (if (path ++ ['>']).getLast? = some '>' then (⟨(path ++ ['>']).dropLast, true⟩ : IncludePath)
    else _) = _
  rw [if_pos (by simp), List.dropLast_concat]

theorem ofText_text_own (path : Text) : ofText (text ⟨path, false⟩) = ⟨unquoted path, false⟩ := by
  rw [ofText, trim_text]
  show (⟨unquoted ('"' :: (path ++ ['"'])), false⟩ : IncludePath) = _
  rw [unquoted_quoted]

theorem ofText_text_iff (p : IncludePath) : ofText p.text = p ↔ p.Legible := by
  obtain ⟨path, system⟩ := p
  cases system with
  | true => simp [ofText_text_system, Legible]
  | false => simp [ofText_text_own, Legible, ← unquoted_eq_self_iff]

/-- A target is found again in its text exactly where it is legible, as every target is that was
read; so the text of one that was read says the same when it is read once more. -/
theorem reading_inverts_writing :
    (∀ p : IncludePath, ofText p.text = p ↔
      p.system = true ∨ (p.path.head? ≠ some '"' ∧ p.path.getLast? ≠ some '"')) ∧
    ∀ raw : Text,
      ((ofText raw).system = true ∨
        ((ofText raw).path.head? ≠ some '"' ∧ (ofText raw).path.getLast? ≠ some '"')) ∧
      ofText (ofText raw).text = ofText raw ∧
      (ofText (ofText raw).text).text = (ofText raw).text := by
  refine ⟨ofText_text_iff, fun raw => ?_⟩
  have hlegible := legible_ofText raw
  have hback := (ofText_text_iff (ofText raw)).2 hlegible
  exact ⟨hlegible, hback, by rw [hback]⟩

end FeatureGuard.IncludePath

import FeatureGuard.Proofs.Preprocessor.Condition
import FeatureGuard.Proofs.Text.Word

/-!
How conditions are spelled. A condition may be written with any blank characters between its tokens;
the two spellings that are kept of it are words, parentheses and operators on one line, with single
blanks inside and none around.
-/

namespace FeatureGuard

open Preprocessor (isWordChar)

/-! ### The characters of a condition -/

/-- No character of a word is blank. -/
theorem isBlank_of_isWordChar {c : Char} (h : isWordChar c = true) : Text.isBlank c = false := by
  have hranges : isWordChar c = (decide ('A'.val ≤ c.val ∧ c.val ≤ 'Z'.val) ||
      ('a'.val ≤ c.val && c.val ≤ 'z'.val) || ('0'.val ≤ c.val && c.val ≤ '9'.val) ||
        c == '_') := rfl
  rw [hranges] at h
  simp only [Bool.or_eq_true, Bool.and_eq_true, decide_eq_true_eq, beq_iff_eq,
    UInt32.le_iff_toNat_le, Char.ext_iff, ← UInt32.toNat_inj] at h
  by_contra hblank
  simp only [Bool.not_eq_false, Text.isBlank, Text.inRanges, Text.blankRanges, List.any_cons,
    List.any_nil, Bool.or_false, Bool.or_eq_true, Bool.and_eq_true, decide_eq_true_eq] at hblank
  have hval : c.toNat = c.val.toNat := rfl
  simp only [hval, Char.reduceVal, UInt32.reduceToNat] at h hblank
  omega

namespace Condition

/-- The characters that conditions are spelled with. -/
def isSpelling (c : Char) : Bool := isWordChar c || c ∈ [' ', '(', ')', '!', '&', '|']

end Condition

open Condition (isSpelling)

theorem isSpelling_of_isWordChar {c : Char} (h : isWordChar c = true) : isSpelling c = true := by
  rw [isSpelling, h, Bool.true_or]

namespace Token

theorem scan_of_isBlank {t : Text} (h : ∀ c ∈ t, Text.isBlank c = true) : scan t = .ok [] := by
  induction t with
  | nil => rw [scan]
  | cons c t ih =>
      obtain ⟨hc, ht⟩ := List.forall_mem_cons.1 h
      rw [scan, if_pos hc, ih ht]

theorem isSpelling_of_symbol? {t rest : Text} {token : Token} (h : symbol? t = some (token, rest)) :
    ∀ c ∈ t, isSpelling c = true ∨ c ∈ rest := by
  unfold symbol? at h
  split at h <;> simp only [Option.some.injEq, Prod.mk.injEq, reduceCtorEq] at h
  all_goals
    obtain ⟨-, rfl⟩ := h
    simp only [List.forall_mem_cons]
  · exact ⟨Or.inl (by decide), fun c hc => Or.inr hc⟩
  · exact ⟨Or.inl (by decide), fun c hc => Or.inr hc⟩
  · exact ⟨Or.inl (by decide), fun c hc => Or.inr hc⟩
  · exact ⟨Or.inl (by decide), Or.inl (by decide), fun c hc => Or.inr hc⟩
  · exact ⟨Or.inl (by decide), Or.inl (by decide), fun c hc => Or.inr hc⟩

/-- Apart from blanks, a text that consists of tokens has no other characters than they have. -/
theorem isSpelling_of_scan {t : Text} {tokens : List Token} (h : scan t = .ok tokens) :
    ∀ c ∈ t, Text.isBlank c = true ∨ isSpelling c = true := by
  fun_induction scan t generalizing tokens with
  | case1 => exact fun c hc => by cases hc
  | case2 c r hblank ih => exact List.forall_mem_cons.2 ⟨Or.inl hblank, ih h⟩
  | case3 c r hblank hword =>
      rename_i ih
      cases hrest : scan (r.dropWhile isWordChar) with
      | error flaw => simp [hrest, bind, Except.bind] at h
      | ok rest =>
          refine List.forall_mem_cons.2 ⟨Or.inr (isSpelling_of_isWordChar hword), fun d hd => ?_⟩
          rw [← List.takeWhile_append_dropWhile (p := isWordChar) (l := r), List.mem_append] at hd
          rcases hd with hd | hd
          · exact Or.inr (isSpelling_of_isWordChar (List.all_eq_true.1 List.all_takeWhile d hd))
          · exact ih hrest d hd
  | case4 => cases h
  | case5 c r hblank hword token rest hsymbol _ ih =>
      cases hrest : scan rest with
      | error flaw => simp [hrest, bind, Except.bind] at h
      | ok tokens =>
          intro d hd
          rcases isSpelling_of_symbol? hsymbol d hd with hd | hd
          · exact Or.inr hd
          · exact ih hrest d hd
  | case6 => cases h

/-! ### The rendered text -/

theorem rendered_ne_nil (token : Token) : token.rendered ≠ [] := by
  cases token with
  | name n => exact List.append_ne_nil_of_right_ne_nil _ (by decide)
  | _ => decide

theorem spelling_of_all {t : Text}
    (h : t.all (fun c => isSpelling c && !Text.isBlank c) = true) {c : Char} (hc : c ∈ t) :
    isSpelling c = true ∧ Text.isBlank c = false := by
  simpa using List.all_eq_true.1 h c hc

theorem spelling_of_mem_rendered {token : Token} {c : Char} (hc : c ∈ token.rendered) :
    isSpelling c = true ∧ Text.isBlank c = false := by
  cases token with
  | name n =>
      have hword : ∀ c, isWordChar c = true → isSpelling c = true ∧ Text.isBlank c = false :=
        fun c hc => ⟨isSpelling_of_isWordChar hc, isBlank_of_isWordChar hc⟩
      have hc : c ∈ ("defined(" : Text) ++ n.text ++ (")" : Text) := hc
      rw [List.mem_append, List.mem_append] at hc
      rcases hc with (hc | hc) | hc
      · exact spelling_of_all (by decide +kernel) hc
      · exact hword c (Preprocessor.isWordChar_of_mem_name hc)
      · obtain rfl := List.mem_singleton.1 hc
        decide
  | _ => exact spelling_of_all (by decide +kernel) hc

theorem trimmed_rendered (token : Token) : token.rendered.Trimmed :=
  .of_forall fun _ hc => (spelling_of_mem_rendered hc).2

theorem render_ne_nil {tokens : List Token} (hne : tokens ≠ []) : render tokens ≠ [] := by
  obtain ⟨left, rest, rfl⟩ := List.exists_cons_of_ne_nil hne
  cases rest with
  | nil => exact rendered_ne_nil left
  | cons right rest =>
      rw [render, List.append_assoc]
      exact List.append_ne_nil_of_left_ne_nil (rendered_ne_nil left) _

theorem isSpelling_of_mem_render {tokens : List Token} {c : Char} (hc : c ∈ render tokens) :
    isSpelling c = true := by
  induction tokens with
  | nil => cases hc
  | cons left rest ih =>
      cases rest with
      | nil => exact (spelling_of_mem_rendered hc).1
      | cons right rest =>
          rw [render, List.mem_append, List.mem_append] at hc
          rcases hc with (hc | hc) | hc
          · exact (spelling_of_mem_rendered hc).1
          · split at hc
            · obtain rfl := List.mem_singleton.1 hc
              decide
            · cases hc
          · exact ih hc

theorem trimmed_render (tokens : List Token) : (render tokens).Trimmed := by
  induction tokens with
  | nil => exact .of_forall fun c hc => by cases hc
  | cons left rest ih =>
      cases rest with
      | nil => exact trimmed_rendered left
      | cons right rest =>
          rw [render]
          exact (trimmed_rendered left).append ih (rendered_ne_nil left)
            (render_ne_nil (List.cons_ne_nil right rest)) _

end Token

namespace Condition

/-- What is known of a spelling. -/
structure Spelling (t : Text) : Prop where
  characters : ∀ c ∈ t, isSpelling c = true
  trimmed : t.Trimmed
  ne_nil : t ≠ []

/-- The spellings of a condition show nothing of how it was laid out. -/
theorem spelling_of_ofText {t : Text} {c : Condition} (h : ofText t = .ok c) :
    Spelling c.human ∧ Spelling c.rendered := by
  obtain ⟨tokens, htokens, hf, rfl⟩ := ofText_eq_ok_iff.1 h
  have hne : tokens ≠ [] := by
    rintro rfl
    cases Token.checkShape_eq_ok_iff.2 hf
  -- a text of blanks only has no tokens
  have hwords : Text.words t ≠ [] := by
    intro hnil
    refine hne (Except.ok.inj (htokens.symm.trans (Token.scan_of_isBlank fun c hc => ?_)))
    by_contra hblank
    exact Text.fields_ne_nil hc (Bool.eq_false_iff.2 hblank) hnil
  have hcharacters : ∀ c ∈ normalized t, isSpelling c = true := by
    intro c hc
    rcases Text.mem_of_mem_join hc with hc | ⟨word, hword, hc⟩
    · obtain rfl := List.mem_singleton.1 hc
      decide
    · obtain ⟨hmem, hblank⟩ := Text.mem_of_mem_words hword hc
      rcases Token.isSpelling_of_scan htokens c hmem with h | h
      · exact Bool.noConfusion (hblank.symm.trans h)
      · exact h
  have htrimmed : (normalized t).Trimmed :=
    Text.trimmed_join (fun _ hword => (Text.solid_of_mem_words hword).ne_nil)
      fun _ hword => (Text.solid_of_mem_words hword).trimmed
  have hnormalized : normalized t ≠ [] :=
    Text.join_ne_nil hwords fun _ hword => (Text.solid_of_mem_words hword).ne_nil
  exact ⟨⟨hcharacters, htrimmed, hnormalized⟩,
    ⟨fun _ hc => Token.isSpelling_of_mem_render hc, Token.trimmed_render tokens,
      Token.render_ne_nil hne⟩⟩

end Condition

end FeatureGuard

import Mathlib.Data.List.Infix
import FeatureGuard.Definitions.Comment

/-!
What is known of comments. Where a text is cut, and whether a mark opens a block, is a matter of
what stands up to there. A block that is open at the end of a line was open before the line, or it
begins at some mark on the line and nothing behind the mark closes it.
-/

namespace FeatureGuard

/-! ### Cutting a text -/

namespace Text

variable {pattern t before after : Text}

theorem cut_eq_none_iff (hne : pattern ≠ []) : cut pattern t = none ↔ ¬pattern <:+: t := by
  induction t with
  | nil => simp [cut, hne]
  | cons c r ih =>
      rw [cut, List.infix_cons_iff, ← List.isPrefixOf_iff_prefix]
      split
      · rename_i hstarts
        simp [hstarts]
      · rename_i hstarts
        rw [Option.map_eq_none_iff, ih]
        simp [hstarts]

/-- What follows the first occurrence of a pattern has no part in where the pattern is found. -/
theorem cut_append (hne : pattern ≠ []) (h : cut pattern t = some (before, after)) (rest : Text) :
    cut pattern (before ++ pattern ++ rest) = some (before, rest) := by
  induction t generalizing before with
  | nil => simp [cut, hne] at h
  | cons c r ih =>
      have heq := eq_of_cut h
      rw [cut] at h
      split at h
      · cases h
        obtain ⟨d, others, rfl⟩ := List.exists_cons_of_ne_nil hne
        have hstarts : (d :: others).isPrefixOf (d :: (others ++ rest)) = true :=
          List.isPrefixOf_iff_prefix.2 (List.prefix_append _ _)
        rw [List.nil_append, List.cons_append, cut, if_pos hstarts, ← List.cons_append,
          List.drop_left]
      · rename_i hstarts
        obtain ⟨⟨b, a⟩, hcut, hsome⟩ := Option.map_eq_some_iff.1 h
        cases hsome
        -- a pattern at the start would stand there in the whole text too
        have hnot : ¬pattern.isPrefixOf (c :: (b ++ pattern ++ rest)) = true := by
          intro hlater
          rw [List.isPrefixOf_iff_prefix] at hstarts hlater
          have hshort : pattern <+: c :: (b ++ pattern) := by
            refine List.prefix_of_prefix_length_le hlater ⟨rest, by simp⟩ ?_
            simp only [List.length_cons, List.length_append]
            omega
          refine hstarts (hshort.trans ⟨after, ?_⟩)
          rw [heq]
          simp
        rw [List.cons_append, List.cons_append, cut, if_neg hnot, ih hcut]
        rfl

theorem cut_extend (hne : pattern ≠ []) (h : cut pattern t = some (before, after)) (rest : Text) :
    cut pattern (t ++ rest) = some (before, after ++ rest) := by
  rw [eq_of_cut h, List.append_assoc _ after, cut_append hne h]

theorem not_infix_of_cut (hne : pattern ≠ []) (h : cut pattern t = some (before, after)) :
    ¬pattern <:+: before := by
  induction t generalizing before with
  | nil => simp [cut, hne] at h
  | cons c r ih =>
      have heq := eq_of_cut h
      rw [cut] at h
      split at h
      · cases h
        rwa [List.infix_nil]
      · rename_i hstarts
        obtain ⟨⟨b, a⟩, hcut, hsome⟩ := Option.map_eq_some_iff.1 h
        cases hsome
        rw [List.infix_cons_iff, not_or]
        refine ⟨fun hprefix => hstarts ?_, ih hcut⟩
        rw [List.isPrefixOf_iff_prefix, heq, List.append_assoc]
        exact hprefix.trans (List.prefix_append _ _)

/-- A character that the pattern does not end with cannot complete it. -/
theorem infix_concat_iff {c : Char} (hne : pattern ≠ []) (hlast : pattern.getLast? ≠ some c) :
    pattern <:+: t ++ [c] ↔ pattern <:+: t := by
  rw [List.infix_concat_iff]
  refine or_iff_right ?_
  rintro ⟨front, hfront⟩
  refine hlast ?_
  rw [← List.getLast?_append_of_ne_nil front hne, hfront, List.getLast?_concat]

end Text

namespace Comment

open Text (cut)

/-! ### Marks -/

/-- No mark makes the rest of the text a comment. -/
structure Unmarked (t : Text) : Prop where
  sign : '#' ∉ t
  slashes : ¬("//" : Text) <:+: t

theorem Unmarked.of_isPrefix {t front : Text} (h : Unmarked t) (hfront : front <+: t) :
    Unmarked front :=
  ⟨fun hmem => h.sign (hfront.subset hmem), fun hoccurs => h.slashes (hoccurs.trans hfront.isInfix)⟩

theorem beforeMark_isPrefix (t : Text) : beforeMark t <+: t := by
  refine (List.takeWhile_prefix _).trans ?_
  split
  · rename_i before after hcut
    rw [Text.eq_of_cut hcut, List.append_assoc]
    exact List.prefix_append _ _
  · exact List.prefix_rfl

theorem unmarked_beforeMark (t : Text) : Unmarked (beforeMark t) := by
  constructor
  · intro hmem
    have hkept := List.all_eq_true.1 List.all_takeWhile '#' hmem
    simp at hkept
  · intro hoccurs
    have hoccurs := hoccurs.trans (List.takeWhile_prefix _).isInfix
    split at hoccurs
    · rename_i hcut
      exact Text.not_infix_of_cut (by decide) hcut hoccurs
    · rename_i hcut
      exact (Text.cut_eq_none_iff (by decide)).1 hcut hoccurs

/-- A text without marks stands before the first mark, where the character behind it begins none. -/
theorem isPrefix_beforeMark_append {front : Text} (h : Unmarked front) {c : Char} (hc : c ≠ '/')
    (rest : Text) : front <+: beforeMark (front ++ c :: rest) := by
  have hkept : ∀ others : Text, front <+: (front ++ others).takeWhile (· ≠ '#') := by
    intro others
    have hfront : ∀ d ∈ front, decide (d ≠ '#') = true := by
      intro d hd
      rw [decide_eq_true_eq]
      rintro rfl
      exact h.sign hd
    rw [List.takeWhile_append_of_pos hfront]
    exact List.prefix_append _ _
  rw [beforeMark]
  split
  · rename_i before after hcut
    have heq := Text.eq_of_cut hcut
    rw [List.append_assoc, List.append_eq_append_iff] at heq
    rcases heq with ⟨others, rfl, -⟩ | ⟨others, rfl, hothers⟩
    · exact hkept others
    · -- the slashes stand neither in the text nor half in it
      match others with
      | [] => simpa using hkept []
      | [d] =>
          obtain ⟨-, heq, -⟩ : '/' = d ∧ '/' = c ∧ after = rest := by simpa using hothers
          exact absurd heq.symm hc
      | d :: e :: others =>
          obtain ⟨rfl, rfl, -⟩ : '/' = d ∧ '/' = e ∧ after = others ++ c :: rest := by
            simpa using hothers
          exact absurd ⟨before, others, by simp⟩ h.slashes
  · exact hkept (c :: rest)

/-! ### Blocks -/

theorem cut_of_block? {t before after : Text} (h : block? t = some (before, after)) :
    cut "/*" t = some (before, after) :=
  (Option.filter_eq_some_iff.1 h).1

/-- What follows the mark that opens a block has no part in whether the mark opens one. -/
theorem block?_append {t before after : Text} (h : block? t = some (before, after)) (rest : Text) :
    block? (before ++ "/*" ++ rest) = some (before, rest) := by
  obtain ⟨hcut, hlength⟩ := Option.filter_eq_some_iff.1 h
  have hcut' := Text.cut_append (by decide) hcut rest
  refine Option.filter_eq_some_iff.2 ⟨hcut', decide_eq_true ?_⟩
  -- the first character of the mark stands before every mark that makes the rest a comment
  have hfront : before ++ ['/'] <+: beforeMark t := by
    refine List.prefix_of_prefix_length_le ?_ (beforeMark_isPrefix t) ?_
    · rw [Text.eq_of_cut hcut]
      exact ⟨'*' :: after, by simp⟩
    · rw [List.length_append, List.length_singleton]
      exact of_decide_eq_true hlength
  have hkept := isPrefix_beforeMark_append ((unmarked_beforeMark t).of_isPrefix hfront)
    (show '*' ≠ '/' by decide) rest
  have heq : before ++ ['/'] ++ '*' :: rest = before ++ "/*" ++ rest := by simp
  rw [heq] at hkept
  have hle := hkept.length_le
  rw [List.length_append, List.length_singleton] at hle
  exact hle

theorem block?_extend {t before after : Text} (h : block? t = some (before, after)) (rest : Text) :
    block? (t ++ rest) = some (before, after ++ rest) := by
  rw [Text.eq_of_cut (cut_of_block? h), List.append_assoc _ after, block?_append h]

/-! ### Equations of a line -/

section Strip

variable {t before after : Text} (line start : ℕ)

theorem strip_unclosed (h : ¬("*/" : Text) <:+: t) :
    strip line (some start) t = ([], some start) := by
  rw [← Text.cut_eq_none_iff (by decide)] at h
  rw [strip]
  split
  · rfl
  · rename_i hcut
    cases hcut.symm.trans h

theorem strip_closed (h : cut "*/" t = some (before, after)) :
    strip line (some start) t = (' ' :: (strip line none after).1, (strip line none after).2) := by
  conv_lhs => rw [strip]
  split
  · rename_i hcut
    cases hcut.symm.trans h
  · rename_i hcut
    cases hcut.symm.trans h
    rfl

theorem strip_unopened (h : block? t = none) : strip line none t = (beforeMark t, none) := by
  rw [strip]
  split
  · rfl
  · rename_i hblock
    cases hblock.symm.trans h

theorem strip_nil (opened : Option ℕ) : strip line opened [] = ([], opened) := by
  cases opened with
  | none => exact strip_unopened line rfl
  | some start => exact strip_unclosed line start (by decide)

theorem strip_opened (h : block? t = some (before, after)) :
    strip line none t =
      (before ++ (strip line (some line) after).1, (strip line (some line) after).2) := by
  conv_lhs => rw [strip]
  split
  · rename_i hblock
    cases hblock.symm.trans h
  · rename_i hblock
    cases hblock.symm.trans h
    rfl

theorem strip_of_not_isInfix (h : ¬("/*" : Text) <:+: t) :
    strip line none t = (beforeMark t, none) := by
  refine strip_unopened line ?_
  rw [block?, (Text.cut_eq_none_iff (by decide)).2 h]
  rfl

end Strip

/-! ### Open blocks -/

/-- A block that is open at the end of a line was open before and nothing on the line ends it, or it
begins on the line at a mark that stands outside all blocks, and nothing behind the mark ends it. -/
theorem opened_of_strip {line start : ℕ} {opened : Option ℕ} {t : Text}
    (h : (strip line opened t).2 = some start) :
    opened = some start ∧ ¬("*/" : Text) <:+: t ∨
      start = line ∧ ∃ before after, t = before ++ "/*" ++ after ∧
        (strip line opened before).2 = none ∧
          (strip line opened (before ++ "/*")).2 = some line ∧ ¬("*/" : Text) <:+: after := by
  induction opened, t using strip.induct line with
  | case1 t earlier hcut =>
      have hopen := (Text.cut_eq_none_iff (by decide)).1 hcut
      rw [strip_unclosed line earlier hopen] at h
      exact .inl ⟨h, hopen⟩
  | case2 t earlier before after hcut _ _ _ _ ih =>
      have hclosed : ∀ rest, (strip line (some earlier) (before ++ "*/" ++ rest)).2 =
          (strip line none rest).2 := by
        intro rest
        rw [strip_closed line earlier (Text.cut_append (by decide) hcut rest)]
      rw [strip_closed line earlier hcut] at h
      obtain ⟨hnone, -⟩ | ⟨rfl, front, back, rfl, hbefore, hmark, hback⟩ := ih h
      · cases hnone
      · refine .inr ⟨rfl, before ++ "*/" ++ front, back, ?_, ?_, ?_, hback⟩
        · rw [Text.eq_of_cut hcut]
          simp only [List.append_assoc]
        · rw [hclosed, hbefore]
        · rw [List.append_assoc _ front, hclosed, hmark]
  | case3 t hblock =>
      rw [strip_unopened line hblock] at h
      cases h
  | case4 t before after hblock _ _ _ _ ih =>
      have hopened : ∀ rest, (strip line none (before ++ "/*" ++ rest)).2 =
          (strip line (some line) rest).2 := by
        intro rest
        rw [strip_opened line (block?_append hblock rest)]
      rw [strip_opened line hblock] at h
      have heq := Text.eq_of_cut (cut_of_block? hblock)
      obtain ⟨hstart, hafter⟩ | ⟨rfl, front, back, rfl, hbefore, hmark, hback⟩ := ih h
      · cases hstart
        refine .inr ⟨rfl, before, after, heq, ?_, ?_, hafter⟩
        · rw [strip_of_not_isInfix line (Text.not_infix_of_cut (by decide) (cut_of_block? hblock))]
        · rw [← List.append_nil (before ++ _), hopened, strip_nil]
      · refine .inr ⟨rfl, before ++ "/*" ++ front, back, ?_, ?_, ?_, hback⟩
        · rw [heq]
          simp only [List.append_assoc]
        · rw [hopened, hbefore]
        · rw [List.append_assoc _ front, hopened, hmark]

theorem strip_eq_nil {line start : ℕ} {opened : Option ℕ} {t : Text}
    (h : (strip line opened t).2 = some start) (hne : start ≠ line) :
    (strip line opened t).1 = [] := by
  obtain ⟨rfl, hopen⟩ | ⟨heq, -⟩ := opened_of_strip h
  · rw [strip_unclosed line start hopen]
  · exact absurd heq hne

/-! ### Lines of another number, and lines with a carriage return -/

/-- The number of a line shows only in where open blocks began. -/
theorem strip_add (line k : ℕ) (opened : Option ℕ) (t : Text) :
    strip (line + k) (opened.map (· + k)) t =
      ((strip line opened t).1, (strip line opened t).2.map (· + k)) := by
  induction opened, t using strip.induct line with
  | case1 t earlier hcut =>
      have hopen := (Text.cut_eq_none_iff (by decide)).1 hcut
      rw [Option.map_some, strip_unclosed _ _ hopen, strip_unclosed _ _ hopen]
      rfl
  | case2 t earlier before after hcut _ _ _ _ ih =>
      rw [Option.map_none] at ih
      rw [Option.map_some, strip_closed _ _ hcut, strip_closed _ _ hcut, ih]
  | case3 t hblock =>
      rw [Option.map_none, strip_unopened _ hblock, strip_unopened _ hblock]
      rfl
  | case4 t before after hblock _ _ _ _ ih =>
      rw [Option.map_some] at ih
      rw [Option.map_none, strip_opened _ hblock, strip_opened _ hblock, ih]

/-- A carriage return at the end of a text belongs to no mark. -/
theorem beforeMark_return (t : Text) :
    beforeMark (t ++ ['\r']) = beforeMark t ∨
      beforeMark (t ++ ['\r']) = beforeMark t ++ ['\r'] := by
  have hnone : cut "//" t = none → cut "//" (t ++ ['\r']) = none := by
    rw [Text.cut_eq_none_iff (by decide), Text.cut_eq_none_iff (by decide),
      Text.infix_concat_iff (by decide) (by decide)]
    exact id
  simp only [beforeMark]
  cases hcut : cut "//" t with
  | none =>
      rw [hnone hcut]
      dsimp only
      rw [List.takeWhile_append]
      split
      · rename_i hall
        right
        rw [(List.takeWhile_prefix _).eq_of_length hall]
        rfl
      · exact .inl rfl
  | some pieces =>
      obtain ⟨before, after⟩ := pieces
      rw [Text.cut_extend (by decide) hcut]
      exact .inl rfl

theorem block?_return {t : Text} (h : block? t = none) : block? (t ++ ['\r']) = none := by
  rw [Option.eq_none_iff_forall_not_mem]
  rintro ⟨before, after⟩ hblock
  -- the mark that opens a block stands in the text itself
  have hmark : ("/*" : Text) <:+: t := by
    refine (Text.infix_concat_iff (c := '\r') (by decide) (by decide)).1 ?_
    exact ⟨before, after, (Text.eq_of_cut (cut_of_block? hblock)).symm⟩
  obtain ⟨⟨front, back⟩, hcut⟩ : ∃ pieces, cut "/*" t = some pieces := by
    rwa [← Option.ne_none_iff_exists', Ne, Text.cut_eq_none_iff (by decide), not_not]
  cases (cut_of_block? hblock).symm.trans (Text.cut_extend (by decide) hcut ['\r'])
  have hsome := block?_append hblock back
  rw [← Text.eq_of_cut hcut, h] at hsome
  cases hsome

/-- A carriage return at the end of a line changes nothing but, at most, the end of its content. -/
theorem strip_return (line : ℕ) (opened : Option ℕ) (t : Text) :
    (strip line opened (t ++ ['\r'])).2 = (strip line opened t).2 ∧
      ((strip line opened (t ++ ['\r'])).1 = (strip line opened t).1 ∨
        (strip line opened (t ++ ['\r'])).1 = (strip line opened t).1 ++ ['\r']) := by
  induction opened, t using strip.induct line with
  | case1 t earlier hcut =>
      have hopen := (Text.cut_eq_none_iff (by decide)).1 hcut
      rw [strip_unclosed _ _ hopen, strip_unclosed]
      · exact ⟨rfl, .inl rfl⟩
      · rwa [Text.infix_concat_iff (by decide) (by decide)]
  | case2 t earlier before after hcut _ _ _ _ ih =>
      rw [strip_closed _ _ hcut, strip_closed _ _ (Text.cut_extend (by decide) hcut _)]
      exact ⟨ih.1, ih.2.imp (congrArg (' ' :: ·)) (congrArg (' ' :: ·))⟩
  | case3 t hblock =>
      rw [strip_unopened _ hblock, strip_unopened _ (block?_return hblock)]
      exact ⟨rfl, beforeMark_return t⟩
  | case4 t before after hblock _ _ _ _ ih =>
      rw [strip_opened _ hblock, strip_opened _ (block?_extend hblock _), List.append_assoc]
      exact ⟨ih.1, ih.2.imp (congrArg (before ++ ·)) (congrArg (before ++ ·))⟩

end Comment

end FeatureGuard

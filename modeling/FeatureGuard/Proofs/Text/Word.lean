import Mathlib.Data.List.Basic
import Mathlib.Data.List.TakeWhile
import FeatureGuard.Text.Basic

/-!
Words. A text falls into fields at its separators, and into words at its blanks; words that are
joined with single blanks are found again. The first word of a text is what stands in front of the
first blanks.
-/

namespace FeatureGuard.Text

/-! ### The ends of a text -/

/-- No blank character stands at either end. -/
structure Trimmed (t : Text) : Prop where
  head : ∀ c ∈ t.head?, isBlank c = false
  last : ∀ c ∈ t.getLast?, isBlank c = false

theorem Trimmed.of_forall {t : Text} (h : ∀ c ∈ t, isBlank c = false) : t.Trimmed :=
  ⟨fun c hc => h c (List.mem_of_mem_head? hc), fun c hc => h c (List.mem_of_getLast? hc)⟩

theorem Trimmed.of_append {a b : Text} {c : Char} (hhead : a.head? = some c)
    (hc : isBlank c = false) (hlast : ∀ d ∈ b.getLast?, isBlank d = false) (hne : b ≠ []) :
    (a ++ b).Trimmed := by
  constructor
  · intro d hd
    rw [List.head?_append, hhead, Option.some_or] at hd
    cases hd
    exact hc
  · intro d hd
    rw [List.getLast?_append, List.getLast?_eq_some_getLast hne, Option.some_or,
      ← List.getLast?_eq_some_getLast hne] at hd
    exact hlast d hd

theorem Trimmed.of_ends {a b : Text} {c d : Char} (hhead : a.head? = some c)
    (hc : isBlank c = false) (hlast : b.getLast? = some d) (hd : isBlank d = false) :
    (a ++ b).Trimmed := by
  refine .of_append hhead hc ?_ ?_
  · rw [hlast]
    rintro _ ⟨rfl⟩
    exact hd
  · rintro rfl
    cases hlast

theorem Trimmed.append {a b : Text} (ha : a.Trimmed) (hb : b.Trimmed) (hne : a ≠ [])
    (hne' : b ≠ []) (middle : Text) : (a ++ middle ++ b).Trimmed := by
  obtain ⟨c, a, rfl⟩ := List.exists_cons_of_ne_nil hne
  exact .of_append rfl (ha.head c rfl) hb.last hne'

theorem dropWhile_eq_self {p : Char → Bool} {t : Text} (h : ∀ c ∈ t.head?, p c = false) :
    t.dropWhile p = t := by
  cases t with
  | nil => rfl
  | cons c t => rw [List.dropWhile_cons_of_neg (Bool.eq_false_iff.1 (h c rfl))]

theorem dropEndWhile_eq_self {p : Char → Bool} {t : Text} (h : ∀ c ∈ t.getLast?, p c = false) :
    dropEndWhile p t = t := by
  have hreverse : t.reverse.dropWhile p = t.reverse :=
    dropWhile_eq_self fun c hc => h c (List.head?_reverse ▸ hc)
  rw [dropEndWhile, hreverse, List.reverse_reverse]

theorem of_mem_head?_dropWhile {p : Char → Bool} {t : Text} {c : Char}
    (hc : c ∈ (t.dropWhile p).head?) : p c = false := by
  have hnot := List.head?_dropWhile_not p t
  rw [hc] at hnot
  exact hnot

/-- A run of characters ends at the latest in front of one that has no part in it. -/
theorem takeWhile_append_cons {p : Char → Bool} {c : Char} (hc : p c = false) (a b : Text) :
    (a ++ c :: b).takeWhile p = a.takeWhile p := by
  rw [List.takeWhile_append, List.takeWhile_cons_of_neg (Bool.eq_false_iff.1 hc), List.append_nil]
  split_ifs with hall
  · exact ((List.takeWhile_prefix p).eq_of_length hall).symm
  · rfl

theorem dropWhile_append_cons {p : Char → Bool} {c : Char} (hc : p c = false) (a b : Text) :
    (a ++ c :: b).dropWhile p = a.dropWhile p ++ c :: b := by
  rw [List.dropWhile_append, List.dropWhile_cons_of_neg (Bool.eq_false_iff.1 hc)]
  split_ifs with hnil
  · rw [List.isEmpty_iff.1 hnil, List.nil_append]
  · rfl

theorem Trimmed.trimStart_eq {t : Text} (h : t.Trimmed) : trimStart t = t :=
  dropWhile_eq_self h.head

theorem Trimmed.trim_eq {t : Text} (h : t.Trimmed) : trim t = t := by
  rw [trim, h.trimStart_eq, trimEnd, dropEndWhile_eq_self h.last]

/-! ### Characters at both ends -/

/-- Removes certain characters at both ends. -/
def dropEnds (p : Char → Bool) (t : Text) : Text := dropEndWhile p (t.dropWhile p)

variable {p : Char → Bool}

theorem dropEndWhile_isPrefix (p : Char → Bool) (t : Text) : dropEndWhile p t <+: t := by
  rw [dropEndWhile, ← List.reverse_suffix, List.reverse_reverse]
  exact List.dropWhile_suffix _

theorem of_mem_head?_dropEnds {t : Text} {c : Char} (hc : c ∈ (dropEnds p t).head?) :
    p c = false := by
  -- what is left in front of the end begins as it did before
  obtain ⟨rest, hrest⟩ := List.head?_eq_some_iff.1 hc
  obtain ⟨others, hothers⟩ := dropEndWhile_isPrefix p (t.dropWhile p)
  refine of_mem_head?_dropWhile (p := p) (t := t) ?_
  rw [dropEnds] at hrest
  rw [← hothers, hrest]
  rfl

theorem of_mem_getLast?_dropEnds {t : Text} {c : Char} (hc : c ∈ (dropEnds p t).getLast?) :
    p c = false := by
  rw [dropEnds, dropEndWhile, List.getLast?_reverse] at hc
  exact of_mem_head?_dropWhile hc

theorem dropEnds_eq_self {t : Text} (hhead : ∀ c ∈ t.head?, p c = false)
    (hlast : ∀ c ∈ t.getLast?, p c = false) : dropEnds p t = t := by
  rw [dropEnds, dropWhile_eq_self hhead, dropEndWhile_eq_self hlast]

theorem dropEnds_cons {c : Char} (hc : p c = true) (t : Text) :
    dropEnds p (c :: t) = dropEnds p t := by
  rw [dropEnds, List.dropWhile_cons_of_pos hc, dropEnds]

theorem dropEnds_concat {c : Char} (hc : p c = true) (t : Text) :
    dropEnds p (t ++ [c]) = dropEnds p t := by
  have hend : ∀ r : Text, dropEndWhile p (r ++ [c]) = dropEndWhile p r := by
    intro r
    rw [dropEndWhile, List.reverse_concat, List.dropWhile_cons_of_pos hc]
    rfl
  rw [dropEnds, List.dropWhile_append]
  split_ifs with hall
  · rw [List.isEmpty_iff] at hall
    rw [dropEnds, hall, List.dropWhile_cons_of_pos hc]
    rfl
  · exact hend _

theorem trim_isPrefix_trimStart (t : Text) : trim t <+: trimStart t :=
  dropEndWhile_isPrefix isBlank (trimStart t)

theorem trimmed_trim (t : Text) : (trim t).Trimmed :=
  ⟨fun _ hc => of_mem_head?_dropEnds hc, fun _ hc => of_mem_getLast?_dropEnds hc⟩

/-- A blank at the end counts for nothing. -/
theorem trim_concat {c : Char} (hc : isBlank c = true) (t : Text) : trim (t ++ [c]) = trim t :=
  dropEnds_concat hc t

/-! ### Fields -/

theorem mem_of_mem_splitOnP {p : Char → Bool} {t piece : Text} (h : piece ∈ t.splitOnP p)
    {c : Char} (hc : c ∈ piece) : c ∈ t ∧ p c = false := by
  induction t generalizing piece with
  | nil =>
      obtain rfl := List.mem_singleton.1 h
      cases hc
  | cons a t ih =>
      rw [List.splitOnP_cons_eq_if_modifyHead] at h
      split at h
      · rcases List.mem_cons.1 h with rfl | h
        · cases hc
        · exact (ih h hc).imp_left (List.mem_cons_of_mem a)
      · rename_i ha
        obtain ⟨first, rest, hsplit⟩ := List.exists_cons_of_ne_nil (List.splitOnP_ne_nil p t)
        rw [hsplit, List.modifyHead_cons] at h
        rw [hsplit] at ih
        rcases List.mem_cons.1 h with rfl | h
        · rcases List.mem_cons.1 hc with rfl | hc
          · exact ⟨List.mem_cons_self, Bool.eq_false_iff.2 ha⟩
          · exact (ih List.mem_cons_self hc).imp_left (List.mem_cons_of_mem a)
        · exact (ih (List.mem_cons_of_mem _ h) hc).imp_left (List.mem_cons_of_mem a)

theorem beq_eq_false_of_not_mem {t : Text} {c : Char} (h : c ∉ t) :
    ∀ d ∈ t, (d == c) = false := by
  intro d hd
  rw [beq_eq_false_iff_ne]
  rintro rfl
  exact h hd

theorem exists_mem_splitOnP {p : Char → Bool} {t : Text} {c : Char} (hc : c ∈ t)
    (hp : p c = false) : ∃ piece ∈ t.splitOnP p, c ∈ piece := by
  induction t with
  | nil => cases hc
  | cons a t ih =>
      rw [List.splitOnP_cons_eq_if_modifyHead]
      split
      · rename_i ha
        rcases List.mem_cons.1 hc with rfl | hc
        · exact Bool.noConfusion (ha.symm.trans hp)
        · obtain ⟨piece, hpiece, hmem⟩ := ih hc
          exact ⟨piece, List.mem_cons_of_mem _ hpiece, hmem⟩
      · obtain ⟨first, rest, hsplit⟩ := List.exists_cons_of_ne_nil (List.splitOnP_ne_nil p t)
        rw [hsplit, List.modifyHead_cons]
        rcases List.mem_cons.1 hc with rfl | hc
        · exact ⟨c :: first, List.mem_cons_self, List.mem_cons_self⟩
        · obtain ⟨piece, hpiece, hmem⟩ := ih hc
          rw [hsplit] at hpiece
          rcases List.mem_cons.1 hpiece with rfl | hpiece
          · exact ⟨a :: piece, List.mem_cons_self, List.mem_cons_of_mem a hmem⟩
          · exact ⟨piece, List.mem_cons_of_mem _ hpiece, hmem⟩

theorem fields_append_cons (separator : Char → Bool) (a b : Text) {c : Char}
    (hc : separator c = true) :
    fields separator (a ++ c :: b) = fields separator a ++ fields separator b := by
  rw [fields, List.splitOnP_append_cons a b hc, List.filter_append, fields, fields]

theorem fields_ne_nil {separator : Char → Bool} {t : Text} {c : Char} (hc : c ∈ t)
    (hseparator : separator c = false) : fields separator t ≠ [] := by
  obtain ⟨piece, hpiece, hmem⟩ := exists_mem_splitOnP hc hseparator
  refine List.ne_nil_of_mem (List.mem_filter.2 ⟨hpiece, ?_⟩)
  exact decide_eq_true (List.ne_nil_of_mem hmem)

/-- Separators in front of a text are no part of its fields. -/
theorem fields_append_of_forall {separator : Char → Bool} {front : Text}
    (h : ∀ c ∈ front, separator c = true) (t : Text) :
    fields separator (front ++ t) = fields separator t := by
  induction front with
  | nil => rfl
  | cons c front ih =>
      obtain ⟨hc, hfront⟩ := List.forall_mem_cons.1 h
      have hcut := fields_append_cons separator [] (front ++ t) hc
      rw [List.cons_append, ← ih hfront]
      exact hcut

/-- A text without separators is a field. -/
theorem fields_of_forall {separator : Char → Bool} {field : Text} (hne : field ≠ [])
    (h : ∀ c ∈ field, separator c = false) : fields separator field = [field] := by
  rw [fields, List.splitOnP_eq_singleton h]
  exact List.filter_cons_of_pos (decide_eq_true hne)

/-- Separators between two texts, one at least, keep their fields apart. -/
theorem fields_append_gap {separator : Char → Bool} {gap : Text} (hne : gap ≠ [])
    (h : ∀ c ∈ gap, separator c = true) (a b : Text) :
    fields separator (a ++ gap ++ b) = fields separator a ++ fields separator b := by
  obtain ⟨c, others, rfl⟩ := List.exists_cons_of_ne_nil hne
  obtain ⟨hc, hothers⟩ := List.forall_mem_cons.1 h
  rw [List.append_assoc, List.cons_append, fields_append_cons separator _ _ hc,
    fields_append_of_forall hothers]

theorem fields_trimStart {separator : Char → Bool}
    (h : ∀ c, isBlank c = true → separator c = true) (t : Text) :
    fields separator (trimStart t) = fields separator t := by
  have hfront : ∀ c ∈ t.takeWhile isBlank, separator c = true :=
    fun c hc => h c (List.all_eq_true.1 List.all_takeWhile c hc)
  rw [← fields_append_of_forall hfront, trimStart, List.takeWhile_append_dropWhile]

/-- A text is a single field, or there is a first separator in it. -/
theorem separatorInduction (separator : Char → Bool) {P : Text → Prop}
    (single : ∀ field, (∀ c ∈ field, separator c = false) → P field)
    (append : ∀ field c rest, (∀ d ∈ field, separator d = false) → separator c = true → P field →
      P rest → P (field ++ c :: rest)) (t : Text) : P t := by
  -- the field that the text begins with grows until a separator is met
  suffices h : ∀ field, (∀ c ∈ field, separator c = false) → P (field ++ t) from
    h [] (List.forall_mem_nil _)
  induction t with
  | nil =>
      intro field hfield
      rw [List.append_nil]
      exact single field hfield
  | cons c rest ih =>
      intro field hfield
      cases hc : separator c with
      | true =>
          exact append field c rest hfield hc (single field hfield) (ih [] (List.forall_mem_nil _))
      | false =>
          rw [← List.singleton_append, ← List.append_assoc]
          refine ih (field ++ [c]) ?_
          rw [List.forall_mem_append, List.forall_mem_singleton]
          exact ⟨hfield, hc⟩

/-! ### Words -/

/-- A word: something, but no blanks. -/
structure Solid (t : Text) : Prop where
  ne_nil : t ≠ []
  not_blank : ∀ c ∈ t, isBlank c = false

theorem solid_of_all {t : Text} (hne : t ≠ []) (h : (t.all fun c => !isBlank c) = true) :
    t.Solid := by
  refine ⟨hne, fun c hc => ?_⟩
  rw [← Bool.not_eq_true', List.all_eq_true.1 h c hc]

theorem Solid.trimmed {t : Text} (h : t.Solid) : t.Trimmed := .of_forall h.not_blank

theorem Solid.append {a b : Text} (ha : a.Solid) (hb : b.Solid) : Solid (a ++ b) :=
  ⟨List.append_ne_nil_of_left_ne_nil ha.ne_nil b,
    List.forall_mem_append.2 ⟨ha.not_blank, hb.not_blank⟩⟩

theorem mem_of_mem_words {t word : Text} (h : word ∈ words t) {c : Char} (hc : c ∈ word) :
    c ∈ t ∧ isBlank c = false :=
  mem_of_mem_splitOnP (List.mem_filter.1 h).1 hc

theorem solid_of_mem_words {t word : Text} (h : word ∈ words t) : word.Solid :=
  ⟨of_decide_eq_true (List.mem_filter.1 h).2, fun _ hc => (mem_of_mem_words h hc).2⟩

theorem words_of_solid {word : Text} (h : word.Solid) : words word = [word] :=
  fields_of_forall h.ne_nil h.not_blank

theorem words_trimStart (t : Text) : words (trimStart t) = words t :=
  fields_trimStart (fun _ => id) t

theorem words_append_cons (a b : Text) {c : Char} (hc : isBlank c = true) :
    words (a ++ c :: b) = words a ++ words b :=
  fields_append_cons isBlank a b hc

/-! ### Joined texts -/

theorem join_append_join {separator : Text} {ts us : List Text} (hts : ts ≠ []) (hus : us ≠ []) :
    join separator (ts ++ us) = join separator ts ++ separator ++ join separator us := by
  induction ts with
  | nil => exact absurd rfl hts
  | cons t ts ih =>
      cases ts with
      | nil =>
          obtain ⟨u, us, rfl⟩ := List.exists_cons_of_ne_nil hus
          rfl
      | cons v ts =>
          show t ++ separator ++ join separator (v :: ts ++ us) =
            t ++ separator ++ join separator (v :: ts) ++ separator ++ join separator us
          rw [ih (List.cons_ne_nil v ts)]
          simp only [List.append_assoc]

theorem join_append {separator : Text} {ts : List Text} (hne : ts ≠ []) (t : Text) :
    join separator (ts ++ [t]) = join separator ts ++ separator ++ t :=
  join_append_join hne (List.cons_ne_nil t [])

theorem mem_of_mem_join {separator : Text} {ts : List Text} {c : Char}
    (h : c ∈ join separator ts) : c ∈ separator ∨ ∃ t ∈ ts, c ∈ t := by
  induction ts with
  | nil => cases h
  | cons t ts ih =>
      cases ts with
      | nil => exact Or.inr ⟨t, List.mem_singleton_self t, h⟩
      | cons u ts =>
          have h : c ∈ t ++ separator ++ join separator (u :: ts) := h
          rw [List.mem_append, List.mem_append] at h
          rcases h with (h | h) | h
          · exact Or.inr ⟨t, List.mem_cons_self, h⟩
          · exact Or.inl h
          · exact (ih h).imp_right fun ⟨v, hv, hc⟩ => ⟨v, List.mem_cons_of_mem t hv, hc⟩

theorem mem_join_of_mem {separator : Text} {ts : List Text} {t : Text} {c : Char} (ht : t ∈ ts)
    (hc : c ∈ t) : c ∈ join separator ts := by
  induction ts with
  | nil => cases ht
  | cons u ts ih =>
      cases ts with
      | nil =>
          obtain rfl := List.mem_singleton.1 ht
          exact hc
      | cons v ts =>
          show c ∈ u ++ separator ++ join separator (v :: ts)
          rcases List.mem_cons.1 ht with rfl | ht
          · exact List.mem_append_left _ (List.mem_append_left _ hc)
          · exact List.mem_append_right _ (ih ht)

theorem join_ne_nil {separator : Text} {ts : List Text} (hne : ts ≠ [])
    (h : ∀ t ∈ ts, t ≠ []) : join separator ts ≠ [] := by
  obtain ⟨t, ts, rfl⟩ := List.exists_cons_of_ne_nil hne
  have ht : t ≠ [] := h t List.mem_cons_self
  cases ts with
  | nil => exact ht
  | cons u ts => simp [join, ht]

theorem trimmed_join {separator : Text} {ts : List Text} (h : ∀ t ∈ ts, t ≠ [])
    (htrimmed : ∀ t ∈ ts, t.Trimmed) : (join separator ts).Trimmed := by
  induction ts with
  | nil => exact .of_forall fun c hc => by cases hc
  | cons t ts ih =>
      obtain ⟨ht, hrest⟩ := List.forall_mem_cons.1 h
      obtain ⟨httrimmed, hresttrimmed⟩ := List.forall_mem_cons.1 htrimmed
      cases ts with
      | nil => exact httrimmed
      | cons u ts =>
          exact httrimmed.append (ih hrest hresttrimmed) ht
            (join_ne_nil (List.cons_ne_nil u ts) hrest) separator

/-- Fields that are joined with separators are found again. -/
theorem fields_join {separator : Char → Bool} {gap : Text} (hne : gap ≠ [])
    (hgap : ∀ c ∈ gap, separator c = true) {ts : List Text}
    (h : ∀ t ∈ ts, fields separator t = [t]) : fields separator (join gap ts) = ts := by
  induction ts with
  | nil => rfl
  | cons t ts ih =>
      obtain ⟨ht, hts⟩ := List.forall_mem_cons.1 h
      cases ts with
      | nil => exact ht
      | cons u ts =>
          show fields separator (t ++ gap ++ join gap (u :: ts)) = _
          rw [fields_append_gap hne hgap, ht, ih hts]
          rfl

theorem words_join {ts : List Text} (h : ∀ t ∈ ts, t.Solid) : words (join " " ts) = ts :=
  fields_join (by decide) (List.all_eq_true.1 (by decide)) fun t ht => words_of_solid (h t ht)

/-! ### The first word -/

/-- Blanks, one at least. -/
structure Gap (t : Text) : Prop where
  ne_nil : t ≠ []
  blank : ∀ c ∈ t, isBlank c = true

theorem gap_of_all {t : Text} (hne : t ≠ []) (h : t.all isBlank = true) : t.Gap :=
  ⟨hne, List.all_eq_true.1 h⟩

theorem Gap.trimStart_append {gap : Text} (h : gap.Gap) (t : Text) :
    trimStart (gap ++ t) = trimStart t :=
  List.dropWhile_append_of_pos h.blank

theorem Solid.not_isBlank {word : Text} (h : word.Solid) : ∀ c ∈ word, (!isBlank c) = true := by
  intro c hc
  rw [h.not_blank c hc]
  rfl

theorem Solid.trimStart_append {word : Text} (h : word.Solid) (rest : Text) :
    trimStart (word ++ rest) = word ++ rest := by
  obtain ⟨c, others, rfl⟩ := List.exists_cons_of_ne_nil h.ne_nil
  exact List.dropWhile_cons_of_neg (Bool.eq_false_iff.1 (h.not_blank c List.mem_cons_self))

theorem splitWord_of_solid {word : Text} (h : word.Solid) : splitWord word = (word, []) := by
  have hall := h.not_isBlank
  simp only [splitWord, h.trimmed.trimStart_eq]
  rw [List.takeWhile_eq_self_iff.2 hall, List.dropWhile_eq_nil_iff.2 hall]
  rfl

theorem splitWord_append {word gap : Text} (hword : word.Solid) (hgap : gap.Gap) (rest : Text) :
    splitWord (word ++ gap ++ rest) = (word, trimStart rest) := by
  obtain ⟨c, blanks, rfl⟩ := List.exists_cons_of_ne_nil hgap.ne_nil
  have hc : (!isBlank c) = false := by
    rw [hgap.blank c List.mem_cons_self]
    rfl
  have hstart : trimStart (word ++ (c :: blanks) ++ rest) = word ++ c :: (blanks ++ rest) := by
    rw [List.append_assoc, hword.trimStart_append, List.cons_append]
  simp only [splitWord, hstart]
  rw [takeWhile_append_cons hc, dropWhile_append_cons hc,
    List.takeWhile_eq_self_iff.2 hword.not_isBlank, List.dropWhile_eq_nil_iff.2 hword.not_isBlank]
  exact congrArg (Prod.mk word) (hgap.trimStart_append rest)

theorem Trimmed.eq_nil_of_splitWord {t : Text} (h : t.Trimmed) (hword : (splitWord t).1 = []) :
    t = [] := by
  cases t with
  | nil => rfl
  | cons c t =>
      simp only [splitWord, h.trimStart_eq] at hword
      rw [List.takeWhile_cons_of_pos (by rw [h.head c rfl]; rfl)] at hword
      cases hword

/-- What follows the first word of a text follows it behind blanks. -/
theorem Trimmed.cases_splitWord {t word rest : Text} (h : t.Trimmed)
    (hsplit : splitWord t = (word, rest)) : rest.Trimmed ∧
      (rest = [] ∧ t = word ∨ rest ≠ [] ∧ ∃ gap, gap.Gap ∧ t = word ++ gap ++ rest) := by
  simp only [splitWord, h.trimStart_eq] at hsplit
  obtain ⟨rfl, hrest⟩ := Prod.mk.inj hsplit
  have hword := List.takeWhile_append_dropWhile (p := fun c => !isBlank c) (l := t)
  have hgap := List.takeWhile_append_dropWhile (p := isBlank) (l := t.dropWhile (!isBlank ·))
  rw [trimStart] at hrest
  rw [hrest] at hgap
  have ht : t = t.takeWhile (!isBlank ·) ++ (t.dropWhile (!isBlank ·)).takeWhile isBlank ++
      rest := by
    rw [List.append_assoc, hgap, hword]
  have hblank : ∀ c ∈ (t.dropWhile (!isBlank ·)).takeWhile isBlank, isBlank c = true :=
    List.all_eq_true.1 List.all_takeWhile
  by_cases hnil : rest = []
  · refine ⟨hnil ▸ .of_forall (List.forall_mem_nil _), .inl ⟨hnil, ?_⟩⟩
    -- blanks at the end of the text would have been trimmed
    rw [hnil, List.append_nil] at ht
    rcases List.eq_nil_or_concat' ((t.dropWhile (!isBlank ·)).takeWhile isBlank) with
      hnone | ⟨front, c, hlast⟩
    · rw [hnone, List.append_nil] at ht
      exact ht
    · have hc : c ∈ t.getLast? := by
        rw [ht, hlast, ← List.append_assoc, List.getLast?_concat]
        rfl
      have hc' := hblank c (by rw [hlast]; exact List.mem_concat_self)
      exact Bool.noConfusion (hc'.symm.trans (h.last c hc))
  · refine ⟨⟨fun c hc => ?_, fun c hc => ?_⟩, .inr ⟨hnil, _, ⟨?_, hblank⟩, ht⟩⟩
    · rw [← hrest] at hc
      exact of_mem_head?_dropWhile hc
    · refine h.last c ?_
      rw [ht, List.getLast?_append_of_ne_nil _ hnil]
      exact hc
    · intro hnone
      rw [hnone, List.nil_append] at hgap
      -- what follows the word begins with a blank, and the rest with none
      obtain ⟨c, others, rfl⟩ := List.exists_cons_of_ne_nil hnil
      have hfirst : isBlank c = false := of_mem_head?_dropWhile (t := t.dropWhile (!isBlank ·))
        (by rw [hrest]; rfl)
      have hnext : (!isBlank c) = false := of_mem_head?_dropWhile (t := t) (by rw [← hgap]; rfl)
      rw [hfirst] at hnext
      cases hnext

/-! ### Single blanks -/

/-- The second text is the first one with single blanks between its words and none at the ends. -/
inductive Squeezed : Text → Text → Prop
  | nil : Squeezed [] []
  | blank {c : Char} {t squeezed : Text} : isBlank c = true → Squeezed t squeezed →
      Squeezed (c :: t) squeezed
  | last {word blanks : Text} : word.Solid → (∀ c ∈ blanks, isBlank c = true) →
      Squeezed (word ++ blanks) word
  | more {word gap rest squeezed : Text} : word.Solid → gap.Gap → Squeezed rest squeezed →
      squeezed ≠ [] → Squeezed (word ++ gap ++ rest) (word ++ " " ++ squeezed)

namespace Squeezed

variable {t squeezed : Text}

theorem forall_isBlank (h : Squeezed t squeezed) (hnil : squeezed = []) :
    ∀ c ∈ t, isBlank c = true := by
  induction h with
  | nil => exact List.forall_mem_nil _
  | blank hc _ ih => exact List.forall_mem_cons.2 ⟨hc, ih hnil⟩
  | last hword _ => exact absurd hnil hword.ne_nil
  | more hword _ _ _ _ =>
      refine absurd hnil (List.append_ne_nil_of_left_ne_nil ?_ _)
      exact List.append_ne_nil_of_left_ne_nil hword.ne_nil _

theorem exists_squeezed (t : Text) : ∃ squeezed, Squeezed t squeezed := by
  induction t using separatorInduction isBlank with
  | single field hfield =>
      by_cases hnil : field = []
      · exact ⟨[], hnil ▸ .nil⟩
      · refine ⟨field, ?_⟩
        have hlast : Squeezed (field ++ []) field := .last ⟨hnil, hfield⟩ (List.forall_mem_nil _)
        rwa [List.append_nil] at hlast
  | append field c rest hfield hc _ ih =>
      obtain ⟨squeezed, hsqueezed⟩ := ih
      by_cases hnil : field = []
      · exact ⟨squeezed, hnil ▸ .blank hc hsqueezed⟩
      · by_cases hrest : squeezed = []
        · have hblanks : ∀ d ∈ c :: rest, isBlank d = true :=
            List.forall_mem_cons.2 ⟨hc, hsqueezed.forall_isBlank hrest⟩
          exact ⟨field, .last ⟨hnil, hfield⟩ hblanks⟩
        · refine ⟨field ++ " " ++ squeezed, ?_⟩
          have hgap : Gap [c] := ⟨List.cons_ne_nil c [], List.forall_mem_singleton.2 hc⟩
          have hmore := Squeezed.more ⟨hnil, hfield⟩ hgap hsqueezed hrest
          rwa [List.append_assoc] at hmore

theorem eq_join (h : Squeezed t squeezed) : squeezed = join " " t.words := by
  have hblanks : ∀ {blanks : Text}, (∀ c ∈ blanks, isBlank c = true) → ∀ t : Text,
      Text.words (blanks ++ t) = t.words := fun h t => fields_append_of_forall h t
  induction h with
  | nil => rfl
  | @blank c t squeezed hc _ ih => rw [ih, ← hblanks (List.forall_mem_singleton.2 hc) t]; rfl
  | @last word blanks hword hall =>
      cases blanks with
      | nil => rw [List.append_nil, words_of_solid hword, join]
      | cons c others =>
          obtain ⟨hc, hothers⟩ := List.forall_mem_cons.1 hall
          have hnone := hblanks hothers []
          rw [List.append_nil] at hnone
          rw [words_append_cons _ _ hc, words_of_solid hword, hnone]
          rfl
  | more hword hgap _ hne ih =>
      have hwords := fields_append_gap hgap.ne_nil hgap.blank
      rw [Text.words, hwords, ← Text.words, ← Text.words, words_of_solid hword,
        join_append_join (List.cons_ne_nil _ _), ← ih, join]
      rintro hnil
      rw [hnil] at ih
      exact hne ih

end Squeezed

theorem squeezed_iff {t squeezed : Text} : Squeezed t squeezed ↔ squeezed = join " " t.words := by
  constructor
  · exact Squeezed.eq_join
  · rintro rfl
    obtain ⟨squeezed, h⟩ := Squeezed.exists_squeezed t
    rwa [← h.eq_join]

end FeatureGuard.Text

import Mathlib.Data.List.Basic
import FeatureGuard.Text.Basic

/-!
What the preprocessor does before it looks at lines. A backslash at the end of a line joins it with
the next one, and then a blank takes the place of each comment. Nothing begins a comment inside a
literal, and a line comment ends in front of the line feed.
-/

namespace FeatureGuard.Preprocessor

/-- Joins each line that a backslash ends with the next one. -/
def splice : Text → Text
  | '\\' :: '\n' :: rest => splice rest
  | c :: rest => c :: splice rest
  | [] => []

theorem splice_eq_self {t : Text} (h : '\\' ∉ t) : splice t = t := by
  induction t with
  | nil => rfl
  | cons c t ih =>
      rw [List.mem_cons, not_or] at h
      rw [splice, ih h.2]
      rintro _ rfl -
      exact h.1 rfl

/-! ### Comments -/

/-- Where the next character stands. -/
inductive Mode
  | code
  /-- after a slash, which may begin a comment -/
  | slash
  | literal (quote : Char)
  | escape (quote : Char)
  | lineComment
  | blockComment
  /-- after a star, which may end the comment -/
  | star
  deriving DecidableEq

namespace Mode

def nextInCode (c : Char) : Text × Mode :=
  if c = '/' then ([], slash)
  else ([c], if c = '"' ∨ c = '\'' then literal c else code)

/-- What is kept of a character, and where the one after it stands. -/
def next : Mode → Char → Text × Mode
  | code, c => nextInCode c
  | slash, c =>
    if c = '/' then ([' '], lineComment)
    else if c = '*' then ([' '], blockComment)
    else ('/' :: (nextInCode c).1, (nextInCode c).2)
  | literal quote, c =>
    ([c], if c = '\\' then escape quote else if c = quote ∨ c = '\n' then code else literal quote)
  | escape quote, c => ([c], literal quote)
  | lineComment, c => if c = '\n' then ([c], code) else ([], lineComment)
  | blockComment, c => ([], if c = '*' then star else blockComment)
  | star, c => ([], if c = '/' then code else if c = '*' then star else blockComment)

end Mode

/-- What is kept of a text, and where the character after it stands. -/
def uncomment : Mode → Text → Text × Mode
  | mode, [] => ([], mode)
  | mode, c :: rest =>
    let first := mode.next c
    let others := uncomment first.2 rest
    (first.1 ++ others.1, others.2)

/-- A text without its comments, if all of them are closed. -/
def withoutComments (t : Text) : Option Text :=
  match uncomment .code t with
  | (_, .blockComment) | (_, .star) => none
  | (kept, .slash) => some (kept ++ ['/'])
  | (kept, _) => some kept

theorem uncomment_append {mode middle last : Mode} {a b kept others : Text}
    (ha : uncomment mode a = (kept, middle)) (hb : uncomment middle b = (others, last)) :
    uncomment mode (a ++ b) = (kept ++ others, last) := by
  -- the mode at the start is general, as each character may change it
  induction a generalizing mode kept with
  | nil =>
      obtain ⟨rfl, rfl⟩ := Prod.mk.inj ha
      exact hb
  | cons c a ih =>
      obtain ⟨rfl, hmiddle⟩ := Prod.mk.inj ha
      have hrest := ih (Prod.ext rfl hmiddle)
      show ((mode.next c).1 ++ (uncomment (mode.next c).2 (a ++ b)).1,
        (uncomment (mode.next c).2 (a ++ b)).2) = _
      rw [hrest, List.append_assoc]

/-- Characters that neither begin a comment nor a literal. -/
def isPlain (c : Char) : Bool := c ≠ '/' && c ≠ '"' && c ≠ '\''

theorem uncomment_plain {t : Text} (h : ∀ c ∈ t, isPlain c = true) :
    uncomment .code t = (t, .code) := by
  induction t with
  | nil => rfl
  | cons c t ih =>
      obtain ⟨hc, ht⟩ := List.forall_mem_cons.1 h
      simp only [isPlain, Bool.and_eq_true, decide_eq_true_eq] at hc
      have hnext : Mode.next .code c = ([c], .code) := by
        rw [Mode.next, Mode.nextInCode, if_neg hc.1.1, if_neg (not_or.2 ⟨hc.1.2, hc.2⟩)]
      rw [uncomment, hnext, ih ht]
      rfl

/-- Nothing between two slashes and the end of their line is kept. -/
theorem uncomment_lineComment {t : Text} (h : '\n' ∉ t) :
    uncomment .code ('/' :: '/' :: (t ++ ['\n'])) = ([' ', '\n'], .code) := by
  have hskip : uncomment .lineComment (t ++ ['\n']) = (['\n'], .code) := by
    induction t with
    | nil => rfl
    | cons c t ih =>
        rw [List.mem_cons, not_or] at h
        have hnext : Mode.next .lineComment c = ([], .lineComment) := if_neg (Ne.symm h.1)
        rw [List.cons_append, uncomment, hnext, ih h.2]
        rfl
  show ([' '] ++ (uncomment .lineComment (t ++ ['\n'])).1,
    (uncomment .lineComment (t ++ ['\n'])).2) = _
  rw [hskip]
  rfl

theorem uncomment_inBlockComment {t : Text} (h : '*' ∉ t) :
    uncomment .blockComment t = ([], .blockComment) := by
  induction t with
  | nil => rfl
  | cons c t ih =>
      rw [List.mem_cons, not_or] at h
      have hnext : Mode.next .blockComment c = ([], .blockComment) :=
        congrArg (Prod.mk []) (if_neg (Ne.symm h.1))
      rw [uncomment, hnext, ih h.2]
      rfl

/-- Nothing between the signs that begin and end a comment is kept. -/
theorem uncomment_blockComment {t : Text} (h : '*' ∉ t) :
    uncomment .code (['/', '*'] ++ t ++ ['*', '/']) = ([' '], .code) := by
  have hopening : uncomment .code ['/', '*'] = ([' '], .blockComment) := rfl
  exact uncomment_append (uncomment_append hopening (uncomment_inBlockComment h)) rfl

theorem uncomment_literal {t : Text} (h : ∀ c ∈ t, c ≠ '"' ∧ c ≠ '\\' ∧ c ≠ '\n') :
    uncomment .code ('"' :: (t ++ ['"'])) = ('"' :: (t ++ ['"']), .code) := by
  have hkeep : uncomment (.literal '"') (t ++ ['"']) = (t ++ ['"'], .code) := by
    induction t with
    | nil => rfl
    | cons c t ih =>
        obtain ⟨⟨hquote, hbackslash, hfeed⟩, ht⟩ := List.forall_mem_cons.1 h
        have hnext : Mode.next (.literal '"') c = ([c], .literal '"') := by
          rw [Mode.next, if_neg hbackslash, if_neg (not_or.2 ⟨hquote, hfeed⟩)]
        rw [List.cons_append, uncomment, hnext, ih ht]
        rfl
  show (['"'] ++ (uncomment (.literal '"') (t ++ ['"'])).1,
    (uncomment (.literal '"') (t ++ ['"'])).2) = _
  rw [hkeep]
  rfl

end FeatureGuard.Preprocessor

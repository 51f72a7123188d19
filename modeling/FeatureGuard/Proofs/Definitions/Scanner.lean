import FeatureGuard.Proofs.Definitions.Report

/-!
Comments character by character. The marks of a comment can be found by an automaton that looks at
one character after the other, over all lines of a document: it remembers whether it is in a
comment, and whether the character before may be the first one of a mark. It keeps of every line
what is kept when the marks are searched for, and the same comment is open after each line.
-/

namespace FeatureGuard

/-- A pattern that a text does not begin with is searched for behind the first character. -/
theorem Text.cut_cons {pattern : Text} {c : Char} {r : Text} (h : ¬pattern <+: c :: r) :
    cut pattern (c :: r) = (cut pattern r).map fun (before, after) => (c :: before, after) :=
  if_neg (mt List.isPrefixOf_iff_prefix.1 h)

namespace Comment

open Text (cut)

/-! ### The first character of a line -/

section FirstCharacter

variable {c : Char} {r : Text}

theorem beforeMark_sign (r : Text) : beforeMark ('#' :: r) = [] := by
  have hslashes : ¬("//" : Text) <+: '#' :: r := by simp
  simp only [beforeMark, Text.cut_cons hslashes]
  cases cut "//" r <;> simp

theorem beforeMark_slashes (r : Text) : beforeMark ('/' :: '/' :: r) = [] := rfl

theorem beforeMark_cons (hc : c ≠ '#') (hslashes : ¬("//" : Text) <+: c :: r) :
    beforeMark (c :: r) = c :: beforeMark r := by
  simp only [beforeMark, Text.cut_cons hslashes]
  cases cut "//" r <;> simp [hc]

theorem block?_of_beforeMark_eq_nil (h : beforeMark r = []) : block? r = none := by
  simp [block?, h]

theorem block?_opening (r : Text) : block? ('/' :: '*' :: r) = some ([], r) := by
  have hmark : beforeMark ('/' :: '*' :: r) = '/' :: beforeMark ('*' :: r) :=
    beforeMark_cons (by decide) (by simp)
  have hcut : cut "/*" ('/' :: '*' :: r) = some ([], r) := rfl
  rw [block?, hcut, hmark]
  rfl

theorem block?_cons (hc : c ≠ '#') (hslashes : ¬("//" : Text) <+: c :: r)
    (hopening : ¬("/*" : Text) <+: c :: r) :
    block? (c :: r) = (block? r).map fun (before, after) => (c :: before, after) := by
  rw [block?, block?, Text.cut_cons hopening, beforeMark_cons hc hslashes]
  cases cut "/*" r with
  | none => rfl
  | some pieces => simp [Option.filter, apply_ite]

variable (line start : ℕ)

theorem strip_sign (r : Text) : strip line none ('#' :: r) = ([], none) := by
  rw [strip_unopened line (block?_of_beforeMark_eq_nil (beforeMark_sign r)), beforeMark_sign]

theorem strip_slashes (r : Text) : strip line none ('/' :: '/' :: r) = ([], none) :=
  strip_unopened line (block?_of_beforeMark_eq_nil (beforeMark_slashes r))

theorem strip_opening (r : Text) : strip line none ('/' :: '*' :: r) = strip line (some line) r :=
  strip_opened line (block?_opening r)

theorem strip_code (hc : c ≠ '#') (hslashes : ¬("//" : Text) <+: c :: r)
    (hopening : ¬("/*" : Text) <+: c :: r) :
    strip line none (c :: r) = (c :: (strip line none r).1, (strip line none r).2) := by
  have hcons := block?_cons hc hslashes hopening
  cases hblock : block? r with
  | none =>
      rw [hblock, Option.map_none] at hcons
      rw [strip_unopened line hcons, strip_unopened line hblock, beforeMark_cons hc hslashes]
  | some pieces =>
      rw [hblock, Option.map_some] at hcons
      rw [strip_opened line hcons, strip_opened line hblock]
      rfl

theorem strip_closing (r : Text) : strip line (some start) ('*' :: '/' :: r) =
    (' ' :: (strip line none r).1, (strip line none r).2) :=
  strip_closed line start rfl

theorem strip_block (hclosing : ¬("*/" : Text) <+: c :: r) :
    strip line (some start) (c :: r) = strip line (some start) r := by
  have hcons := Text.cut_cons hclosing
  cases hcut : cut "*/" r with
  | none =>
      have hopen := (Text.cut_eq_none_iff (by decide)).1 hcut
      rw [hcut, Option.map_none, Text.cut_eq_none_iff (by decide)] at hcons
      rw [strip_unclosed line start hcons, strip_unclosed line start hopen]
  | some pieces =>
      rw [hcut, Option.map_some] at hcons
      rw [strip_closed line start hcons, strip_closed line start hcut]

end FirstCharacter

/-! ### The automaton -/

/-- Where the next character stands. -/
inductive Mode
  | code
  /-- behind a slash, which may begin a mark -/
  | slash
  | lineComment
  /-- in a block that began on the given line -/
  | block (start : ℕ)
  /-- in a block, behind a star, which may begin the mark that ends the block -/
  | star (start : ℕ)
  deriving DecidableEq

namespace Mode

/-- What is added to the content of a line for a character, and where the next one stands. -/
def next (line : ℕ) : Mode → Char → Text × Mode
  | code, c =>
    if c = '/' then ([], slash)
    else if c = '#' then ([], lineComment)
    else ([c], code)
  | slash, c =>
    if c = '/' then ([], lineComment)
    else if c = '*' then ([], block line)
    else if c = '#' then (['/'], lineComment)
    else (['/', c], code)
  | lineComment, _ => ([], lineComment)
  | block start, c => ([], if c = '*' then star start else block start)
  | star start, c =>
    if c = '/' then ([' '], code)
    else ([], if c = '*' then star start else block start)

/-- What is added to the content where the line ends: a slash that began no mark. -/
def pending : Mode → Text
  | slash => "/"
  | _ => []

/-- The line on which the block began that is still open. -/
def opened : Mode → Option ℕ
  | block start | star start => some start
  | _ => none

/-- Where the first character of a line stands. -/
def resume : Option ℕ → Mode
  | none => code
  | some start => block start

end Mode

/-- How far an automaton has read the lines of a document. -/
structure Scanner where
  /-- the number of the current line -/
  line : ℕ := 1
  mode : Mode := .code
  /-- the content of the current line so far -/
  content : Text := []
  /-- the numbered contents of the lines before -/
  contents : List (ℕ × Text) := []

namespace Scanner

def read (s : Scanner) (c : Char) : Scanner :=
  let (kept, mode) := s.mode.next s.line c
  { s with mode, content := s.content ++ kept }

def endLine (s : Scanner) : Scanner where
  line := s.line + 1
  mode := .resume s.mode.opened
  contents := s.contents ++ [(s.line, s.content ++ s.mode.pending)]

/-- Reads the characters of a line and then its end. -/
def readLine (s : Scanner) (t : Text) : Scanner := (t.foldl read s).endLine

def ofLines (lines : List Text) : Scanner := lines.foldl readLine {}

end Scanner

/-! ### What the automaton finds -/

namespace Mode

/-- What the search for marks makes of the rest of a line. -/
def strip (line : ℕ) : Mode → Text → Text × Option ℕ
  | code, t => Comment.strip line none t
  | slash, t => Comment.strip line none ('/' :: t)
  | lineComment, _ => ([], none)
  | block start, t => Comment.strip line (some start) t
  | star start, t => Comment.strip line (some start) ('*' :: t)

theorem strip_resume (line : ℕ) (opened : Option ℕ) (t : Text) :
    (resume opened).strip line t = Comment.strip line opened t := by
  cases opened <;> rfl

theorem strip_nil (line : ℕ) (mode : Mode) : mode.strip line [] = (mode.pending, mode.opened) := by
  cases mode with
  | code => exact Comment.strip_nil line none
  | slash => exact Comment.strip_of_not_isInfix line (by decide)
  | lineComment => rfl
  | block start => exact Comment.strip_nil line (some start)
  | star start => exact Comment.strip_unclosed line start (by decide)

/-- The automaton takes the next character as the search for marks does. -/
theorem strip_cons (line : ℕ) (mode : Mode) (c : Char) (t : Text) :
    mode.strip line (c :: t) = ((mode.next line c).1 ++ ((mode.next line c).2.strip line t).1,
      ((mode.next line c).2.strip line t).2) := by
  cases mode with
  | code =>
      simp only [next]
      split_ifs with hslash hsign
      · rw [hslash]
        rfl
      · rw [hsign]
        exact Comment.strip_sign line t
      · exact Comment.strip_code line hsign (by simp [Ne.symm hslash]) (by simp [Ne.symm hslash])
  | slash =>
      simp only [next]
      split_ifs with hslash hstar hsign
      · rw [hslash]
        exact Comment.strip_slashes line t
      · rw [hstar]
        exact Comment.strip_opening line t
      · -- the slash is kept, and the sign begins a comment
        have hkept := Comment.strip_code (r := c :: t) line (show '/' ≠ '#' by decide)
          (by simp [Ne.symm hslash]) (by simp [Ne.symm hstar])
        rw [hsign, Comment.strip_sign] at hkept
        rw [hsign]
        exact hkept
      · have hkept := Comment.strip_code (r := c :: t) line (show '/' ≠ '#' by decide)
          (by simp [Ne.symm hslash]) (by simp [Ne.symm hstar])
        rw [Comment.strip_code line hsign (by simp [Ne.symm hslash]) (by simp [Ne.symm hslash])]
          at hkept
        exact hkept
  | lineComment => rfl
  | block start =>
      simp only [next]
      split_ifs with hstar
      · rw [hstar]
        rfl
      · exact Comment.strip_block line start (by simp [Ne.symm hstar])
  | star start =>
      simp only [next]
      split_ifs with hslash hstar
      · rw [hslash]
        exact Comment.strip_closing line start t
      · rw [hstar]
        exact Comment.strip_block line start (by simp)
      · have hkept := Comment.strip_block (r := c :: t) line start (c := '*')
          (by simp [Ne.symm hslash])
        rw [Comment.strip_block (c := c) (r := t) line start (by simp [Ne.symm hstar])] at hkept
        exact hkept

end Mode

namespace Scanner

theorem readLine_eq (s : Scanner) (t : Text) : s.readLine t =
    { line := s.line + 1
      mode := .resume (s.mode.strip s.line t).2
      contents := s.contents ++ [(s.line, s.content ++ (s.mode.strip s.line t).1)] } := by
  induction t generalizing s with
  | nil =>
      rw [Mode.strip_nil]
      rfl
  | cons c t ih =>
      have hread := ih (s.read c)
      rw [Mode.strip_cons, ← List.append_assoc]
      exact hread

/-- The scanner has found the same contents as the removal of comments, and the same block is
open. -/
theorem ofLines_eq (lines : List Text) : ofLines lines =
    { line := lines.length + 1
      mode := .resume (Document.opened lines)
      contents := (Document.uncommented lines).contents.reverse } := by
  induction lines using List.reverseRecOn with
  | nil => rfl
  | append_singleton lines last ih =>
      rw [ofLines, List.foldl_concat, ← ofLines, ih, readLine_eq, Mode.strip_resume,
        Document.opened_concat, Document.contents_concat, List.reverse_cons, List.length_append]
      rfl

theorem opened_resume (opened : Option ℕ) : (Mode.resume opened).opened = opened := by
  cases opened <;> rfl

end Scanner

/-! ### The search ends -/

/-- A search for marks ends with the given result, after the given number of marks that end a block
or begin one. -/
inductive Searched (line : ℕ) : Option ℕ → Text → ℕ → Text × Option ℕ → Prop
  | unclosed {start t} : cut "*/" t = none → Searched line (some start) t 0 ([], some start)
  | closed {start t before after marks rest final} : cut "*/" t = some (before, after) →
      Searched line none after marks (rest, final) →
        Searched line (some start) t (marks + 1) (' ' :: rest, final)
  | unopened {t} : block? t = none → Searched line none t 0 (beforeMark t, none)
  | opened {t before after marks rest final} : block? t = some (before, after) →
      Searched line (some line) after marks (rest, final) →
        Searched line none t (marks + 1) (before ++ rest, final)

theorem length_of_cut {mark t before after : Text} (h : cut mark t = some (before, after)) :
    after.length + mark.length ≤ t.length := by
  rw [Text.eq_of_cut h, List.length_append, List.length_append]
  omega

/-- Every mark takes two characters of the line, so that there are not many of them. -/
theorem exists_searched (line : ℕ) (opened : Option ℕ) (t : Text) :
    ∃ marks, 2 * marks ≤ t.length ∧ Searched line opened t marks (strip line opened t) := by
  induction opened, t using strip.induct line with
  | case1 t start hcut =>
      have hopen := (Text.cut_eq_none_iff (by decide)).1 hcut
      rw [strip_unclosed line start hopen]
      exact ⟨0, Nat.zero_le _, .unclosed hcut⟩
  | case2 t start before after hcut _ _ _ _ ih =>
      obtain ⟨marks, hle, hrest⟩ := ih
      have hlength : after.length + 2 ≤ t.length := length_of_cut hcut
      rw [strip_closed line start hcut]
      exact ⟨marks + 1, by omega, .closed hcut hrest⟩
  | case3 t hblock =>
      rw [strip_unopened line hblock]
      exact ⟨0, Nat.zero_le _, .unopened hblock⟩
  | case4 t before after hblock _ _ _ _ ih =>
      obtain ⟨marks, hle, hrest⟩ := ih
      have hlength : after.length + 2 ≤ t.length := length_of_cut (cut_of_block? hblock)
      rw [strip_opened line hblock]
      exact ⟨marks + 1, by omega, .opened hblock hrest⟩

end Comment

namespace Document

open Comment (Scanner Searched)

/-- The automaton finds the contents of all lines of a document, and behind every line the block
that is open there. On every line the search for marks comes to an end. -/
theorem scanner_uncomments :
    (∀ t : Text, (Scanner.ofLines (Text.lines t)).contents = (uncomment t).contents.reverse ∧
      (Scanner.ofLines (Text.lines t)).mode.opened = (uncomment t).opened ∧
      ∀ n, (Scanner.ofLines ((Text.lines t).take n)).mode.opened =
        (uncommented ((Text.lines t).take n)).opened) ∧
    ∀ (line : ℕ) (opened : Option ℕ) (t : Text), ∃ marks, 2 * marks ≤ t.length ∧
      Searched line opened t marks (Comment.strip line opened t) := by
  refine ⟨fun t => ⟨?_, ?_, fun n => ?_⟩, Comment.exists_searched⟩
  · rw [Scanner.ofLines_eq]
    rfl
  · rw [Scanner.ofLines_eq]
    exact Scanner.opened_resume _
  · rw [Scanner.ofLines_eq]
    exact Scanner.opened_resume _

-- a slash right behind the mark that begins a block does not end it
example : (Scanner.ofLines ["A /*/ B", "*//**/C//*D", "E/"]).contents =
    [⟨1, "A "⟩, ⟨2, "  C"⟩, ⟨3, "E/"⟩] := by
  decide

end Document

end FeatureGuard

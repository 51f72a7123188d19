import Mathlib.Data.List.TakeWhile
import FeatureGuard.Proofs.Condition.Spelling
import FeatureGuard.Proofs.Preprocessor.Comment
import FeatureGuard.Artifact.Include

/-!
Lines as the preprocessor reads them. A line whose first character is a hash sign is a directive:
its keyword is the word behind the sign, and the blanks around the rest count for nothing. Any other
line that is not blank is left to the compiler.
-/

namespace FeatureGuard.Preprocessor

inductive Line
  | ifHolds (condition : Text)
  | elifHolds (condition : Text)
  | ifdef (name : Text)
  | ifndef (name : Text)
  | endif
  | define (name : Text)
  | undef (name : Text)
  | inclusion (path : IncludePath)
  | warning (message : Text)
  | error (message : Text)
  /-- a directive that is none of those above -/
  | unknown (keyword : Text)
  | code (text : Text)
  deriving DecidableEq

/-! ### Reading a line -/

/-- The white space inside a line. -/
def isSpace (c : Char) : Bool := c ∈ [' ', '\t', '\x0b', '\x0c']

def strip (t : Text) : Text := Text.dropEndWhile isSpace (t.dropWhile isSpace)

/-- Whether a text is the name of a macro and nothing else. -/
def isMacro (t : Text) : Bool := isMacroName t && t.all isWordChar

/-- Reads the name of a macro. -/
def macro? (t : Text) : Option Text := if isMacro t then some t else none

/-- Reads a path up to the character that closes it, which nothing may follow. -/
def pathUpTo? (close : Char) (t : Text) : Option Text :=
  if t.dropWhile (· ≠ close) = [close] then some (t.takeWhile (· ≠ close)) else none

/-- Reads the target of an inclusion. -/
def target? : Text → Option IncludePath
  | '<' :: rest => (pathUpTo? '>' rest).map (⟨·, true⟩)
  | '"' :: rest => (pathUpTo? '"' rest).map (⟨·, false⟩)
  | _ => none

namespace Line

/-- Reads a directive, given its keyword and the rest of the line. -/
def ofKeyword? (keyword rest : Text) : Option Line :=
  if keyword = "if" then some (ifHolds rest)
  else if keyword = "elif" then some (elifHolds rest)
  else if keyword = "ifdef" then (macro? rest).map ifdef
  else if keyword = "ifndef" then (macro? rest).map ifndef
  else if keyword = "endif" then if rest = [] then some endif else none
  else if keyword = "define" then (macro? (rest.takeWhile isWordChar)).map define
  else if keyword = "undef" then (macro? rest).map undef
  else if keyword = "include" then (target? rest).map inclusion
  else if keyword = "warning" then some (warning rest)
  else if keyword = "error" then some (error rest)
  else none

/-- Reads the directive behind a hash sign. -/
def ofDirective (t : Text) : Line :=
  let t := t.dropWhile isSpace
  let keyword := t.takeWhile isWordChar
  (ofKeyword? keyword (strip (t.dropWhile isWordChar))).getD (unknown keyword)

/-- Reads a line, unless it is blank. -/
def ofText? (t : Text) : Option Line :=
  match strip t with
  | [] => none
  | '#' :: rest => some (ofDirective rest)
  | text => some (code text)

end Line

/-- The lines of a file that are not blank, if all its comments are closed. -/
def readLines (t : Text) : Option (List Line) :=
  (withoutComments (splice t)).map fun t => (t.splitOnP (· == '\n')).filterMap Line.ofText?

/-! ### Blanks -/

theorem isBlank_of_isSpace {c : Char} (h : isSpace c = true) : Text.isBlank c = true := by
  have hall : ∀ c ∈ [' ', '\t', '\x0b', '\x0c'], Text.isBlank c = true :=
    List.all_eq_true.1 (by decide)
  exact hall c (of_decide_eq_true h)

theorem isSpace_eq_false {c : Char} (h : Text.isBlank c = false) : isSpace c = false := by
  by_contra hspace
  rw [Bool.not_eq_false] at hspace
  exact Bool.noConfusion ((isBlank_of_isSpace hspace).symm.trans h)

theorem strip_eq_self {t : Text} (h : t.Trimmed) : strip t = t :=
  Text.dropEnds_eq_self (fun c hc => isSpace_eq_false (h.head c hc))
    fun c hc => isSpace_eq_false (h.last c hc)

theorem strip_cons {c : Char} (hc : isSpace c = true) (t : Text) : strip (c :: t) = strip t :=
  Text.dropEnds_cons hc t

/-! ### Macros and targets -/

theorem macro?_eq {t : Text} (h : isMacro t = true) : macro? t = some t := if_pos h

theorem isWordChar_of_isMacro {t : Text} (h : isMacro t = true) :
    ∀ c ∈ t, isWordChar c = true :=
  List.all_eq_true.1 (Bool.and_eq_true_iff.1 h).2

theorem takeWhile_isWordChar {t : Text} (h : isMacro t = true) : t.takeWhile isWordChar = t :=
  List.takeWhile_eq_self_iff.2 (isWordChar_of_isMacro h)

theorem ne_nil_of_isMacro {t : Text} (h : isMacro t = true) : t ≠ [] := by
  rintro rfl
  cases h

theorem trimmed_of_isMacro {t : Text} (h : isMacro t = true) : t.Trimmed :=
  .of_forall fun c hc => isBlank_of_isWordChar (isWordChar_of_isMacro h c hc)

theorem isMacro_name (n : Name) : isMacro n.text = true :=
  Bool.and_eq_true_iff.2
    ⟨isMacroName_text n, List.all_eq_true.2 fun _ hc => isWordChar_of_mem_name hc⟩

theorem pathUpTo?_append {close : Char} {path : Text} (h : close ∉ path) :
    pathUpTo? close (path ++ [close]) = some path := by
  have hne : ∀ c ∈ path, decide (c ≠ close) = true := by
    intro c hc
    refine decide_eq_true ?_
    rintro rfl
    exact h hc
  have hdrop : (path ++ [close]).dropWhile (· ≠ close) = [close] := by
    rw [List.dropWhile_append_of_pos hne]
    simp
  have htake : (path ++ [close]).takeWhile (· ≠ close) = path := by
    rw [List.takeWhile_append_of_pos hne]
    simp
  rw [pathUpTo?, if_pos hdrop, htake]

/-- What can be put between the signs around a path. -/
def isPath (t : Text) : Prop := '>' ∉ t ∧ '"' ∉ t

theorem target?_text {p : IncludePath} (h : isPath p.path) : target? p.text = some p := by
  obtain ⟨path, system⟩ := p
  cases system with
  | true =>
      show (pathUpTo? '>' (path ++ ['>'])).map _ = _
      rw [pathUpTo?_append h.1]
      rfl
  | false =>
      show (pathUpTo? '"' (path ++ ['"'])).map _ = _
      rw [pathUpTo?_append h.2]
      rfl

/-! ### Directives and other lines -/

namespace Line

theorem ofText?_cons {c : Char} (hc : isSpace c = true) (t : Text) :
    ofText? (c :: t) = ofText? t := by
  rw [ofText?, strip_cons hc, ofText?]

theorem ofText?_code {t : Text} {c : Char} (h : t.Trimmed) (hhead : t.head? = some c)
    (hc : c ≠ '#') : ofText? t = some (code t) := by
  obtain ⟨rest, rfl⟩ := List.head?_eq_some_iff.1 hhead
  rw [ofText?, strip_eq_self h]
  split
  · rename_i hnil
    cases hnil
  · rename_i heq
    injection heq with heq
    exact absurd heq hc
  · rfl

theorem ofText?_directive {keyword rest : Text} (hkeyword : isMacro keyword = true)
    (hrest : rest.Trimmed) (hne : rest ≠ []) {line : Line}
    (hline : ofKeyword? keyword rest = some line) :
    ofText? ('#' :: (keyword ++ ' ' :: rest)) = some line := by
  have hword := isWordChar_of_isMacro hkeyword
  have hblank : isWordChar ' ' = false := by decide
  have htrimmed : Text.Trimmed ('#' :: (keyword ++ ' ' :: rest)) := by
    have hhash : Text.Trimmed ['#'] := .of_forall (List.forall_mem_singleton.2 rfl)
    have happend := hhash.append hrest (List.cons_ne_nil _ _) hne (keyword ++ [' '])
    rwa [List.append_assoc, List.append_assoc] at happend
  -- the keyword stands right behind the hash sign, and one blank stands behind the keyword
  have hspace : (keyword ++ ' ' :: rest).dropWhile isSpace = keyword ++ ' ' :: rest := by
    obtain ⟨c, others, rfl⟩ := List.exists_cons_of_ne_nil (ne_nil_of_isMacro hkeyword)
    have hc := isSpace_eq_false (isBlank_of_isWordChar (hword c List.mem_cons_self))
    rw [List.cons_append, List.dropWhile_cons, hc, if_neg Bool.false_ne_true]
  have htake : (keyword ++ ' ' :: rest).takeWhile isWordChar = keyword := by
    rw [List.takeWhile_append_of_pos hword]
    simp [hblank]
  have hdrop : (keyword ++ ' ' :: rest).dropWhile isWordChar = ' ' :: rest := by
    rw [List.dropWhile_append_of_pos hword]
    simp [hblank]
  rw [ofText?, strip_eq_self htrimmed]
  show some (ofDirective (keyword ++ ' ' :: rest)) = some line
  rw [ofDirective, hspace, htake, hdrop, strip_cons (by decide), strip_eq_self hrest, hline]
  rfl

end Line

/-- Lines that hold no line feed are found again. -/
theorem splitOnP_flatMap {lines : List Text} (h : ∀ line ∈ lines, '\n' ∉ line) :
    (lines.flatMap (· ++ ['\n'])).splitOnP (· == '\n') = lines ++ [[]] := by
  induction lines with
  | nil => rfl
  | cons line lines ih =>
      obtain ⟨hline, hlines⟩ := List.forall_mem_cons.1 h
      have hfree := Text.beq_eq_false_of_not_mem hline
      -- the first line feed is the one that was put behind the first line
      rw [List.flatMap_cons, List.append_assoc, List.singleton_append,
        List.splitOnP_append_cons_of_forall_mem hfree _ rfl, ih hlines, List.cons_append]

end FeatureGuard.Preprocessor

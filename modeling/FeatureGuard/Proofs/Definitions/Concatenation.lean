import Mathlib.Data.List.Count
import FeatureGuard.Proofs.Definitions.Report
import FeatureGuard.Proofs.Text.Word

/-!
Documents one after the other. Where the first document leaves no block comment open, the second is
read as it is on its own, with the lines counted on: the rules of both are the rules of the one and
then those of the other, and so are the errors.
-/

namespace FeatureGuard

/-! ### Rules and errors further down -/

def Declaration.shift (k : ℕ) (d : Declaration) : Declaration := { d with line := d.line + k }

def Implication.shift (k : ℕ) (i : Implication) : Implication := { i with line := i.line + k }

def Derivation.shift (k : ℕ) (d : Derivation) : Derivation := { d with line := d.line + k }

def Requirement.shift (k : ℕ) (q : Requirement) : Requirement := { q with line := q.line + k }

def SyntaxError.shift (k : ℕ) (e : SyntaxError) : SyntaxError := { e with line := e.line + k }

/-- The same rules, the given number of lines further down. -/
def RuleSet.shift (k : ℕ) (r : RuleSet) : RuleSet where
  declarations := r.declarations.map (Declaration.shift k)
  implications := r.implications.map (Implication.shift k)
  derivations := r.derivations.map (Derivation.shift k)
  requirements := r.requirements.map (Requirement.shift k)

namespace RuleSet

theorem append_shift (a b : RuleSet) (k : ℕ) : (a ++ b).shift k = a.shift k ++ b.shift k := by
  show mk _ _ _ _ = mk _ _ _ _
  congr 1
  all_goals exact List.map_append

theorem append_assoc (a b c : RuleSet) : a ++ b ++ c = a ++ (b ++ c) := by
  show mk _ _ _ _ = mk _ _ _ _
  congr 1
  all_goals exact List.append_assoc ..

end RuleSet

theorem Statement.rules_add (statement : Statement) (line k : ℕ) :
    statement.rules (line + k) = (statement.rules line).shift k := by
  cases statement with
  | implies name consequents =>
      simp only [rules, RuleSet.shift, List.map_map, List.map_nil]
      rfl
  | _ => rfl

/-! ### Lines of a concatenation -/

namespace Text

theorem length_splitOnP (t : Text) : (t.splitOnP (· == '\n')).length = t.count '\n' + 1 := by
  induction t with
  | nil => rfl
  | cons c r ih =>
      rw [List.splitOnP_cons_eq_if_modifyHead]
      split_ifs with hc
      · rw [List.length_cons, ih, List.count_cons, if_pos hc]
      · rw [List.length_modifyHead, ih, List.count_cons_of_ne]
        simpa using hc

/-- A line feed ends the line that a text breaks off in, even if nothing is on it. -/
theorem exists_lines_append (t : Text) : ∃ (earlier : List Text) (last : Text),
    earlier.length = t.count '\n' ∧ lines t = earlier ++ [last].filter (· ≠ []) ∧
      ∀ t', lines (t ++ '\n' :: t') = earlier ++ dropReturn last :: lines t' := by
  obtain hnil | ⟨pieces, last, hsplit⟩ := List.eq_nil_or_concat' (t.splitOnP (· == '\n'))
  · exact absurd hnil (List.splitOnP_ne_nil _ t)
  · refine ⟨pieces.map dropReturn, last, ?_, ?_, ?_⟩
    · have hlength := length_splitOnP t
      rw [hsplit, List.length_append, List.length_singleton] at hlength
      rw [List.length_map]
      omega
    · rw [lines, hsplit, List.dropLast_concat, List.getLast?_concat]
      rfl
    · intro t'
      have hne := List.splitOnP_ne_nil (· == '\n') t'
      rw [lines, List.splitOnP_append_cons t t' (by decide), hsplit,
        List.dropLast_append_of_ne_nil hne, List.getLast?_append_of_ne_nil _ hne, List.map_append,
        List.map_append, List.append_assoc, List.append_assoc]
      rfl

theorem dropReturn_cases (t : Text) : dropReturn t = t ∨ t = dropReturn t ++ ['\r'] := by
  rw [dropReturn]
  split_ifs with hlast
  · exact .inr (List.dropLast_append_getLast? _ hlast).symm
  · exact .inl rfl

end Text

namespace Document

/-! ### Lines further down -/

/-- What a line was read as, the given number of lines further down. -/
def shiftResult (k : ℕ) : Except SyntaxError RuleSet → Except SyntaxError RuleSet
  | .ok rules => .ok (rules.shift k)
  | .error e => .error (e.shift k)

theorem readLine_add (line k : ℕ) (content : Text) :
    readLine (line + k, content) = (readLine (line, content)).map (shiftResult k) := by
  rw [readLine_eq, readLine_eq]
  split
  · rfl
  · cases Statement.ofText (Text.trim content) with
    | ok statement => exact congrArg (some ∘ Except.ok) (statement.rules_add line k)
    | error flaw => rfl

theorem Progress.results_advance (p : Progress) (t : Text) : (p.advance t).results =
    p.results ++ (readLine (p.line, (Comment.strip p.line p.opened t).1)).toList := by
  show List.filterMap readLine (_ :: p.contents).reverse = _
  rw [List.reverse_cons, List.filterMap_append, List.filterMap_cons]
  cases readLine (p.line, (Comment.strip p.line p.opened t).1) <;> rfl

/-- The second progress has read the same lines as the first, but further down and behind others. -/
structure Progress.Continues (k : ℕ) (earlier : List (Except SyntaxError RuleSet))
    (p q : Progress) : Prop where
  line : q.line = p.line + k
  opened : q.opened = p.opened.map (· + k)
  results : q.results = earlier ++ p.results.map (shiftResult k)

variable {k : ℕ} {earlier : List (Except SyntaxError RuleSet)} {p q : Progress}

theorem Progress.Continues.advance (h : p.Continues k earlier q) (t : Text) :
    (p.advance t).Continues k earlier (q.advance t) := by
  have hstrip := Comment.strip_add p.line k p.opened t
  rw [← h.line, ← h.opened] at hstrip
  constructor
  · show q.line + 1 = p.line + 1 + k
    rw [h.line]
    omega
  · exact congrArg Prod.snd hstrip
  · rw [results_advance, results_advance, hstrip, h.line, readLine_add, h.results, List.map_append,
      List.append_assoc]
    cases readLine (p.line, (Comment.strip p.line p.opened t).1) <;> rfl

theorem Progress.Continues.foldl (h : p.Continues k earlier q) (lines : List Text) :
    (lines.foldl Progress.advance p).Continues k earlier (lines.foldl Progress.advance q) := by
  induction lines generalizing p q with
  | nil => exact h
  | cons line lines ih => exact ih (h.advance line)

/-! ### The end of the first document -/

theorem results_concat (lines : List Text) (last : Text) :
    (uncommented (lines ++ [last])).results = (uncommented lines).results ++
      (readLine (lines.length + 1,
        (Comment.strip (lines.length + 1) (opened lines) last).1)).toList := by
  rw [uncommented_concat, Progress.results_advance, (line_uncommented lines).1]
  rfl

/-- Neither a line feed nor a carriage return behind the last line makes a difference. -/
theorem uncommented_last (lines : List Text) (last : Text) :
    opened (lines ++ [Text.dropReturn last]) = opened (lines ++ [last].filter (· ≠ [])) ∧
      (uncommented (lines ++ [Text.dropReturn last])).results =
        (uncommented (lines ++ [last].filter (· ≠ []))).results := by
  by_cases hnil : last = []
  · subst hnil
    have hdrop : Text.dropReturn [] = [] := rfl
    have hfilter : [([] : Text)].filter (· ≠ []) = [] := rfl
    have hblank : readLine (lines.length + 1, []) = none := rfl
    rw [hdrop, hfilter, List.append_nil, opened_concat, results_concat, Comment.strip_nil, hblank]
    exact ⟨rfl, List.append_nil _⟩
  · have hfilter : [last].filter (· ≠ []) = [last] := by simp [hnil]
    rw [hfilter]
    obtain heq | heq := Text.dropReturn_cases last
    · rw [heq]
      exact ⟨rfl, rfl⟩
    · obtain ⟨hopened, hcontent⟩ :=
        Comment.strip_return (lines.length + 1) (opened lines) (Text.dropReturn last)
      rw [← heq] at hopened hcontent
      have htrim : Text.trim (Comment.strip (lines.length + 1) (opened lines) last).1 =
          Text.trim (Comment.strip (lines.length + 1) (opened lines) (Text.dropReturn last)).1 := by
        obtain hcontent | hcontent := hcontent
        · rw [hcontent]
        · rw [hcontent, Text.trim_concat (by decide)]
      rw [opened_concat, opened_concat, results_concat, results_concat, readLine_eq, readLine_eq,
        htrim, hopened]
      exact ⟨rfl, rfl⟩

/-! ### Reading a concatenation -/

variable {t : Text}

/-- Behind a document that leaves no comment open, a document is read as on its own. -/
theorem continues_uncomment (h : (uncomment t).opened = none) (t' : Text) :
    (uncomment t').Continues (1 + t.count '\n') (uncomment t).results
      (uncomment (t ++ '\n' :: t')) := by
  obtain ⟨earlier, last, hlength, hlines, happend⟩ := Text.exists_lines_append t
  obtain ⟨hopened, hresults⟩ := uncommented_last earlier last
  rw [← hlines] at hopened hresults
  have hstart : Progress.Continues (1 + t.count '\n') (uncomment t).results {}
      (uncommented (earlier ++ [Text.dropReturn last])) := by
    refine ⟨?_, ?_, ?_⟩
    · rw [(line_uncommented _).1, List.length_append, hlength, List.length_singleton]
      show _ = 1 + _
      omega
    · exact hopened.trans h
    · exact hresults.trans (List.append_nil _).symm
  have hrun := hstart.foldl (Text.lines t')
  rw [uncommented, ← List.foldl_append, List.append_assoc, List.singleton_append, ← happend] at hrun
  exact hrun

theorem flaws_of_continues (h : p.Continues k earlier q) :
    q.flaws = earlier.filterMap error? ++ p.flaws.map (SyntaxError.shift k) := by
  rw [Progress.flaws, h.results, List.filterMap_append, List.filterMap_map, Progress.flaws,
    List.map_filterMap]
  congr 1
  refine List.filterMap_congr fun result _ => ?_
  cases result <;> rfl

theorem gathered_map_shift (results : List (Except SyntaxError RuleSet)) :
    gathered (results.map (shiftResult k)) = (gathered results).shift k := by
  induction results with
  | nil => rfl
  | cons result results ih =>
      cases result with
      | ok rules =>
          show rules.shift k ++ gathered (results.map (shiftResult k)) =
            (rules ++ gathered results).shift k
          rw [ih, RuleSet.append_shift]
      | error e => exact ih

theorem gathered_append (results results' : List (Except SyntaxError RuleSet)) :
    gathered (results ++ results') = gathered results ++ gathered results' := by
  induction results with
  | nil => rfl
  | cons result results ih =>
      cases result with
      | ok rules =>
          show rules ++ gathered (results ++ results') = rules ++ gathered results ++ _
          rw [ih, RuleSet.append_assoc]
      | error e => exact ih

/-- What is reported of two documents is reported of one behind the other. -/
theorem reported_append (h : (uncomment t).opened = none) (t' : Text) :
    reported (t ++ '\n' :: t') =
      reported t ++ (reported t').map (SyntaxError.shift (1 + t.count '\n')) := by
  have hrun := continues_uncomment h t'
  have hopened : (uncomment (t ++ '\n' :: t')).opened.toList.map unterminated =
      ((uncomment t').opened.toList.map unterminated).map
        (SyntaxError.shift (1 + t.count '\n')) := by
    rw [hrun.opened]
    cases (uncomment t').opened <;> rfl
  rw [reported_eq, flaws_of_continues hrun, hopened, reported_eq, h, reported_eq, List.map_append,
    Option.toList_none, List.map_nil, List.append_nil, List.append_assoc]
  rfl

theorem read_append_isOk_iff (h : (uncomment t).opened = none) (t' : Text) :
    (∃ r, read (t ++ '\n' :: t') = .ok r) ↔ (∃ r, read t = .ok r) ∧ ∃ r, read t' = .ok r := by
  simp only [read_isOk_iff_reported_eq_nil, reported_append h, List.append_eq_nil_iff,
    List.map_eq_nil_iff]

theorem read_append_eq_ok (h : (uncomment t).opened = none) {t' : Text} {r r' : RuleSet}
    (hread : read t = .ok r) (hread' : read t' = .ok r') :
    read (t ++ '\n' :: t') = .ok (r ++ r'.shift (1 + t.count '\n')) := by
  have hread'' := (read_append_isOk_iff h t').2 ⟨⟨r, hread⟩, ⟨r', hread'⟩⟩
  rw [read_eq, if_pos (read_isOk_iff_reported_eq_nil.1 hread''), (continues_uncomment h t').results,
    gathered_append, gathered_map_shift, ← eq_gathered_of_read hread, ← eq_gathered_of_read hread']

theorem read_append_eq_error (h : (uncomment t).opened = none) {t' : Text}
    (hread : ∀ r, read (t ++ '\n' :: t') ≠ .ok r) : read (t ++ '\n' :: t') =
      .error (reported t ++ (reported t').map (SyntaxError.shift (1 + t.count '\n'))) := by
  rw [← not_exists, read_isOk_iff_reported_eq_nil] at hread
  rw [read_eq, if_neg hread, reported_append h]

/-- A document that leaves no comment open and another one behind it are read as each is on its own,
the second with its lines counted on from the first. What is reported of a document is in the order
of its lines, one flaw for a line at most, up to the comment that is left open in the end. -/
theorem read_append_line :
    (∀ t t' : Text, (∀ e ∈ reported t, e.reason ≠ .unterminatedComment) →
      ((∃ r, read (t ++ '\n' :: t') = .ok r) ↔ (∃ r, read t = .ok r) ∧ ∃ r, read t' = .ok r) ∧
      (∀ r r', read t = .ok r → read t' = .ok r' →
        read (t ++ '\n' :: t') = .ok (r ++ r'.shift (1 + t.count '\n'))) ∧
      ((∀ r, read (t ++ '\n' :: t') ≠ .ok r) → read (t ++ '\n' :: t') =
        .error (reported t ++ (reported t').map (SyntaxError.shift (1 + t.count '\n'))))) ∧
    ∀ t : Text, (reported t).Pairwise (fun e e' => e.line ≤ e'.line) ∧
      (∀ e ∈ reported t, 1 ≤ e.line ∧ e.line ≤ (Text.lines t).length) ∧
      ∃ (flaws : List SyntaxError) (start : Option ℕ),
        reported t = flaws ++ start.toList.map unterminated ∧
          flaws.Pairwise (fun e e' => e.line < e'.line) ∧
          (∀ e ∈ flaws, e.reason ≠ .unterminatedComment) ∧
          ∀ line ∈ start, BeganOn (Text.lines t) line := by
  constructor
  · intro t t' hclosed
    have hopened := opened_eq_none hclosed
    exact ⟨read_append_isOk_iff hopened t', fun r r' => read_append_eq_ok hopened,
      read_append_eq_error hopened⟩
  · intro t
    refine ⟨pairwise_reported t, fun e => line_of_mem_reported, ?_⟩
    exact ⟨(uncomment t).flaws, (uncomment t).opened, reported_eq t,
      pairwise_flaws (Text.lines t), fun e he => (mem_flaws he).1, fun line => beganOn_of_opened⟩

/-- A document with a comment over two of its lines. -/
def spanning : Text := "A\r\nB /* x\r\n */ B implies A\r"

/-- A document with a flaw on the line on which a comment begins. -/
def unclosed : Text := "C equals A\nD E /* y"

theorem read_append_line_spanning :
    (∀ e ∈ reported spanning, e.reason ≠ .unterminatedComment) ∧
      read (spanning ++ '\n' :: spanning) = .ok
        { declarations := [⟨⟨"A", rfl⟩, .basic, 1⟩, ⟨⟨"B", rfl⟩, .basic, 2⟩,
            ⟨⟨"A", rfl⟩, .basic, 4⟩, ⟨⟨"B", rfl⟩, .basic, 5⟩]
          implications := [⟨⟨"B", rfl⟩, ⟨"A", rfl⟩, 3⟩, ⟨⟨"B", rfl⟩, ⟨"A", rfl⟩, 6⟩] } ∧
      read (spanning ++ '\n' :: unclosed) = .error
        [⟨5, .unexpectedToken, "E"⟩, ⟨5, .unterminatedComment, "/*"⟩] := by
  have hclosed : ∀ e ∈ reported spanning, e.reason ≠ .unterminatedComment := by decide +kernel
  have hread : read spanning = .ok
      { declarations := [⟨⟨"A", rfl⟩, .basic, 1⟩, ⟨⟨"B", rfl⟩, .basic, 2⟩]
        implications := [⟨⟨"B", rfl⟩, ⟨"A", rfl⟩, 3⟩] } := by
    decide +kernel
  have hrefused : ¬∃ r, read unclosed = .ok r := by
    rw [read_isOk_iff_reported_eq_nil]
    decide +kernel
  obtain ⟨-, hok, -⟩ := read_append_line.1 spanning spanning hclosed
  obtain ⟨hboth, -, herror⟩ := read_append_line.1 spanning unclosed hclosed
  refine ⟨hclosed, (hok _ _ hread hread).trans rfl, ?_⟩
  rw [herror fun r h => hrefused (hboth.1 ⟨r, h⟩).2]
  decide +kernel

end Document

end FeatureGuard

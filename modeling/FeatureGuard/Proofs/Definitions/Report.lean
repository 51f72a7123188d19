import Mathlib.Data.List.Range
import FeatureGuard.Proofs.Definitions.Comment
import FeatureGuard.Proofs.Definitions.Document

/-!
What is reported of a document. The flaws of its lines come first, at most one for a line and in
the order of the lines. A block comment that no line closes is reported last, on the line where it
began.
-/

namespace FeatureGuard

/-! ### Flaws of a line -/

namespace Flaw

variable {α β : Type} {P : Flaw → Prop}

/-- A computation that fails with no other flaws than the given ones. -/
def Only (P : Flaw → Prop) (x : Except Flaw α) : Prop := ∀ flaw, x = .error flaw → P flaw

theorem only_ok (a : α) : Only P (.ok a) := by
  rintro flaw ⟨⟩

theorem only_error {flaw : Flaw} (h : P flaw) : Only P (.error flaw : Except Flaw α) := by
  rintro _ ⟨rfl⟩
  exact h

theorem Only.bind {x : Except Flaw α} {f : α → Except Flaw β} (hx : Only P x)
    (hf : ∀ a, x = .ok a → Only P (f a)) : Only P (x >>= f) := by
  cases x with
  | ok a => exact hf a rfl
  | error flaw => exact only_error (hx flaw rfl)

theorem Only.map {x : Except Flaw α} (hx : Only P x) (f : α → β) : Only P (f <$> x) := by
  cases x with
  | ok a => exact only_ok (f a)
  | error flaw => exact only_error (hx flaw rfl)

theorem only_mapM {f : α → Except Flaw β} {l : List α} (hf : ∀ a ∈ l, Only P (f a)) :
    Only P (l.mapM f) := by
  induction l with
  | nil => exact only_ok []
  | cons a l ih =>
      obtain ⟨ha, hl⟩ := List.forall_mem_cons.1 hf
      rw [List.mapM_cons]
      exact ha.bind fun b _ => (ih hl).bind fun rest _ => only_ok (b :: rest)

theorem Only.imp {Q : Flaw → Prop} {x : Except Flaw α} (hx : Only P x)
    (h : ∀ flaw, P flaw → Q flaw) : Only Q x :=
  fun flaw hflaw => h flaw (hx flaw hflaw)

/-- A computation on a single line: no comment that is left open is among its flaws. -/
def Within {α : Type} (x : Except Flaw α) : Prop :=
  ∀ flaw, x = .error flaw → flaw.reason ≠ .unterminatedComment

theorem within_ok (a : α) : Within (.ok a) := only_ok a

theorem within_error {reason : Reason} (h : reason ≠ .unterminatedComment) (token : Text) :
    Within (.error ⟨reason, token⟩ : Except Flaw α) :=
  only_error h

theorem Within.bind {x : Except Flaw α} {f : α → Except Flaw β} (hx : Within x)
    (hf : ∀ a, Within (f a)) : Within (x >>= f) :=
  Only.bind hx fun a _ => hf a

theorem Within.map {x : Except Flaw α} (hx : Within x) (f : α → β) : Within (f <$> x) :=
  Only.map hx f

theorem within_mapM {f : α → Except Flaw β} (hf : ∀ a, Within (f a)) (l : List α) :
    Within (l.mapM f) :=
  only_mapM fun a _ => hf a

end Flaw

open Flaw (Within within_ok within_error within_mapM)

theorem Token.within_scan (t : Text) : Within (scan t) := by
  fun_induction scan t with
  | case1 => exact within_ok []
  | case2 _ _ _ ih => exact ih
  | case3 _ _ _ _ _ token _ ih => exact ih.bind fun rest => within_ok (token :: rest)
  | case4 => exact within_error (by decide) _
  | case5 _ _ _ _ token _ _ _ ih => exact ih.bind fun rest => within_ok (token :: rest)
  | case6 => exact within_error (by decide) _

theorem Token.within_checkShape (operand : Bool) (depth : ℕ) (tokens : List Token) :
    Within (checkShape operand depth tokens) := by
  fun_induction checkShape operand depth tokens
  all_goals first
    | assumption
    | exact within_ok _
    | exact within_error (by decide) _

theorem Condition.within_ofText (t : Text) : Within (ofText t) := by
  refine (Token.within_scan t).bind fun tokens => ?_
  split
  · exact within_error (by decide) _
  · exact (Token.within_checkShape true 0 tokens).bind fun _ => within_ok _

namespace Statement

theorem within_readName (t : Text) : Within (readName t) := by
  rw [readName]
  split
  · exact within_ok _
  · exact within_error (by decide) _

theorem within_readNames (t : Text) : Within (readNames t) := by
  rw [readNames]
  split
  · exact within_error (by decide) _
  · exact within_mapM within_readName _

theorem within_readExternal (t : Text) : Within (readExternal t) := by
  rw [readExternal]
  split
  · exact within_error (by decide) _
  · exact (within_readName _).map _
  · exact within_error (by decide) _

theorem within_readRule (name : Name) (t : Text) : Within (readRule name t) := by
  simp only [readRule]
  split_ifs
  · exact within_ok _
  · exact (within_readNames _).map _
  · exact (Condition.within_ofText _).map _
  · exact (Condition.within_ofText _).map _
  · exact within_error (by decide) _

theorem within_ofText (t : Text) : Within (ofText t) := by
  simp only [ofText]
  split_ifs
  · exact within_readExternal _
  · exact (within_readName _).bind fun name => within_readRule name _

end Statement

namespace Document

/-! ### Lines one by one -/

/-- The comments removed from lines. -/
def uncommented (lines : List Text) : Progress := lines.foldl Progress.advance {}

/-- The line with the block comment that is open at the end of lines. -/
def opened (lines : List Text) : Option ℕ := (uncommented lines).opened

theorem uncommented_concat (lines : List Text) (last : Text) :
    uncommented (lines ++ [last]) = (uncommented lines).advance last :=
  List.foldl_concat ..

/-- The lines are numbered from one. -/
theorem line_uncommented (lines : List Text) : (uncommented lines).line = lines.length + 1 ∧
    (uncommented lines).contents.reverse.map Prod.fst = List.range' 1 lines.length := by
  induction lines using List.reverseRecOn with
  | nil => exact ⟨rfl, rfl⟩
  | append_singleton lines last ih =>
      obtain ⟨hline, hcontents⟩ := ih
      rw [uncommented_concat, List.length_append, List.length_singleton]
      refine ⟨congrArg (· + 1) hline, ?_⟩
      rw [Progress.advance, List.reverse_cons, List.map_append, hcontents, List.range'_1_concat,
        hline, Nat.add_comm]
      rfl

theorem contents_concat (lines : List Text) (last : Text) :
    (uncommented (lines ++ [last])).contents =
      (lines.length + 1, (Comment.strip (lines.length + 1) (opened lines) last).1) ::
        (uncommented lines).contents := by
  rw [uncommented_concat, ← (line_uncommented lines).1]
  rfl

theorem opened_concat (lines : List Text) (last : Text) :
    opened (lines ++ [last]) = (Comment.strip (lines.length + 1) (opened lines) last).2 := by
  rw [opened, uncommented_concat, ← (line_uncommented lines).1]
  rfl

theorem fst_le_of_mem_contents {lines : List Text} {e : ℕ × Text}
    (he : e ∈ (uncommented lines).contents) : 1 ≤ e.1 ∧ e.1 ≤ lines.length := by
  have hmem := List.mem_map_of_mem (f := Prod.fst) (List.mem_reverse.2 he)
  rw [(line_uncommented lines).2, List.mem_range'_1] at hmem
  omega

/-! ### Where an open comment began -/

/-- The comment that is open at the end of the lines began on the line with this number: no block is
open in front of some mark on it, one is behind the mark, and nothing from there on ends a block. -/
def BeganOn (lines : List Text) (line : ℕ) : Prop :=
  ∃ (earlier later : List Text) (front back : Text),
    lines = earlier ++ (front ++ "/*" ++ back) :: later ∧ line = earlier.length + 1 ∧
      opened (earlier ++ [front]) = none ∧ opened (earlier ++ [front ++ "/*"]) = some line ∧
        ¬("*/" : Text) <:+: back ∧ ∀ t ∈ later, ¬("*/" : Text) <:+: t

theorem BeganOn.le_length {lines : List Text} {line : ℕ} (h : BeganOn lines line) :
    1 ≤ line ∧ line ≤ lines.length := by
  obtain ⟨earlier, later, front, back, rfl, rfl, -⟩ := h
  simp only [List.length_append, List.length_cons]
  omega

theorem BeganOn.concat {lines : List Text} {line : ℕ} (h : BeganOn lines line) {last : Text}
    (hlast : ¬("*/" : Text) <:+: last) : BeganOn (lines ++ [last]) line := by
  obtain ⟨earlier, later, front, back, rfl, hline, hfront, hmark, hback, hlater⟩ := h
  refine ⟨earlier, later ++ [last], front, back, by simp, hline, hfront, hmark, hback, ?_⟩
  rw [List.forall_mem_append, List.forall_mem_singleton]
  exact ⟨hlater, hlast⟩

theorem beganOn_of_opened {lines : List Text} {start : ℕ} (h : opened lines = some start) :
    BeganOn lines start := by
  induction lines using List.reverseRecOn with
  | nil => cases h
  | append_singleton lines last ih =>
      rw [opened_concat] at h
      obtain ⟨hopened, hlast⟩ | ⟨rfl, front, back, rfl, hfront, hmark, hback⟩ :=
        Comment.opened_of_strip h
      · exact (ih hopened).concat hlast
      · rw [← opened_concat] at hfront hmark
        exact ⟨lines, [], front, back, rfl, rfl, hfront, hmark, hback, List.forall_mem_nil _⟩

/-- Behind the line on which an open comment began, everything is comment. -/
theorem eq_nil_of_opened {lines : List Text} {start : ℕ} (h : opened lines = some start)
    {e : ℕ × Text} (he : e ∈ (uncommented lines).contents) (hlt : start < e.1) : e.2 = [] := by
  induction lines using List.reverseRecOn with
  | nil => cases h
  | append_singleton lines last ih =>
      rw [opened_concat] at h
      rw [contents_concat] at he
      rcases List.mem_cons.1 he with rfl | he
      · exact Comment.strip_eq_nil h hlt.ne
      · obtain ⟨hopened, -⟩ | ⟨rfl, -⟩ := Comment.opened_of_strip h
        · exact ih hopened he
        · have hle := (fst_le_of_mem_contents he).2
          omega

/-! ### What is reported -/

/-- The errors that are reported of a document; there are none where it is read. -/
def reported (t : Text) : List SyntaxError :=
  match read t with
  | .ok _ => []
  | .error errors => errors

/-- What the lines so far were read as. -/
def Progress.results (p : Progress) : List (Except SyntaxError RuleSet) :=
  p.contents.reverse.filterMap readLine

/-- The flaws of the lines so far. -/
def Progress.flaws (p : Progress) : List SyntaxError := p.results.filterMap error?

/-- The rules of the lines that were read. -/
def gathered (results : List (Except SyntaxError RuleSet)) : RuleSet :=
  (results.filterMap rules?).foldr (· ++ ·) {}

theorem read_eq_ite (t : Text) : read t =
    if (uncomment t).flaws ++ (uncomment t).opened.toList.map unterminated = [] then
      .ok (gathered (uncomment t).results)
    else .error ((uncomment t).flaws ++ (uncomment t).opened.toList.map unterminated) := by
  rw [read]
  split
  · rename_i hnil
    exact (if_pos hnil).symm
  · rename_i hne
    exact (if_neg hne).symm

theorem reported_eq (t : Text) :
    reported t = (uncomment t).flaws ++ (uncomment t).opened.toList.map unterminated := by
  rw [reported, read_eq_ite]
  split_ifs with hnil
  · exact hnil.symm
  · rfl

/-- A document is read where nothing is reported of it. -/
theorem read_eq (t : Text) : read t =
    if reported t = [] then .ok (gathered (uncomment t).results) else .error (reported t) := by
  rw [reported_eq, read_eq_ite]

theorem read_isOk_iff_reported_eq_nil {t : Text} : (∃ r, read t = .ok r) ↔ reported t = [] := by
  rw [read_eq]
  split_ifs with hnil
  · exact iff_of_true ⟨_, rfl⟩ hnil
  · refine iff_of_false ?_ hnil
    rintro ⟨_, h⟩
    cases h

theorem eq_gathered_of_read {t : Text} {r : RuleSet} (h : read t = .ok r) :
    r = gathered (uncomment t).results := by
  have hnil := read_isOk_iff_reported_eq_nil.1 ⟨r, h⟩
  rw [read_eq, if_pos hnil] at h
  exact (Except.ok.inj h).symm

/-- The flaw of a line. -/
def flaw? (entry : ℕ × Text) : Option SyntaxError := (readLine entry).bind error?

theorem exists_of_flaw? {line : ℕ} {content : Text} {e : SyntaxError}
    (h : flaw? (line, content) = some e) : Text.trim content ≠ [] ∧
      ∃ flaw, Statement.ofText (Text.trim content) = .error flaw ∧ e = flaw.onLine line := by
  rw [flaw?, readLine_eq] at h
  split at h
  · cases h
  · rename_i hne
    cases hstatement : Statement.ofText (Text.trim content) with
    | ok statement =>
        rw [hstatement] at h
        cases h
    | error flaw =>
        rw [hstatement] at h
        cases h
        exact ⟨hne, flaw, rfl, rfl⟩

theorem flaw?_eq_some {line : ℕ} {content : Text} {e : SyntaxError}
    (h : flaw? (line, content) = some e) :
    e.line = line ∧ content ≠ [] ∧ e.reason ≠ .unterminatedComment := by
  obtain ⟨hne, flaw, hflaw, rfl⟩ := exists_of_flaw? h
  refine ⟨rfl, ?_, Statement.within_ofText _ flaw hflaw⟩
  rintro rfl
  exact hne rfl

theorem Progress.flaws_eq (p : Progress) : p.flaws = p.contents.reverse.filterMap flaw? :=
  List.filterMap_filterMap

theorem mem_flaws {p : Progress} {e : SyntaxError} (h : e ∈ p.flaws) :
    e.reason ≠ .unterminatedComment ∧ ∃ content, (e.line, content) ∈ p.contents ∧ content ≠ [] := by
  rw [Progress.flaws_eq] at h
  obtain ⟨⟨line, content⟩, hmem, hflaw⟩ := List.mem_filterMap.1 h
  obtain ⟨rfl, hcontent, hreason⟩ := flaw?_eq_some hflaw
  exact ⟨hreason, content, List.mem_reverse.1 hmem, hcontent⟩

/-- There is at most one flaw to a line. -/
theorem pairwise_flaws (lines : List Text) :
    (uncommented lines).flaws.Pairwise fun e e' => e.line < e'.line := by
  have hentries : (uncommented lines).contents.reverse.Pairwise fun a b => a.1 < b.1 := by
    rw [← List.pairwise_map (f := Prod.fst), (line_uncommented lines).2]
    exact List.pairwise_lt_range'
  rw [Progress.flaws_eq]
  refine hentries.filterMap flaw? ?_
  intro a b hlt e he e' he'
  rw [(flaw?_eq_some he).1, (flaw?_eq_some he').1]
  exact hlt

/-! ### The lines of what is reported -/

theorem opened_eq_none {t : Text} (h : ∀ e ∈ reported t, e.reason ≠ .unterminatedComment) :
    (uncomment t).opened = none := by
  cases hopened : (uncomment t).opened with
  | none => rfl
  | some start =>
      rw [reported_eq, hopened] at h
      exact absurd rfl (h (unterminated start) (List.mem_append_right _ List.mem_cons_self))

theorem mem_reported {t : Text} {e : SyntaxError} (h : e ∈ reported t) :
    e ∈ (uncomment t).flaws ∨ opened (Text.lines t) = some e.line := by
  rw [reported_eq, List.mem_append, List.mem_map] at h
  refine h.imp_right ?_
  rintro ⟨start, hstart, rfl⟩
  exact Option.mem_toList.1 hstart

theorem line_of_mem_reported {t : Text} {e : SyntaxError} (h : e ∈ reported t) :
    1 ≤ e.line ∧ e.line ≤ (Text.lines t).length := by
  obtain hflaw | hopened := mem_reported h
  · obtain ⟨-, content, hmem, -⟩ := mem_flaws hflaw
    exact fst_le_of_mem_contents hmem
  · exact (beganOn_of_opened hopened).le_length

theorem pairwise_reported (t : Text) :
    (reported t).Pairwise fun e e' => e.line ≤ e'.line := by
  rw [reported_eq, List.pairwise_append]
  refine ⟨(pairwise_flaws (Text.lines t)).imp Nat.le_of_lt, ?_, ?_⟩
  · cases (uncomment t).opened with
    | none => exact .nil
    | some start => exact List.pairwise_singleton _ _
  · intro e he e' he'
    obtain ⟨start, hstart, rfl⟩ := List.mem_map.1 he'
    obtain ⟨-, content, hmem, hne⟩ := mem_flaws he
    -- a line behind the start of the comment has no content
    by_contra hlt
    exact hne (eq_nil_of_opened (Option.mem_toList.1 hstart) hmem (Nat.lt_of_not_le hlt))

end Document

end FeatureGuard

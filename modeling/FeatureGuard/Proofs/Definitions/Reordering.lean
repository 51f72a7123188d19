import FeatureGuard.Proofs.Definitions.Comment
import FeatureGuard.Proofs.Definitions.Document
import FeatureGuard.Proofs.Feature.Reordering

/-!
Documents with the same lines. Where no line opens a block comment, every line is read on its own,
so that the lines of a document can be put in another order: the document is read as before, and its
rules are the same apart from their order and their lines.
-/

namespace FeatureGuard

namespace Document

/-! ### Lines that are read on their own -/

/-- What the content of a line says, if it is a statement. -/
def said? (content : Text) : Option Statement :=
  (statement? (0, content)).map Prod.snd

theorem statement?_eq_map_said? (line : ℕ) (content : Text) :
    statement? (line, content) = (said? content).map fun statement => (line, statement) := by
  rw [said?, statement?, statement?]
  split
  · rfl
  · split
    · rfl
    · rfl

/-- Whether the content of a line is read without a flaw. -/
def Accepted (content : Text) : Prop :=
  Text.trim content ≠ [] → ∃ statement, Statement.ofText (Text.trim content) = .ok statement

theorem contents_foldl_advance {lines : List Text} (h : ∀ line ∈ lines, ¬("/*" : Text) <:+: line)
    {p : Progress} (hp : p.opened = none) :
    (lines.foldl Progress.advance p).opened = none ∧
      (lines.foldl Progress.advance p).contents.map Prod.snd =
        (lines.map Comment.beforeMark).reverse ++ p.contents.map Prod.snd := by
  induction lines generalizing p with
  | nil => exact ⟨hp, rfl⟩
  | cons line lines ih =>
      obtain ⟨hline, hlines⟩ := List.forall_mem_cons.1 h
      have hadvance : p.advance line =
          ⟨p.line + 1, none, (p.line, Comment.beforeMark line) :: p.contents⟩ := by
        rw [Progress.advance, hp, Comment.strip_of_not_isInfix _ hline]
      obtain ⟨hopened, hcontents⟩ := ih hlines (congrArg Progress.opened hadvance)
      refine ⟨hopened, ?_⟩
      rw [List.foldl_cons, hcontents, hadvance, List.map_cons, List.map_cons, List.reverse_cons,
        List.append_assoc, List.singleton_append]

variable {t t' : Text}

theorem contents_uncomment (h : ∀ line ∈ Text.lines t, ¬("/*" : Text) <:+: line) :
    (uncomment t).opened = none ∧
      (uncomment t).contents.reverse.map Prod.snd = (Text.lines t).map Comment.beforeMark := by
  obtain ⟨hopened, hcontents⟩ := contents_foldl_advance h (p := {}) rfl
  refine ⟨hopened, ?_⟩
  rw [List.map_reverse, uncomment, hcontents, List.map_nil, List.append_nil, List.reverse_reverse]

theorem read_isOk_iff (t : Text) : (∃ r, read t = .ok r) ↔ (uncomment t).opened = none ∧
    ∀ content ∈ (uncomment t).contents.reverse.map Prod.snd, Accepted content := by
  have herrors : ((uncomment t).contents.reverse.filterMap readLine).filterMap error? = [] ↔
      ∀ content ∈ (uncomment t).contents.reverse.map Prod.snd, Accepted content := by
    rw [List.filterMap_filterMap, List.filterMap_eq_nil_iff, List.forall_mem_map]
    refine forall₂_congr fun entry _ => ?_
    obtain ⟨line, content⟩ := entry
    rw [readLine_eq, Accepted]
    by_cases hnil : Text.trim content = []
    · simp [hnil]
    · cases Statement.ofText (Text.trim content) with
      | ok statement => simp [hnil, error?]
      | error flaw => simp [hnil, error?]
  rw [← herrors, read]
  split
  · rename_i hnil
    obtain ⟨hlines, hopened⟩ := List.append_eq_nil_iff.1 hnil
    refine iff_of_true ⟨_, rfl⟩ ⟨?_, hlines⟩
    rwa [List.map_eq_nil_iff, Option.toList_eq_nil_iff] at hopened
  · rename_i hne
    refine iff_of_false ?_ ?_
    · rintro ⟨_, h⟩
      cases h
    · rintro ⟨hopened, hlines⟩
      refine hne ?_
      rw [hlines, hopened]
      rfl

/-! ### The statements of a document -/

theorem map_snd_statements (t : Text) : (statements t).map Prod.snd =
    ((uncomment t).contents.reverse.map Prod.snd).filterMap said? := by
  rw [statements, List.map_filterMap, List.filterMap_map]
  refine List.filterMap_congr fun entry _ => ?_
  obtain ⟨line, content⟩ := entry
  rw [statement?_eq_map_said?, Option.map_map]
  exact congrFun Option.map_id (said? content)

theorem perm_statements (hlines : (Text.lines t).Perm (Text.lines t'))
    (hplain : ∀ line ∈ Text.lines t, ¬("/*" : Text) <:+: line) :
    ((statements t).map Prod.snd).Perm ((statements t').map Prod.snd) := by
  have hplain' : ∀ line ∈ Text.lines t', ¬("/*" : Text) <:+: line :=
    fun line hline => hplain line (hlines.symm.subset hline)
  rw [map_snd_statements, map_snd_statements, (contents_uncomment hplain).2,
    (contents_uncomment hplain').2]
  exact (hlines.map _).filterMap _

/-- Apart from their lines, the rules of a document come from its statements alone. -/
theorem unplaced_joined {α : Type} (part : RuleSet → List α) (unplaced : α → α)
    (hnil : part {} = []) (happend : ∀ a b, part (a ++ b) = part a ++ part b)
    (hrules : ∀ (statement : Statement) line,
      (part (statement.rules line)).map unplaced = part (statement.rules 0))
    (statements : List (ℕ × Statement)) : (part (joined statements)).map unplaced =
      (statements.map Prod.snd).flatMap fun statement => part (statement.rules 0) := by
  rw [part_joined part hnil happend, List.map_flatMap, List.flatMap_map]
  exact List.flatMap_congr fun (line, statement) _ => hrules statement line

theorem unplaced_declarations_joined (statements : List (ℕ × Statement)) :
    (joined statements).declarations.map Declaration.unplaced =
      (statements.map Prod.snd).flatMap fun statement => (statement.rules 0).declarations :=
  unplaced_joined _ _ rfl (fun _ _ => rfl) (fun statement _ => by cases statement <;> rfl) _

theorem unplaced_implications_joined (statements : List (ℕ × Statement)) :
    (joined statements).implications.map Implication.unplaced =
      (statements.map Prod.snd).flatMap fun statement => (statement.rules 0).implications :=
  unplaced_joined _ _ rfl (fun _ _ => rfl)
    (fun statement _ => by cases statement <;> simp [Statement.rules, Implication.unplaced]) _

theorem unplaced_derivations_joined (statements : List (ℕ × Statement)) :
    (joined statements).derivations.map Derivation.unplaced =
      (statements.map Prod.snd).flatMap fun statement => (statement.rules 0).derivations :=
  unplaced_joined _ _ rfl (fun _ _ => rfl) (fun statement _ => by cases statement <;> rfl) _

theorem unplaced_requirements_joined (statements : List (ℕ × Statement)) :
    (joined statements).requirements.map Requirement.unplaced =
      (statements.map Prod.snd).flatMap fun statement => (statement.rules 0).requirements :=
  unplaced_joined _ _ rfl (fun _ _ => rfl) (fun statement _ => by cases statement <;> rfl) _

theorem reordered_joined {statements statements' : List (ℕ × Statement)}
    (h : (statements.map Prod.snd).Perm (statements'.map Prod.snd)) :
    (joined statements).Reordered (joined statements') := by
  constructor
  · rw [unplaced_declarations_joined, unplaced_declarations_joined]
    exact h.flatMap_right _
  · rw [unplaced_implications_joined, unplaced_implications_joined]
    exact h.flatMap_right _
  · rw [unplaced_derivations_joined, unplaced_derivations_joined]
    exact h.flatMap_right _
  · rw [unplaced_requirements_joined, unplaced_requirements_joined]
    exact h.flatMap_right _

/-! ### Reading the lines in another order -/

theorem exists_read_of_perm (hlines : (Text.lines t).Perm (Text.lines t'))
    (hplain : ∀ line ∈ Text.lines t, ¬("/*" : Text) <:+: line) {r : RuleSet}
    (hread : read t = .ok r) : ∃ r', read t' = .ok r' ∧ r.Reordered r' := by
  have hplain' : ∀ line ∈ Text.lines t', ¬("/*" : Text) <:+: line :=
    fun line hline => hplain line (hlines.symm.subset hline)
  have haccepted : ∃ r', read t' = .ok r' := by
    obtain ⟨-, hcontents⟩ := (read_isOk_iff t).1 ⟨r, hread⟩
    rw [(contents_uncomment hplain).2] at hcontents
    obtain ⟨hopened', hcontents'⟩ := contents_uncomment hplain'
    rw [read_isOk_iff, hcontents']
    exact ⟨hopened', fun content hcontent =>
      hcontents content ((hlines.map _).symm.subset hcontent)⟩
  obtain ⟨r', hread'⟩ := haccepted
  refine ⟨r', hread', ?_⟩
  rw [(read_eq_ok hread).2, (read_eq_ok hread').2]
  exact reordered_joined (perm_statements hlines hplain)

end Document

end FeatureGuard

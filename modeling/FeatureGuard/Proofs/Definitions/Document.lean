import Mathlib.Data.List.Basic
import FeatureGuard.Definitions.Document
import FeatureGuard.Feature.Settlement
import FeatureGuard.Proofs.Definitions.Statement

/-!
What a document says. A document that is read without a flaw makes the rules of its statements, in
the order of its lines; its derivations are those of its equations, which are also what declares
features as derived.
-/

namespace FeatureGuard

/-! ### Equations -/

namespace Statement

theorem mem_derivations_rules {statement : Statement} {line : ℕ} {d : Derivation} :
    d ∈ (statement.rules line).derivations ↔
      statement = equals d.feature d.condition ∧ d.line = line := by
  cases statement with
  | equals name condition =>
      obtain ⟨feature, c, l⟩ := d
      simp [rules, eq_comm, and_assoc]
  | _ => simp [rules]

/-- An equation declares a derived feature, and nothing else does. -/
theorem declaredAs_derived_rules (statement : Statement) (line : ℕ) :
    (statement.rules line).declaredAs .derived =
      (statement.rules line).derivations.map Derivation.feature := by
  cases statement <;> rfl

end Statement

namespace Document

/-! ### The statements of a document -/

/-- The statement on a line, if there is one. -/
def statement? : ℕ × Text → Option (ℕ × Statement)
  | (line, content) =>
    if Text.trim content = [] then none
    else match Statement.ofText (Text.trim content) with
      | .ok statement => some (line, statement)
      | .error _ => none

/-- The statements of a document, each with the number of its line. -/
def statements (t : Text) : List (ℕ × Statement) :=
  (uncomment t).contents.reverse.filterMap statement?

/-- Joins the rules of statements. -/
def joined (statements : List (ℕ × Statement)) : RuleSet :=
  (statements.map fun (line, statement) => statement.rules line).foldr (· ++ ·) {}

theorem readLine_eq (line : ℕ) (content : Text) :
    readLine (line, content) =
      if Text.trim content = [] then none
      else match Statement.ofText (Text.trim content) with
        | .ok statement => some (.ok (statement.rules line))
        | .error flaw => some (.error (flaw.onLine line)) := by
  simp only [readLine]
  split
  · rename_i hnil
    rw [if_pos hnil]
  · rename_i hne
    rw [if_neg hne]
    cases Statement.ofText (Text.trim content) with
    | ok statement => rfl
    | error flaw => rfl

theorem readLine_bind_rules? (e : ℕ × Text) :
    (readLine e).bind rules? =
      (statement? e).map fun (line, statement) => statement.rules line := by
  obtain ⟨line, content⟩ := e
  rw [readLine_eq, statement?]
  by_cases hnil : Text.trim content = []
  · rw [if_pos hnil, if_pos hnil]
    rfl
  · rw [if_neg hnil, if_neg hnil]
    cases Statement.ofText (Text.trim content) with
    | ok statement => rfl
    | error flaw => rfl

theorem statement?_eq_some_iff {e : ℕ × Text} {line : ℕ} {statement : Statement} :
    statement? e = some (line, statement) ↔
      e.1 = line ∧ Text.trim e.2 ≠ [] ∧ Statement.ofText (Text.trim e.2) = .ok statement := by
  obtain ⟨l, content⟩ := e
  rw [statement?]
  by_cases hnil : Text.trim content = []
  · simp [hnil]
  · rw [if_neg hnil]
    cases Statement.ofText (Text.trim content) with
    | ok s => simp [hnil]
    | error flaw => simp

theorem mem_statements {t : Text} {line : ℕ} {statement : Statement} :
    (line, statement) ∈ statements t ↔ ∃ content, (line, content) ∈ (uncomment t).contents ∧
      Text.trim content ≠ [] ∧ Statement.ofText (Text.trim content) = .ok statement := by
  simp only [statements, List.mem_filterMap, List.mem_reverse, statement?_eq_some_iff]
  constructor
  · rintro ⟨⟨_, content⟩, hmem, rfl, h⟩
    exact ⟨content, hmem, h⟩
  · rintro ⟨content, hmem, h⟩
    exact ⟨(line, content), hmem, rfl, h⟩

theorem read_eq_ok {t : Text} {r : RuleSet} (h : read t = .ok r) :
    (∀ line content, (line, content) ∈ (uncomment t).contents → Text.trim content ≠ [] →
      ∃ statement, Statement.ofText (Text.trim content) = .ok statement) ∧
        r = joined (statements t) := by
  rw [read] at h
  split at h
  · rename_i hnil
    obtain ⟨herrors, -⟩ := List.append_eq_nil_iff.1 hnil
    rw [List.filterMap_eq_nil_iff] at herrors
    constructor
    · intro line content hmem hne
      cases hstatement : Statement.ofText (Text.trim content) with
      | ok statement => exact ⟨statement, rfl⟩
      | error flaw =>
          have hread : readLine (line, content) = some (.error (flaw.onLine line)) := by
            rw [readLine_eq, if_neg hne, hstatement]
          have hresult := List.mem_filterMap.2 ⟨_, List.mem_reverse.2 hmem, hread⟩
          cases herrors _ hresult
    · cases h
      rw [joined, statements, List.filterMap_filterMap, List.map_filterMap]
      simp only [readLine_bind_rules?]
  · cases h

/-! ### The rules of a document -/

/-- The rules of one sort, statement by statement. -/
theorem part_joined {α : Type} (part : RuleSet → List α) (hnil : part {} = [])
    (happend : ∀ a b, part (a ++ b) = part a ++ part b) (statements : List (ℕ × Statement)) :
    part (joined statements) =
      statements.flatMap fun (line, statement) => part (statement.rules line) := by
  induction statements with
  | nil => exact hnil
  | cons e statements ih =>
      rw [List.flatMap_cons, ← ih]
      exact happend _ _

theorem exists_text_of_requirement {t : Text} {r : RuleSet} (h : read t = .ok r) {q : Requirement}
    (hq : q ∈ r.requirements) : ∃ e, Condition.ofText e = .ok q.condition := by
  obtain ⟨-, rfl⟩ := read_eq_ok h
  rw [part_joined RuleSet.requirements rfl fun _ _ => rfl, List.mem_flatMap] at hq
  obtain ⟨⟨line, statement⟩, hmem, hq⟩ := hq
  obtain ⟨content, -, -, hstatement⟩ := mem_statements.1 hmem
  cases Statement.says_of_ofText hstatement with
  | «requires» _ _ condition =>
      obtain rfl := List.mem_singleton.1 hq
      exact ⟨_, condition⟩
  | _ => cases hq

/-! ### The derivations of a document -/

theorem joined_cons (line : ℕ) (statement : Statement) (rest : List (ℕ × Statement)) :
    joined ((line, statement) :: rest) = statement.rules line ++ joined rest := rfl

theorem derivations_append (a b : RuleSet) :
    (a ++ b).derivations = a.derivations ++ b.derivations := rfl

theorem declaredAs_append (a b : RuleSet) (kind : Kind) :
    (a ++ b).declaredAs kind = a.declaredAs kind ++ b.declaredAs kind := by
  show ((a.declarations ++ b.declarations).filter _).map _ = _
  rw [List.filter_append, List.map_append]
  rfl

theorem mem_derivations_joined {statements : List (ℕ × Statement)} {d : Derivation} :
    d ∈ (joined statements).derivations ↔
      (d.line, .equals d.feature d.condition) ∈ statements := by
  induction statements with
  | nil => simp [joined]
  | cons e statements ih =>
      obtain ⟨line, statement⟩ := e
      rw [joined_cons, derivations_append, List.mem_append, Statement.mem_derivations_rules, ih,
        List.mem_cons, Prod.mk.injEq, and_comm, eq_comm, @eq_comm _ (Statement.equals _ _)]

/-- The features that a document declares as derived are those that its derivations are for. -/
theorem declaredAs_derived {t : Text} {r : RuleSet} (h : read t = .ok r) :
    r.declaredAs .derived = r.derivations.map Derivation.feature := by
  obtain ⟨-, rfl⟩ := read_eq_ok h
  induction statements t with
  | nil => rfl
  | cons e statements ih =>
      obtain ⟨line, statement⟩ := e
      rw [joined_cons, declaredAs_append, derivations_append, List.map_append, ih,
        Statement.declaredAs_derived_rules]

/-- Some line of the document, without its comments, says that a feature equals a text. -/
def Equates (t : Text) (feature : Name) (e : Text) : Prop :=
  ∃ line content rest, (line, content) ∈ (uncomment t).contents ∧
    Text.splitWord (Text.trim content) = (feature.text, rest) ∧
      Text.splitWord rest = (("equals" : Text), e)

theorem exists_derivation_of_equates {t : Text} {r : RuleSet} (h : read t = .ok r)
    {feature : Name} {e : Text} (hequates : Equates t feature e) :
    ∃ d ∈ r.derivations, d.feature = feature ∧ Condition.ofText e = .ok d.condition := by
  obtain ⟨hstatements, rfl⟩ := read_eq_ok h
  obtain ⟨line, content, rest, hmem, hsplit, hequals⟩ := hequates
  have hne : Text.trim content ≠ [] := by
    intro hnil
    rw [hnil] at hsplit
    exact Statement.text_ne_nil feature (congrArg Prod.fst hsplit).symm
  obtain ⟨statement, hstatement⟩ := hstatements line content hmem hne
  obtain ⟨c, hcondition, rfl⟩ := Statement.exists_of_ofText_equals hstatement hsplit hequals
  refine ⟨⟨feature, c, line⟩, mem_derivations_joined.2 ?_, rfl, hcondition⟩
  exact mem_statements.2 ⟨content, hmem, hne, hstatement⟩

theorem exists_equates {t : Text} {r : RuleSet} (h : read t = .ok r) {d : Derivation}
    (hd : d ∈ r.derivations) :
    ∃ e, Equates t d.feature e ∧ Condition.ofText e = .ok d.condition := by
  obtain ⟨-, rfl⟩ := read_eq_ok h
  obtain ⟨content, hmem, -, hstatement⟩ := mem_statements.1 (mem_derivations_joined.1 hd)
  cases Statement.says_of_ofText hstatement with
  | equals head keyword condition =>
      exact ⟨_, ⟨d.line, content, _, hmem, head, keyword⟩, condition⟩

end Document

end FeatureGuard

import Mathlib.Data.List.Forall2
import FeatureGuard.Proofs.Definitions.Document

/-!
Lines and rules. Which features a line declares or puts a requirement on shows in its first words.
The declarations and the requirements of a document are those of its lines, in their order.
-/

namespace FeatureGuard

namespace Statement

/-- The feature that a line declares, and its kind. The word `external` and a name declare an
external feature, a name on its own a basic one, a name that equals something a derived one. -/
def declaration? (content : Text) : Option (Name × Kind) :=
  let (head, rest) := Text.splitWord content
  let (next, _) := Text.splitWord rest
  if head = "external" then (Name.ofText? next).map (·, .external)
  else if next = [] then (Name.ofText? head).map (·, .basic)
  else if next = "equals" then (Name.ofText? head).map (·, .derived)
  else none

/-- The feature that a line puts a requirement on, and the text of what it requires. -/
def requirement? (content : Text) : Option (Name × Text) :=
  let (head, rest) := Text.splitWord content
  let (keyword, required) := Text.splitWord rest
  if keyword = "requires" then (Name.ofText? head).map (·, required) else none

variable {t : Text} {statement : Statement}

/-- What a line declares is what its rules declare. -/
theorem declarations_rules (h : ofText t = .ok statement) (line : ℕ) :
    (statement.rules line).declarations.map (fun d => (d.name, d.kind)) =
      (declaration? t).toList := by
  cases says_of_ofText h with
  | external head only =>
      simp only [declaration?, head, only]
      rw [if_true, Name.ofText?_text]
      rfl
  | @basic n rest head only =>
      simp only [declaration?, head, only]
      rw [if_neg (external_ne_text n), if_true, Name.ofText?_text]
      rfl
  | @implies n _ _ _ head keyword =>
      simp only [declaration?, head, keyword]
      rw [if_neg (external_ne_text n), if_neg (by decide), if_neg (by decide)]
      rfl
  | @equals n _ _ _ head keyword =>
      simp only [declaration?, head, keyword]
      rw [if_neg (external_ne_text n), if_neg (by decide), if_true, Name.ofText?_text]
      rfl
  | @«requires» n _ _ _ head keyword =>
      simp only [declaration?, head, keyword]
      rw [if_neg (external_ne_text n), if_neg (by decide), if_neg (by decide)]
      rfl

/-- What a line puts a requirement on and what it requires is what its rules say. -/
theorem requirements_rules (h : ofText t = .ok statement) (line : ℕ) :
    List.Forall₂ (fun q (n, e) => q.feature = n ∧ Condition.ofText e = .ok q.condition)
      (statement.rules line).requirements (requirement? t).toList := by
  cases says_of_ofText h with
  | @external n rest head only =>
      have hname : Name.ofText? ("external" : Text) = none := by decide
      simp only [requirement?, head, hname, Option.map_none, ite_self]
      exact .nil
  | @basic n rest head only =>
      have hkeyword : (Text.splitWord rest).1 ≠ ("requires" : Text) := by
        rw [only]
        decide
      simp only [requirement?, head]
      rw [if_neg hkeyword]
      exact .nil
  | implies head keyword =>
      simp only [requirement?, head, keyword]
      rw [if_neg (by decide)]
      exact .nil
  | equals head keyword =>
      simp only [requirement?, head, keyword]
      rw [if_neg (by decide)]
      exact .nil
  | «requires» head keyword condition =>
      simp only [requirement?, head, keyword]
      rw [if_true, Name.ofText?_text]
      exact .cons ⟨rfl, condition⟩ .nil

end Statement

namespace Document

variable {t : Text} {r : RuleSet}

/-- What stands on the lines of a document, without comments and without blanks at the ends. -/
def contents (t : Text) : List Text :=
  (uncomment t).contents.reverse.map fun e => Text.trim e.2

/-- The features that the lines of a document declare with a kind, in the order of the lines. -/
def declared (t : Text) (kind : Kind) : List Name :=
  (((contents t).filterMap Statement.declaration?).filter (·.2 = kind)).map Prod.fst

/-- The requirements that the lines of a document state, in the order of the lines. -/
def requirements (t : Text) : List (Name × Text) :=
  (contents t).filterMap Statement.requirement?

/-- What holds between the rules of a line and what the line says, for every line, holds between the
rules of a document and what its lines say. -/
theorem forall₂_of_read {α β : Type} {R : α → β → Prop} (part : RuleSet → List α)
    (hnil : part {} = []) (happend : ∀ a b, part (a ++ b) = part a ++ part b)
    (said? : Text → Option β) (hblank : said? [] = none)
    (hline : ∀ {content statement} line, Statement.ofText content = .ok statement →
      List.Forall₂ R (part (statement.rules line)) (said? content).toList)
    (hread : read t = .ok r) : List.Forall₂ R (part r) ((contents t).filterMap said?) := by
  obtain ⟨hstatements, rfl⟩ := read_eq_ok hread
  have hentries : ∀ e ∈ (uncomment t).contents.reverse, Text.trim e.2 ≠ [] →
      ∃ statement, Statement.ofText (Text.trim e.2) = .ok statement :=
    fun e he => hstatements e.1 e.2 (List.mem_reverse.1 he)
  rw [statements, contents]
  generalize (uncomment t).contents.reverse = entries at hentries ⊢
  induction entries with
  | nil => exact hnil ▸ .nil
  | cons e entries ih =>
      obtain ⟨he, hentries⟩ := List.forall_mem_cons.1 hentries
      rw [List.map_cons]
      by_cases hcontent : Text.trim e.2 = []
      · have hnone : statement? e = none := if_pos hcontent
        rw [List.filterMap_cons_none hnone, List.filterMap_cons_none (hcontent ▸ hblank)]
        exact ih hentries
      · obtain ⟨statement, hstatement⟩ := he hcontent
        have hsome : statement? e = some (e.1, statement) :=
          statement?_eq_some_iff.2 ⟨rfl, hcontent, hstatement⟩
        have hsaid : ∀ rest, (Text.trim e.2 :: rest).filterMap said? =
            (said? (Text.trim e.2)).toList ++ rest.filterMap said? := by
          intro rest
          rw [List.filterMap_cons]
          cases said? (Text.trim e.2) with
          | none => rfl
          | some b => rfl
        rw [List.filterMap_cons_some hsome, joined_cons, happend, hsaid]
        exact List.rel_append (hline e.1 hstatement) (ih hentries)

/-- The features that a document declares are those that its lines declare. -/
theorem declaredAs_eq (hread : read t = .ok r) (kind : Kind) :
    r.declaredAs kind = declared t kind := by
  have hlines : List.Forall₂ (fun d p => (d.name, d.kind) = p) r.declarations
      ((contents t).filterMap Statement.declaration?) := by
    refine forall₂_of_read RuleSet.declarations rfl (fun _ _ => rfl) _ (by decide) ?_ hread
    intro content statement line h
    rw [← Statement.declarations_rules h line, List.forall₂_map_right_iff, List.forall₂_same]
    exact fun _ _ => rfl
  have hpairs : r.declarations.map (fun d => (d.name, d.kind)) =
      (contents t).filterMap Statement.declaration? := by
    rwa [← List.forall₂_eq_eq_eq, List.forall₂_map_left_iff]
  rw [declared, ← hpairs, List.filter_map, List.map_map]
  rfl

/-- The requirements of a document are those that its lines state. -/
theorem forall₂_requirements (hread : read t = .ok r) :
    List.Forall₂ (fun q (n, e) => q.feature = n ∧ Condition.ofText e = .ok q.condition)
      r.requirements (requirements t) :=
  forall₂_of_read RuleSet.requirements rfl (fun _ _ => rfl) Statement.requirement? (by decide)
    (fun line h => Statement.requirements_rules h line) hread

end Document

end FeatureGuard

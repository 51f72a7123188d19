import FeatureGuard.Proofs.Artifact.Source
import FeatureGuard.Proofs.Preprocessor.Derivation

/-!
Requirements and the table of names. A requirement is checked by a condition that its own condition
is pasted into: the feature is defined, and what it requires does not hold. Going once through the
source raises one error for each requirement that is not met, and lists the features that are
defined.
-/

namespace FeatureGuard

/-! ### Pasting a condition -/

namespace Token

theorem render_append_closing (tokens : List Token) :
    render (tokens ++ [.closing]) = render tokens ++ [')'] := by
  induction tokens with
  | nil => rfl
  | cons left rest ih =>
      cases rest with
      | nil =>
          have hspaced : spaced left .closing = false := by simp [spaced]
          simp only [List.cons_append, List.nil_append, render, hspaced, Bool.false_eq_true, if_false]
          show left.rendered ++ [] ++ [')'] = _
          rw [List.append_nil]
      | cons right rest =>
          rw [List.cons_append] at ih
          simp only [List.cons_append, render, ih, List.append_assoc]

theorem render_opening (tokens : List Token) :
    render (.opening :: tokens) = '(' :: render tokens := by
  cases tokens with
  | nil => rfl
  | cons token tokens =>
      have hspaced : spaced .opening token = false := by simp [spaced]
      rw [render, hspaced]
      rfl

/-- The text that a condition is pasted into is spelled like any other condition. -/
theorem violation_render (n : Name) (tokens : List Token) :
    Pass.violation n (render tokens) =
      render (.name n :: .and :: .not :: .opening :: (tokens ++ [.closing])) := by
  have hname : spaced (.name n) .and = true := by simp [spaced]
  have hand : spaced .and .not = true := by simp [spaced]
  have hnot : spaced .not .opening = false := by simp [spaced]
  have hmiddle : (") && !(" : Text) ++ (render tokens ++ [')']) =
      [')'] ++ ([' '] ++ (['&', '&'] ++ ([' '] ++ (['!'] ++ '(' :: (render tokens ++ [')']))))) := rfl
  rw [render, render, render, render_opening, render_append_closing, hname, hand, hnot]
  show ("defined(" : Text) ++ n.text ++ (") && !(" : Text) ++ render tokens ++ [')'] =
    ("defined(" : Text) ++ n.text ++ [')'] ++ [' '] ++
      (['&', '&'] ++ [' '] ++ (['!'] ++ [] ++ '(' :: (render tokens ++ [')'])))
  simp only [List.append_assoc, List.nil_append, hmiddle]

end Token

namespace Condition

/-- Whether the preprocessor takes a condition to be true. -/
def isTrue (c : Condition) (m : Macros) : Bool :=
  (Preprocessor.readCondition c.rendered).any fun f => f.Holds (· ∈ m)

theorem Readable.isTrue_iff {c : Condition} {f : Formula Text} (h : c.Readable f) {m : Macros} :
    c.isTrue m = true ↔ f.Holds (· ∈ m) := by
  rw [isTrue, h.read]
  exact decide_eq_true_iff

theorem exists_readCondition_violation {t : Text} {c : Condition} (h : ofText t = .ok c)
    (n : Name) : ∃ f, c.Readable f ∧
      Preprocessor.readCondition (Pass.violation n c.rendered) =
        some (.and (.atom n.text) (.not f)) := by
  obtain ⟨f, hf⟩ := (exists_readable h).1
  obtain ⟨tokens, -, ⟨g, hg⟩, rfl⟩ := ofText_eq_ok_iff.1 h
  refine ⟨f, hf, ?_⟩
  obtain rfl : g.map Name.text = f :=
    Option.some_inj.1 ((Preprocessor.readCondition_render hg).symm.trans hf.read)
  -- the parentheses keep the negation together with the whole condition, and not with its first part
  have hspells : Spells .sum
      (List.map Token.symbol (.name n :: .and :: .not :: .opening :: (tokens ++ [.closing])))
      (.and (.atom n) (.not g)) := by
    have hunit := Spells.not (Spells.enclosed hg)
    have hproduct := Spells.and (.unit (.operand (a := n))) hunit
    simpa [Token.symbol] using Spells.product hproduct
  exact (congrArg _ (Token.violation_render n tokens)).trans
    (Preprocessor.readCondition_render hspells)

end Condition

/-- What the check of a requirement complains about where certain macros are defined. -/
def Requirement.complaint? (m : Macros) (q : Requirement) : Option Complaint :=
  if q.feature.text ∈ m ∧ q.condition.isTrue m = false then
    some (.unmet q.feature q.condition.human)
  else none

namespace Pass

variable {files : Files} {p : Pass}

/-! ### The block of a requirement -/

theorem execute_requirement (hp : p.skipped = 0) {q : Requirement} {e : Text}
    (h : Condition.ofText e = .ok q.condition) :
    execute files p (.requirement q.feature q.condition.human q.condition.rendered) =
      { p with complaints := p.complaints ++ (q.complaint? p.macros).toList } := by
  obtain ⟨f, hf, hviolation⟩ := Condition.exists_readCondition_violation h q.feature
  have hmeaning : (Formula.and (.atom q.feature.text) (.not f)).Holds (· ∈ p.macros) ↔
      q.feature.text ∈ p.macros ∧ q.condition.isTrue p.macros = false := by
    rw [← Bool.not_eq_true, hf.isTrue_iff]
    exact Iff.rfl
  show (if p.skipped = 0 then p.whenHolds _ _ else p) = _
  rw [if_pos hp, whenHolds_eq hviolation, Requirement.complaint?]
  simp only [hmeaning]
  split
  · rfl
  · show p = { p with complaints := p.complaints ++ [] }
    rw [List.append_nil]

/-- Going through requirements complains about those that are not met, and does nothing else. -/
theorem run_requirements {requirements : List Requirement} (hp : p.skipped = 0)
    (h : ∀ q ∈ requirements, ∃ e, Condition.ofText e = .ok q.condition) :
    run files p (requirements.map fun q =>
        .requirement q.feature q.condition.human q.condition.rendered) =
      { p with
        complaints := p.complaints ++ requirements.filterMap (Requirement.complaint? p.macros) } := by
  induction requirements generalizing p with
  | nil => simp [run]
  | cons q requirements ih =>
      obtain ⟨⟨e, he⟩, hrest⟩ := List.forall_mem_cons.1 h
      rw [List.map_cons, run_cons, execute_requirement hp he,
        ih (p := { p with complaints := p.complaints ++ (q.complaint? p.macros).toList }) hp hrest,
        List.filterMap_cons]
      cases q.complaint? p.macros with
      | none => simp
      | some c => simp

/-! ### The table of names -/

theorem run_tableEntries {names : List Name} (hp : p.skipped = 0) :
    run files p (names.map .tableEntry) =
      { p with listed := p.listed ++ names.filter (fun n => n.text ∈ p.macros) } := by
  induction names generalizing p with
  | nil => simp [run]
  | cons n names ih =>
      have hexecute : execute files p (.tableEntry n) =
          if n.text ∈ p.macros then { p with listed := p.listed ++ [n] } else p := if_pos hp
      rw [List.map_cons, run_cons, hexecute, List.filter_cons]
      split
      · rename_i hdefined
        rw [ih (p := { p with listed := p.listed ++ [n] }) hp]
        simp [hdefined]
      · rename_i hfree
        rw [ih hp]
        simp [hfree]

theorem run_nameTable (hp : p.skipped = 0) (s : Settlement) (o : Options) :
    run files p (Plan.nameTable s o) =
      { p with listed := p.listed ++ s.features.filter (fun n => n.text ∈ p.macros) } := by
  have hbegin : execute files p (.tableBegin o.table) = p := if_pos hp
  rw [Plan.nameTable, run_cons, hbegin, run_append, run_tableEntries hp]
  exact if_pos hp

end Pass

end FeatureGuard

import Mathlib.Data.SetLike.Basic
import FeatureGuard.Artifact.Plan
import FeatureGuard.Proofs.Preprocessor.Condition

/-!
One pass of the preprocessor. The pass goes through directives from top to bottom and keeps which
macros are defined. Between the lines of an include guard that was defined before, every line is
skipped. Files that are included consist of lines that define or undefine a macro.
-/

namespace FeatureGuard

theorem Name.text_injective : Function.Injective Name.text := by
  intro a b h
  cases a
  cases b
  cases h
  rfl

/-- The macros that are defined. -/
structure Macros where
  isDefined : Text → Bool

namespace Macros

instance : SetLike Macros Text where
  coe m := {x | m.isDefined x = true}
  coe_injective := by
    intro a b h
    cases a
    cases b
    congr
    funext x
    exact Bool.eq_iff_iff.2 (Set.ext_iff.1 h x)

instance (m : Macros) : DecidablePred (· ∈ m) :=
  fun x => inferInstanceAs (Decidable (m.isDefined x = true))

instance (m : Macros) : DecidablePred (· ∈ (m : Set Text)) :=
  inferInstanceAs (DecidablePred (· ∈ m))

/-- Any names whatsoever can be those of the defined macros. -/
theorem exists_coe_eq (names : Set Text) : ∃ m : Macros, (m : Set Text) = names := by
  classical
  refine ⟨⟨fun x => decide (x ∈ names)⟩, ?_⟩
  ext x
  exact decide_eq_true_iff

def define (m : Macros) (name : Text) : Macros := ⟨fun x => x = name || m.isDefined x⟩

def undefine (m : Macros) (name : Text) : Macros := ⟨fun x => x ≠ name && m.isDefined x⟩

@[simp] theorem mem_define {m : Macros} {name x : Text} : x ∈ m.define name ↔ x = name ∨ x ∈ m := by
  show (decide (x = name) || m.isDefined x) = true ↔ x = name ∨ m.isDefined x = true
  rw [Bool.or_eq_true, decide_eq_true_iff]

@[simp] theorem mem_undefine {m : Macros} {name x : Text} :
    x ∈ m.undefine name ↔ x ≠ name ∧ x ∈ m := by
  show (decide (x ≠ name) && m.isDefined x) = true ↔ x ≠ name ∧ m.isDefined x = true
  rw [Bool.and_eq_true, decide_eq_true_iff]

end Macros

/-! ### Included files -/

/-- A line of an included file. -/
inductive ConfigLine
  | define (name : Text)
  | undefine (name : Text)
  deriving DecidableEq

def ConfigLine.run (m : Macros) : ConfigLine → Macros
  | define name => m.define name
  | undefine name => m.undefine name

/-- The lines of each file that can be included. -/
abbrev Files := IncludePath → List ConfigLine

/-! ### The pass over directives -/

/-- What the preprocessor complains about, apart from its warnings. -/
inductive Complaint
  /-- an error line: a feature is defined and what it requires does not hold -/
  | unmet (feature : Name) (human : Text)
  | malformed (condition : Text)
  deriving DecidableEq

/-- How far the pass is. -/
structure Pass where
  macros : Macros
  /-- the number of include guards between whose lines everything is skipped -/
  skipped : ℕ := 0
  /-- the features that are derived and were defined already -/
  warnings : List Name := []
  complaints : List Complaint := []
  /-- the entries of the table of names that are active -/
  listed : List Name := []

namespace Pass

def complain (p : Pass) (c : Complaint) : Pass := { p with complaints := p.complaints ++ [c] }

/-- Goes on with another pass where a condition holds. -/
def whenHolds (p : Pass) (condition : Text) (next : Pass) : Pass :=
  match Preprocessor.readCondition condition with
  | none => p.complain (.malformed condition)
  | some f => if f.Holds (· ∈ p.macros) then next else p

/-- The condition under which a required condition counts as violated. -/
def violation (feature : Name) (rendered : Text) : Text :=
  "defined(" ++ feature.text ++ ") && !(" ++ rendered ++ ")"

/-- Goes through a directive whose lines are not skipped. -/
def perform (files : Files) (p : Pass) : Directive → Pass
  | .inclusion path => { p with macros := (files path).foldl ConfigLine.run p.macros }
  | .undefine feature => { p with macros := p.macros.undefine feature.text }
  | .implication antecedent consequent =>
    if antecedent.text ∈ p.macros ∧ consequent.text ∉ p.macros then
      { p with macros := p.macros.define consequent.text }
    else p
  | .derivation feature _ rendered =>
    if feature.text ∈ p.macros then { p with warnings := p.warnings ++ [feature] }
    else p.whenHolds rendered { p with macros := p.macros.define feature.text }
  | .requirement feature human rendered =>
    p.whenHolds (violation feature rendered) (p.complain (.unmet feature human))
  | .tableEntry feature =>
    if feature.text ∈ p.macros then { p with listed := p.listed ++ [feature] } else p
  | _ => p

/-- Goes through a directive. -/
def execute (files : Files) (p : Pass) : Directive → Pass
  | .guardBegin guard =>
    if p.skipped = 0 ∧ guard ∉ p.macros then { p with macros := p.macros.define guard }
    else { p with skipped := p.skipped + 1 }
  | .guardEnd _ => { p with skipped := p.skipped - 1 }
  | directive => if p.skipped = 0 then p.perform files directive else p

/-- Goes through directives from top to bottom. -/
def run (files : Files) (p : Pass) (directives : List Directive) : Pass :=
  directives.foldl (execute files) p

variable {files : Files} {p : Pass}

theorem run_append (a b : List Directive) :
    run files p (a ++ b) = run files (run files p a) b :=
  List.foldl_append

theorem run_cons (directive : Directive) (rest : List Directive) :
    run files p (directive :: rest) = run files (execute files p directive) rest := rfl

theorem whenHolds_eq {condition : Text} {f : Formula Text}
    (h : Preprocessor.readCondition condition = some f) (next : Pass) :
    p.whenHolds condition next = if f.Holds (· ∈ p.macros) then next else p := by
  rw [whenHolds, h]

/-! ### Included definitions -/

theorem mem_foldl_define {names : List Text} {m : Macros} {x : Text} :
    x ∈ (names.map ConfigLine.define).foldl ConfigLine.run m ↔ x ∈ names ∨ x ∈ m := by
  induction names generalizing m with
  | nil => simp
  | cons name names ih =>
      rw [List.map_cons, List.foldl_cons, ih, ConfigLine.run, Macros.mem_define, List.mem_cons,
        or_left_comm, or_assoc]

end Pass

end FeatureGuard

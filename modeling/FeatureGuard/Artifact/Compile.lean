import FeatureGuard.Artifact.Plan
import FeatureGuard.Definitions.Document

/-!
Compilation: a definitions text is read, settled, laid out and written as two files.
-/

namespace FeatureGuard

/-- Why definitions are not accepted. -/
inductive Rejection
  | malformed (errors : List SyntaxError)
  | inconsistent (violations : List Violation)
  deriving DecidableEq

def Rejection.message : Rejection → Text
  | malformed errors => SyntaxError.summary errors
  | inconsistent violations => Violation.summary violations

/-- Settles rules. -/
def settleRules (rules : RuleSet) : Except Rejection Settlement :=
  rules.settle.mapError Rejection.inconsistent

/-- Reads and settles definitions. -/
def settleText (t : Text) : Except Rejection Settlement := do
  settleRules (← (Document.read t).mapError Rejection.malformed)

/-- The files that definitions describe. -/
def compile (t : Text) (o : Options) : Except Rejection Artifacts :=
  (settleText t).map fun s => (Plan.ofSettlement s o).render

end FeatureGuard

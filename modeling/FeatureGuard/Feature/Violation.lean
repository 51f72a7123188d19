import FeatureGuard.Feature.Rules
import FeatureGuard.Text.Numeral

/-!
What can be wrong with a rule set: a name declared again, a name that is used but not declared, a
feature whose kind does not allow a rule about it, and features that depend on each other in a
circle. The messages are the ones that users read.
-/

namespace FeatureGuard

/-- The rules that can use a name. -/
inductive RuleKind
  | implication
  | derivation
  | requirement
  deriving DecidableEq, Repr

/-- Why the kind of a feature does not allow what is said about it. -/
inductive Conflict
  /-- the feature is declared as external and as derived -/
  | externalDerived
  /-- an external feature is implied by another one -/
  | impliedExternal (antecedent : Name)
  /-- a derived feature is implied by another one -/
  | impliedDerived (antecedent : Name)
  /-- a derived feature implies another one -/
  | derivedAntecedent (consequent : Name)
  deriving DecidableEq

inductive Violation
  | duplicate (name : Name) (kind : Kind) (line : Nat) (firstKind : Kind) (firstLine : Nat)
  | unresolved (name : Name) (rule : RuleKind) (line : Nat)
  | kindConflict (name : Name) (conflict : Conflict) (line : Nat)
  | cycle (members : List Name)
  deriving DecidableEq

def RuleKind.text : RuleKind → Text
  | implication => "implication"
  | derivation => "derivation"
  | requirement => "requirement"

/-- A name between the marks that set it off in a message. -/
def Name.marked (n : Name) : Text := "`" ++ n.text ++ "`"

def Conflict.message : Conflict → Text
  | externalDerived => "is external and cannot also be derived"
  | impliedExternal antecedent => "is external and cannot be implied by " ++ antecedent.marked
  | impliedDerived antecedent => "is derived and cannot be implied by " ++ antecedent.marked
  | derivedAntecedent consequent => "is derived and cannot imply " ++ consequent.marked

namespace Violation

/-- The start of a message about a line. -/
def position (line : Nat) : Text := "line " ++ Text.ofNat line ++ ": "

def message : Violation → Text
  | duplicate name kind line firstKind firstLine =>
    position line ++ name.marked ++ " declared as " ++ kind.text ++ " is already declared as " ++
      firstKind.text ++ " on line " ++ Text.ofNat firstLine
  | unresolved name rule line =>
    position line ++ rule.text ++ " references undeclared feature " ++ name.marked
  | kindConflict name conflict line => position line ++ name.marked ++ " " ++ conflict.message
  | cycle members => "dependency cycle between " ++ Text.join ", " (members.map Name.text)

/-- The features that a violation is about. -/
def names : Violation → List Name
  | duplicate name .. => [name]
  | unresolved name .. => [name]
  | kindConflict name .. => [name]
  | cycle members => members

/-- All violations of a rule set, one to a line. -/
def summary (violations : List Violation) : Text :=
  Text.ofNat violations.length ++ " error(s) in feature definitions:" ++
    violations.flatMap fun v => ("\n  " : Text) ++ v.message

end Violation

end FeatureGuard

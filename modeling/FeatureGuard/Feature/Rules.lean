import FeatureGuard.Feature.Name

/-!
The rules that a definitions document states about features: which features there are and of what
kind, which feature switches on which, and what each derived or demanding feature depends on.
-/

namespace FeatureGuard

/-- External features come from the build system alone, basic ones from the user or from
implications, derived ones from their condition. -/
inductive Kind
  | external
  | basic
  | derived
  deriving DecidableEq, Repr

/-- A condition over features: as it was written, with single blanks, as the preprocessor reads it,
and the features that occur in it. -/
structure Condition where
  human : Text
  rendered : Text
  references : List Name
  deriving DecidableEq

structure Declaration where
  name : Name
  kind : Kind
  line : Nat
  deriving DecidableEq

/-- Where the antecedent is defined, the consequent is to be defined too. -/
structure Implication where
  antecedent : Name
  consequent : Name
  line : Nat
  deriving DecidableEq

/-- The feature is to be defined exactly where its condition holds. -/
structure Derivation where
  feature : Name
  condition : Condition
  line : Nat
  deriving DecidableEq

/-- Where the feature is defined, the condition has to hold. -/
structure Requirement where
  feature : Name
  condition : Condition
  line : Nat
  deriving DecidableEq

/-- The rules of a document, each sort in the order in which it was written. -/
structure RuleSet where
  declarations : List Declaration := []
  implications : List Implication := []
  derivations : List Derivation := []
  requirements : List Requirement := []
  deriving DecidableEq

namespace Kind

def text : Kind → Text
  | external => "external"
  | basic => "basic"
  | derived => "derived"

end Kind

namespace RuleSet

instance : Append RuleSet where
  append a b :=
    { declarations := a.declarations ++ b.declarations
      implications := a.implications ++ b.implications
      derivations := a.derivations ++ b.derivations
      requirements := a.requirements ++ b.requirements }

end RuleSet

end FeatureGuard

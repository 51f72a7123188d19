import FeatureGuard.Dependency.Order
import FeatureGuard.Feature.Check
import FeatureGuard.Feature.Roster

/-!
Settlements. A settlement is a rule set without violations, its rules in an order in which a single
pass from top to bottom settles every feature: a rule comes after all rules that decide the features
it looks at.
-/

namespace FeatureGuard

structure Settlement where
  externals : List Name
  basics : List Name
  derived : List Name
  implications : List Implication
  derivations : List Derivation
  requirements : List Requirement
  /-- the implications that say the same as an earlier one and were left out -/
  repeated : List Implication
  deriving DecidableEq

namespace RuleSet

/-! ### Dependencies between features -/

/-- The declared names, numbered in the order of their declaration. -/
def roster (r : RuleSet) : Roster := .ofList (r.declarations.map Declaration.name)

/-- The pairs of names of which the first has to be settled before the second. -/
def dependencies (r : RuleSet) : List (Name × Name) :=
  r.implications.map (fun i => (i.antecedent, i.consequent)) ++
    r.derivations.flatMap fun d => d.condition.references.map fun name => (name, d.feature)

/-- Adds the edge for a dependency between names that are both on the roster. -/
def addDependency (roster : Roster) (g : Graph roster.size) :
    Name × Name → Graph roster.size
  | (source, target) =>
    match roster.position? source, roster.position? target with
    | some source, some target => g.insert source target
    | _, _ => g

/-- The graph of the dependencies between declared names. -/
def graph (roster : Roster) (r : RuleSet) : Graph roster.size :=
  r.dependencies.foldl (addDependency roster) (.empty _)

/-- The declared names in the order in which they are settled, or the cycles among them. -/
def order (r : RuleSet) : Except (List Violation) (List Name) :=
  let roster := r.roster
  match (r.graph roster).topologicalOrder with
  | .ok order => .ok (order.map roster.name)
  | .error cycles => .error (cycles.map fun nodes => .cycle (nodes.map roster.name))

/-! ### Rules in order -/

/-- The names declared with a kind. -/
def declaredAs (r : RuleSet) (kind : Kind) : List Name :=
  (r.declarations.filter (·.kind = kind)).map Declaration.name

/-- The place of each name in an order. -/
def ranks (order : List Name) : Std.TreeMap Name Nat := .ofList order.zipIdx

/-- Sorts rules by the place of a name in an order; rules with the same place keep their order, and
those whose name has none come last. -/
def sortByRank {Rule : Type} (name : Rule → Name) (order : List Name) (rules : List Rule) :
    List Rule :=
  let ranks := ranks order
  let last := order.length
  let rank := fun rule => ranks.getD (name rule) last
  rules.mergeSort fun a b => rank a ≤ rank b

/-- Implications with the same ends count as the same. -/
def sameEnds : Implication → Implication → Ordering :=
  compareLex (compareOn Implication.antecedent) (compareOn Implication.consequent)

/-- Puts the rules into an order of their features. -/
def arrange (r : RuleSet) (order : List Name) : Settlement :=
  let sorted := sortByRank Implication.antecedent order r.implications
  let implications := Sifted.ofList sameEnds sorted
  { externals := r.declaredAs .external
    basics := r.declaredAs .basic
    derived := r.declaredAs .derived
    implications := implications.first
    derivations := sortByRank Derivation.feature order r.derivations
    requirements := r.requirements
    repeated := implications.repeated }

/-- Settles a rule set, or reports everything that is wrong with it. -/
def settle (r : RuleSet) : Except (List Violation) Settlement :=
  match r.faults, r.order with
  | [], .ok order => .ok (r.arrange order)
  | faults, .ok _ => .error faults
  | faults, .error cycles => .error (faults ++ cycles)

end RuleSet

/-- What is said of an implication that is left out. -/
def Implication.repeatedMessage (i : Implication) : Text :=
  "Ignoring repeated implication " ++ i.antecedent.text ++ " implies " ++ i.consequent.text

namespace Settlement

/-- All declared names, kind by kind. -/
def features (s : Settlement) : List Name := s.externals ++ s.basics ++ s.derived

end Settlement

end FeatureGuard

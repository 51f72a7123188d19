import Std.Data.TreeMap
import FeatureGuard.Feature.Violation

/-!
The checks on a rule set that look at one rule at a time: every name is declared once, every name
in a rule is declared, and no implication goes against the kind of a feature. Where a name is
declared more than once, the first declaration is the one that the other checks go by.
-/

namespace FeatureGuard.RuleSet

/-- The first declaration of each name. -/
def firstDeclarations (declarations : List Declaration) : Std.TreeMap Name Declaration :=
  declarations.foldr (fun d first => first.insert d.name d) ∅

theorem getElem?_firstDeclarations {declarations : List Declaration} {name : Name} :
    (firstDeclarations declarations)[name]? = declarations.find? (·.name == name) := by
  induction declarations with
  | nil => simp [firstDeclarations]
  | cons d rest ih =>
    simp only [firstDeclarations, List.foldr_cons, List.find?_cons] at ih ⊢
    rw [Std.TreeMap.getElem?_insert, ih]
    by_cases h : d.name = name
    · simp [h]
    · simp [h, beq_eq_false_iff_ne.2 h]

/-! ### Names are declared once -/

/-- What is wrong with declaring a name again. -/
def clash (first again : Declaration) : Violation :=
  match first.kind, again.kind with
  | .external, .derived => .kindConflict again.name .externalDerived again.line
  | .derived, .external => .kindConflict again.name .externalDerived first.line
  | _, _ => .duplicate again.name again.kind again.line first.kind first.line

/-- The clashes of declarations with the first ones of their names, of which some are known. -/
def clashes (known : Std.TreeMap Name Declaration) : List Declaration → List Violation
  | [] => []
  | d :: rest =>
    match known[d.name]? with
    | none => clashes (known.insert d.name d) rest
    | some first => clash first d :: clashes known rest

/-! ### Names in rules are declared -/

/-- A place where a rule uses a name. -/
structure Mention where
  name : Name
  rule : RuleKind
  line : Nat
  deriving DecidableEq

/-- Mentions of one name on one line count as the same. -/
def Mention.order : Mention → Mention → Ordering :=
  compareLex (compareOn Mention.name) (compareOn Mention.line)

/-- All mentions, rule by rule. -/
def mentions (r : RuleSet) : List Mention :=
  r.implications.flatMap (fun i =>
      [⟨i.antecedent, .implication, i.line⟩, ⟨i.consequent, .implication, i.line⟩]) ++
    r.derivations.flatMap (fun d =>
      d.condition.references.map fun name => ⟨name, .derivation, d.line⟩) ++
    r.requirements.flatMap fun q =>
      (q.feature :: q.condition.references).map fun name => ⟨name, .requirement, q.line⟩

/-- The mentions of undeclared names, each name once for a line. -/
def unresolved (kind? : Name → Option Kind) (r : RuleSet) : List Violation :=
  let undeclared := r.mentions.filter fun m => (kind? m.name).isNone
  (Sifted.ofList Mention.order undeclared).first.map fun m => .unresolved m.name m.rule m.line

/-! ### Implications go with the kinds of their features -/

def kindConflicts (kind? : Name → Option Kind) (i : Implication) : List Violation :=
  let forConsequent : List Violation := match kind? i.consequent with
    | some .external => [.kindConflict i.consequent (.impliedExternal i.antecedent) i.line]
    | some .derived => [.kindConflict i.consequent (.impliedDerived i.antecedent) i.line]
    | _ => []
  let forAntecedent : List Violation := match kind? i.antecedent with
    | some .derived => [.kindConflict i.antecedent (.derivedAntecedent i.consequent) i.line]
    | _ => []
  forConsequent ++ forAntecedent

/-- What the checks find, in their order. -/
def faults (r : RuleSet) : List Violation :=
  let first := firstDeclarations r.declarations
  let kind? := fun name => (first[name]?).map Declaration.kind
  clashes ∅ r.declarations ++ unresolved kind? r ++ r.implications.flatMap (kindConflicts kind?)

end FeatureGuard.RuleSet

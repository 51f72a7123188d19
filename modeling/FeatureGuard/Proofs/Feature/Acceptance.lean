import FeatureGuard.Proofs.Feature.Dependency

/-!
Which rule sets are settled. A rule set is settled exactly when it is consistent: its names are
declared once, its rules use declared names only and go with their kinds, and no dependencies lead
from a name back to itself. Every other rule set is refused with a report of some violation.
-/

namespace FeatureGuard.RuleSet

variable {r : RuleSet}

/-- What is asked of a rule set before its rules are put in order. -/
structure Consistent (r : RuleSet) : Prop where
  unique : (r.declarations.map Declaration.name).Nodup
  implications : ∀ i ∈ r.implications, r.Declared i.antecedent ∧ r.Declared i.consequent
  derivations : ∀ d ∈ r.derivations, ∀ name ∈ d.condition.references, r.Declared name
  requirements : ∀ q ∈ r.requirements,
    r.Declared q.feature ∧ ∀ name ∈ q.condition.references, r.Declared name
  consequents : ∀ i ∈ r.implications,
    i.consequent ∉ r.declaredAs .external ∧ i.consequent ∉ r.declaredAs .derived
  antecedents : ∀ i ∈ r.implications, i.antecedent ∉ r.declaredAs .derived
  acyclic : r.Acyclic

theorem mem_declaredAs {kind : Kind} {name : Name} :
    name ∈ r.declaredAs kind ↔ ∃ d ∈ r.declarations, d.kind = kind ∧ d.name = name := by
  simp [declaredAs, and_assoc]

/-! ### Names are declared once -/

theorem clashes_eq_nil_iff {known : Std.TreeMap Name Declaration}
    {declarations : List Declaration} :
    clashes known declarations = [] ↔
      (∀ d ∈ declarations, d.name ∉ known) ∧ (declarations.map Declaration.name).Nodup := by
  induction declarations generalizing known with
  | nil => simp [clashes]
  | cons d rest ih =>
      rw [clashes]
      split
      · rename_i hnone
        have hd : d.name ∉ known := by
          rw [Std.TreeMap.mem_iff_isSome_getElem?, hnone]
          exact Bool.false_ne_true
        simp only [ih, Std.TreeMap.mem_insert, Std.LawfulEqCmp.compare_eq_iff_eq, List.map_cons,
          List.nodup_cons, List.mem_map, List.forall_mem_cons, not_or, not_exists, not_and]
        constructor
        · rintro ⟨hrest, hnodup⟩
          exact ⟨⟨hd, fun e he => (hrest e he).2⟩, fun e he heq => (hrest e he).1 heq.symm, hnodup⟩
        · rintro ⟨⟨-, hrest⟩, hnew, hnodup⟩
          exact ⟨fun e he => ⟨fun heq => hnew e he heq.symm, hrest e he⟩, hnodup⟩
      · rename_i first hsome
        have hd : d.name ∈ known := by
          rw [Std.TreeMap.mem_iff_isSome_getElem?, hsome]
          rfl
        simp only [reduceCtorEq, false_iff, not_and]
        exact fun h => absurd hd (h d List.mem_cons_self)

theorem clashes_empty_eq_nil_iff :
    clashes ∅ r.declarations = [] ↔ (r.declarations.map Declaration.name).Nodup := by
  rw [clashes_eq_nil_iff]
  exact and_iff_right fun _ _ => Std.TreeMap.not_mem_emptyc

/-! ### The first declaration of a name -/

/-- The kind that the checks go by. -/
def kind? (r : RuleSet) (name : Name) : Option Kind :=
  ((firstDeclarations r.declarations)[name]?).map Declaration.kind

theorem kind?_isNone_iff {name : Name} : (r.kind? name).isNone = true ↔ ¬r.Declared name := by
  rw [kind?, getElem?_firstDeclarations, Option.isNone_iff_eq_none, Option.map_eq_none_iff,
    List.find?_eq_none]
  simp [Declared]

/-- Where names are declared once, the checks go by the kind that a name is declared with. -/
theorem kind?_eq_some_iff (hunique : (r.declarations.map Declaration.name).Nodup) {name : Name}
    {kind : Kind} : r.kind? name = some kind ↔ name ∈ r.declaredAs kind := by
  rw [kind?, getElem?_firstDeclarations, Option.map_eq_some_iff, mem_declaredAs]
  constructor
  · rintro ⟨d, hd, hkind⟩
    have hname : d.name = name := by simpa using List.find?_some hd
    exact ⟨d, List.mem_of_find?_eq_some hd, hkind, hname⟩
  · rintro ⟨d, hd, hkind, rfl⟩
    have hsome : (r.declarations.find? (·.name == d.name)).isSome = true := by
      rw [List.find?_isSome]
      exact ⟨d, hd, beq_self_eq_true _⟩
    obtain ⟨first, hfirst⟩ := Option.isSome_iff_exists.1 hsome
    have hname : first.name = d.name := by simpa using List.find?_some hfirst
    have hmem := List.mem_of_find?_eq_some hfirst
    rw [List.inj_on_of_nodup_map hunique hmem hd hname] at hfirst
    exact ⟨d, hfirst, hkind⟩

/-! ### Names in rules are declared -/

theorem unresolved_eq_nil_iff :
    unresolved r.kind? r = [] ↔ ∀ m ∈ r.mentions, r.Declared m.name := by
  have : Std.TransCmp Mention.order := inferInstanceAs (Std.TransCmp (compareLex _ _))
  rw [unresolved, List.map_eq_nil_iff, Sifted.first_eq_nil_iff, List.filter_eq_nil_iff]
  simp only [kind?_isNone_iff, not_not]

theorem forall_mentions_iff :
    (∀ m ∈ r.mentions, r.Declared m.name) ↔
      (∀ i ∈ r.implications, r.Declared i.antecedent ∧ r.Declared i.consequent) ∧
        (∀ d ∈ r.derivations, ∀ name ∈ d.condition.references, r.Declared name) ∧
          ∀ q ∈ r.requirements,
            r.Declared q.feature ∧ ∀ name ∈ q.condition.references, r.Declared name := by
  simp only [mentions, List.append_assoc, List.forall_mem_append, List.forall_mem_flatMap,
    List.forall_mem_map, List.forall_mem_cons]
  refine and_congr_left' ?_
  simp only [List.not_mem_nil, false_implies, implies_true, and_true]

/-! ### Implications go with the kinds of their features -/

theorem kindConflicts_eq_nil_iff {i : Implication} {kind? : Name → Option Kind} :
    kindConflicts kind? i = [] ↔
      (kind? i.consequent ≠ some .external ∧ kind? i.consequent ≠ some .derived) ∧
        kind? i.antecedent ≠ some .derived := by
  rw [kindConflicts, List.append_eq_nil_iff]
  refine and_congr ?_ ?_
  · rcases kind? i.consequent with _ | (_ | _ | _) <;> simp
  · rcases kind? i.antecedent with _ | (_ | _ | _) <;> simp

/-! ### All checks together -/

theorem faults_eq : r.faults =
    clashes ∅ r.declarations ++ unresolved r.kind? r ++
      r.implications.flatMap (kindConflicts r.kind?) := rfl

theorem faults_eq_nil_iff :
    r.faults = [] ↔
      (r.declarations.map Declaration.name).Nodup ∧
        (∀ m ∈ r.mentions, r.Declared m.name) ∧
          ∀ i ∈ r.implications,
            (i.consequent ∉ r.declaredAs .external ∧ i.consequent ∉ r.declaredAs .derived) ∧
              i.antecedent ∉ r.declaredAs .derived := by
  rw [faults_eq, List.append_eq_nil_iff, List.append_eq_nil_iff, clashes_empty_eq_nil_iff,
    unresolved_eq_nil_iff, List.flatMap_eq_nil_iff, and_assoc]
  refine and_congr_right fun hunique => and_congr_right fun _ => forall₂_congr fun i _ => ?_
  simp only [kindConflicts_eq_nil_iff, ne_eq, kind?_eq_some_iff hunique]

theorem consistent_iff : r.Consistent ↔ r.faults = [] ∧ r.Acyclic := by
  rw [faults_eq_nil_iff, forall_mentions_iff]
  constructor
  · intro h
    refine ⟨⟨h.unique, ⟨h.implications, h.derivations, h.requirements⟩, fun i hi => ?_⟩, h.acyclic⟩
    exact ⟨h.consequents i hi, h.antecedents i hi⟩
  · rintro ⟨⟨hunique, ⟨himplications, hderivations, hrequirements⟩, hkinds⟩, hacyclic⟩
    exact ⟨hunique, himplications, hderivations, hrequirements, fun i hi => (hkinds i hi).1,
      fun i hi => (hkinds i hi).2, hacyclic⟩

theorem settle_eq_ok_iff {s : Settlement} :
    r.settle = .ok s ↔ r.faults = [] ∧ ∃ order, r.order = .ok order ∧ s = r.arrange order := by
  rw [settle]
  split
  · rename_i hfaults horder
    simp [hfaults, horder, eq_comm]
  · rename_i order horder hnot
    simp only [reduceCtorEq, false_iff, not_and]
    exact fun hfaults => absurd hfaults hnot
  · rename_i horder
    simp [horder]

theorem exists_settle_iff : (∃ s, r.settle = .ok s) ↔ r.faults = [] ∧ r.Acyclic := by
  rw [← order_isOk_iff]
  constructor
  · rintro ⟨s, hs⟩
    obtain ⟨hfaults, order, horder, -⟩ := settle_eq_ok_iff.1 hs
    exact ⟨hfaults, order, horder⟩
  · rintro ⟨hfaults, order, horder⟩
    exact ⟨r.arrange order, settle_eq_ok_iff.2 ⟨hfaults, order, horder, rfl⟩⟩

theorem consistent_of_settle_eq_ok {s : Settlement} (h : r.settle = .ok s) : r.Consistent :=
  consistent_iff.2 (exists_settle_iff.1 ⟨s, h⟩)

/-- A rule set is settled exactly when it is consistent, and refused only for some violation. -/
theorem settle_isOk_iff_consistent (r : RuleSet) :
    ((∃ s, r.settle = .ok s) ↔ r.Consistent) ∧
      ∀ violations, r.settle = .error violations → violations ≠ [] := by
  refine ⟨exists_settle_iff.trans consistent_iff.symm, fun violations h => ?_⟩
  rw [settle] at h
  split at h
  · cases h
  · rename_i order horder hnot
    cases h
    exact hnot
  · rename_i cycles horder
    cases h
    exact List.append_ne_nil_of_right_ne_nil _ (ne_nil_of_order_eq_error horder)

end FeatureGuard.RuleSet

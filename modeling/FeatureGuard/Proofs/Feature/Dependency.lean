import FeatureGuard.Feature.Settlement
import FeatureGuard.Proofs.Dependency.Component
import FeatureGuard.Proofs.Repetition

/-!
Dependencies between the names of a rule set. The graph of a rule set has an edge exactly where one
declared name has to be settled before another, so that the names can be put in order unless such
dependencies lead from a name back to itself.
-/

namespace FeatureGuard

namespace Roster

theorem name_injective (roster : Roster) : Function.Injective roster.name := by
  intro i j h
  have hi : roster.position? (roster.name i) = some i := position?_eq_some.2 rfl
  have hj : roster.position? (roster.name i) = some j := position?_eq_some.2 h.symm
  exact Option.some_inj.1 (hi.symm.trans hj)

theorem exists_name_eq {names : List Name} {name : Name} :
    (∃ i, (ofList names).name i = name) ↔ name ∈ names := by
  rw [← Name.mem_distinct, ← List.mem_toArray, Array.mem_iff_getElem]
  constructor
  · rintro ⟨i, hi⟩
    exact ⟨i.val, i.isLt, hi⟩
  · rintro ⟨i, hi, h⟩
    exact ⟨⟨i, hi⟩, h⟩

theorem idxOf_map_name (roster : Roster) (nodes : List (Fin roster.size)) (i : Fin roster.size) :
    (nodes.map roster.name).idxOf (roster.name i) = nodes.idxOf i := by
  induction nodes with
  | nil => rfl
  | cons node nodes ih =>
      rw [List.map_cons, List.idxOf_cons, List.idxOf_cons, ih]
      by_cases h : node = i
      · subst h
        rw [beq_self_eq_true, beq_self_eq_true]
      · have hname : roster.name node ≠ roster.name i := fun heq => h (roster.name_injective heq)
        rw [beq_false_of_ne h, beq_false_of_ne hname]

end Roster

namespace RuleSet

variable {r : RuleSet}

def Declared (r : RuleSet) (name : Name) : Prop := ∃ d ∈ r.declarations, d.name = name

/-- An implication or a derivation asks for the first of two declared names to be settled before
the second. -/
def Precedes (r : RuleSet) (source target : Name) : Prop :=
  r.Declared source ∧ r.Declared target ∧
    ((∃ i ∈ r.implications, i.antecedent = source ∧ i.consequent = target) ∨
      ∃ d ∈ r.derivations, source ∈ d.condition.references ∧ d.feature = target)

theorem mem_dependencies {source target : Name} :
    (source, target) ∈ r.dependencies ↔
      (∃ i ∈ r.implications, i.antecedent = source ∧ i.consequent = target) ∨
        ∃ d ∈ r.derivations, source ∈ d.condition.references ∧ d.feature = target := by
  simp [dependencies]

theorem declared_iff_exists_name {name : Name} :
    r.Declared name ↔ ∃ i, r.roster.name i = name := by
  rw [roster, Roster.exists_name_eq, List.mem_map]
  rfl

/-! ### The edges of the graph -/

theorem edge_addDependency {roster : Roster} {g : Graph roster.size} {source target : Name}
    {a b : Fin roster.size} :
    (addDependency roster g (source, target)).Edge a b ↔
      g.Edge a b ∨ roster.name a = source ∧ roster.name b = target := by
  simp only [addDependency]
  split
  · rename_i i j hi hj
    rw [Roster.position?_eq_some] at hi hj
    rw [Graph.edge_insert, ← hi, ← hj, roster.name_injective.eq_iff, roster.name_injective.eq_iff]
  · rename_i hnone
    refine ⟨Or.inl, fun h => h.resolve_right ?_⟩
    rintro ⟨ha, hb⟩
    exact hnone a b (Roster.position?_eq_some.2 ha) (Roster.position?_eq_some.2 hb)

theorem edge_foldl_addDependency {roster : Roster} (dependencies : List (Name × Name))
    {g : Graph roster.size} {a b : Fin roster.size} :
    (dependencies.foldl (addDependency roster) g).Edge a b ↔
      g.Edge a b ∨ (roster.name a, roster.name b) ∈ dependencies := by
  induction dependencies generalizing g with
  | nil => simp
  | cons dependency dependencies ih =>
      obtain ⟨source, target⟩ := dependency
      rw [List.foldl_cons, ih, edge_addDependency, List.mem_cons, Prod.mk.injEq, or_assoc]

theorem edge_graph {a b : Fin r.roster.size} :
    (r.graph r.roster).Edge a b ↔ r.Precedes (r.roster.name a) (r.roster.name b) := by
  rw [graph, edge_foldl_addDependency, mem_dependencies]
  constructor
  · rintro (h | h)
    · exact absurd h Graph.not_edge_empty
    · exact ⟨declared_iff_exists_name.2 ⟨a, rfl⟩, declared_iff_exists_name.2 ⟨b, rfl⟩, h⟩
  · rintro ⟨-, -, h⟩
    exact Or.inr h

theorem transGen_edge_graph {a b : Fin r.roster.size} :
    Relation.TransGen (r.graph r.roster).Edge a b ↔
      Relation.TransGen r.Precedes (r.roster.name a) (r.roster.name b) := by
  constructor
  · exact fun h => Relation.TransGen.lift r.roster.name (fun _ _ => edge_graph.1) a b h
  · intro h
    generalize htarget : r.roster.name b = target at h
    induction h generalizing b with
    | single hab =>
        subst htarget
        exact .single (edge_graph.2 hab)
    | tail _ hbc ih =>
        subst htarget
        obtain ⟨c, hc⟩ := declared_iff_exists_name.1 hbc.1
        exact (ih hc).tail (edge_graph.2 (hc ▸ hbc))

/-- No chain of dependencies leads from a name back to itself. -/
def Acyclic (r : RuleSet) : Prop := ∀ name, ¬Relation.TransGen r.Precedes name name

/-- Where the names can be ranked so that every rule goes up, nothing leads back. -/
theorem acyclic_of_rank (rank : Name → ℕ)
    (himplications : ∀ i ∈ r.implications, rank i.antecedent < rank i.consequent)
    (hderivations : ∀ d ∈ r.derivations, ∀ name ∈ d.condition.references,
      rank name < rank d.feature) : r.Acyclic := by
  have hstep : ∀ {a b}, r.Precedes a b → rank a < rank b := by
    rintro a b ⟨-, -, ⟨i, hi, rfl, rfl⟩ | ⟨d, hd, hname, rfl⟩⟩
    · exact himplications i hi
    · exact hderivations d hd a hname
  have hchain : ∀ {a b}, Relation.TransGen r.Precedes a b → rank a < rank b := by
    intro a b h
    induction h with
    | single hab => exact hstep hab
    | tail _ hbc ih => exact ih.trans (hstep hbc)
  exact fun name h => (hchain h).false

theorem acyclic_graph_iff : (r.graph r.roster).Acyclic ↔ r.Acyclic := by
  constructor
  · intro h name hname
    have hdeclared : r.Declared name := by
      obtain ⟨next, hnext, -⟩ := Relation.TransGen.head'_iff.1 hname
      exact hnext.1
    obtain ⟨a, rfl⟩ := declared_iff_exists_name.1 hdeclared
    exact h a (transGen_edge_graph.2 hname)
  · intro h a ha
    exact h _ (transGen_edge_graph.1 ha)

/-! ### The order of the names -/

theorem order_isOk_iff : (∃ order, r.order = .ok order) ↔ r.Acyclic := by
  rw [← acyclic_graph_iff, ← Graph.topologicalOrder_isOk_iff]
  simp only [RuleSet.order]
  constructor
  · rintro ⟨order, h⟩
    split at h
    · rename_i nodes hnodes
      exact ⟨nodes, hnodes⟩
    · cases h
  · rintro ⟨nodes, h⟩
    rw [h]
    exact ⟨_, rfl⟩

/-- Names that cannot be put in order are reported with some cycle. -/
theorem ne_nil_of_order_eq_error {violations : List Violation} (h : r.order = .error violations) :
    violations ≠ [] := by
  simp only [RuleSet.order] at h
  split at h
  · cases h
  · rename_i cycles hcycles
    cases h
    simpa using Graph.ne_nil_of_topologicalOrder_eq_error hcycles

theorem nodup_of_order_eq_ok {order : List Name} (h : r.order = .ok order) : order.Nodup := by
  simp only [RuleSet.order] at h
  split at h
  · rename_i nodes hnodes
    cases h
    have hnodup := (Graph.topologicalOrder_eq_ok hnodes).1.nodup
    exact (List.nodup_reverse.1 hnodup).map r.roster.name_injective
  · cases h

theorem mem_order {order : List Name} (h : r.order = .ok order) {name : Name} :
    name ∈ order ↔ r.Declared name := by
  simp only [RuleSet.order] at h
  split at h
  · rename_i nodes hnodes
    cases h
    obtain ⟨-, hmem⟩ := Graph.topologicalOrder_eq_ok hnodes
    rw [List.mem_map, declared_iff_exists_name]
    exact exists_congr fun i => and_iff_right (hmem i)
  · cases h

/-- In the order of the names, every name comes after those that have to be settled before it. -/
theorem idxOf_lt_of_precedes {order : List Name} (h : r.order = .ok order) {source target : Name}
    (hprecedes : r.Precedes source target) : order.idxOf source < order.idxOf target := by
  simp only [RuleSet.order] at h
  split at h
  · rename_i nodes hnodes
    cases h
    obtain ⟨a, rfl⟩ := declared_iff_exists_name.1 hprecedes.1
    obtain ⟨b, rfl⟩ := declared_iff_exists_name.1 hprecedes.2.1
    rw [Roster.idxOf_map_name, Roster.idxOf_map_name]
    exact Graph.idxOf_lt_of_edge hnodes (edge_graph.2 hprecedes)
  · cases h

end RuleSet

end FeatureGuard

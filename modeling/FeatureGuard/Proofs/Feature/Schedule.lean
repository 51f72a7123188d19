import FeatureGuard.Proofs.Condition.Grammar
import FeatureGuard.Proofs.Dependency.LeastOrder
import FeatureGuard.Proofs.Feature.Dependency

/-!
The schedule of a rule set. Its names can be put in order in many ways such that no name comes
before one that has to be settled first. The order that the rules are sorted by is the least of
them, where names compare by the places of their first declarations.
-/

namespace FeatureGuard

/-! ### Names by their places -/

theorem Roster.strictMono_idxOf (names : List Name) :
    StrictMono fun i => names.idxOf ((ofList names).name i) := fun i j h =>
  List.pairwise_iff_getElem.1 (Name.pairwise_idxOf_distinct names) i j i.isLt j.isLt h

namespace RuleSet

variable {r : RuleSet}

/-- The place of the first declaration of a name. -/
def place (r : RuleSet) (name : Name) : ℕ := (r.declarations.map Declaration.name).idxOf name

theorem strictMono_place (r : RuleSet) : StrictMono (r.place ∘ r.roster.name) :=
  Roster.strictMono_idxOf _

/-! ### The least schedule -/

/-- The declared names, each once, in an order in which every dependency goes forward. -/
structure Schedules (r : RuleSet) (order : List Name) : Prop where
  nodup : order.Nodup
  declared : ∀ name, name ∈ order ↔ r.Declared name
  forward : ∀ source target, r.Precedes source target → order.idxOf source < order.idxOf target

/-- The least schedule, name by name: at the first difference, another schedule has a name that is
declared later. -/
structure Canonical (r : RuleSet) (order : List Name) : Prop where
  schedules : r.Schedules order
  least : ∀ other, r.Schedules other → order.map r.place ≤ other.map r.place

theorem schedules_of_order {order : List Name} (h : r.order = .ok order) : r.Schedules order :=
  ⟨nodup_of_order_eq_ok h, fun _ => mem_order h, fun _ _ => idxOf_lt_of_precedes h⟩

/-- A schedule of the names is an order of the nodes in which every edge goes forward. -/
theorem Schedules.topological {nodes : List (Fin r.roster.size)}
    (h : r.Schedules (nodes.map r.roster.name)) : (r.graph r.roster).Topological nodes where
  perm := by
    refine (List.perm_ext_iff_of_nodup h.nodup.of_map (List.nodup_finRange _)).2 fun i => ?_
    have hmem := (h.declared (r.roster.name i)).2 (declared_iff_exists_name.2 ⟨i, rfl⟩)
    rw [List.mem_map_of_injective r.roster.name_injective] at hmem
    exact iff_of_true hmem (List.mem_finRange i)
  forward u v hedge := by
    have hlt := h.forward _ _ (edge_graph.1 hedge)
    rwa [Roster.idxOf_map_name, Roster.idxOf_map_name] at hlt

theorem canonical_of_order {order : List Name} (h : r.order = .ok order) : r.Canonical order := by
  refine ⟨schedules_of_order h, fun other hother => ?_⟩
  simp only [RuleSet.order] at h
  split at h
  · rename_i nodes hnodes
    cases h
    obtain ⟨others, rfl⟩ : other ∈ Set.range (List.map r.roster.name) := by
      rw [Set.range_list_map]
      exact fun name hname => declared_iff_exists_name.1 ((hother.declared name).1 hname)
    rw [List.map_map, List.map_map]
    rcases ((Graph.isLeast_of_topologicalOrder hnodes).2 hother.topological).eq_or_lt with rfl | hlt
    · exact le_rfl
    · exact le_of_lt (List.map_lt (fun _ _ h => r.strictMono_place h) hlt)
  · cases h

end RuleSet

end FeatureGuard

import FeatureGuard.Dependency.NodeMap

/-!
Dependency graphs. The nodes of a graph are the numbers below its size; an edge leads from a node
to one that has to come after it. Between two nodes there is at most one edge in each direction.
-/

namespace FeatureGuard

/-- A graph on the nodes below `n`: the successors of each node, in the order in which the edges
were inserted. -/
structure Graph (n : Nat) where
  successors : NodeMap n (List (Fin n))
  nodup : ∀ node : Fin n, (successors.get node).Nodup

namespace Graph

variable {n : Nat}

def empty (n : Nat) : Graph n where
  successors := .const n []
  nodup _ := by simp

/-- Whether an edge leads from one node to another. -/
def Edge (g : Graph n) (source target : Fin n) : Prop := target ∈ g.successors.get source

instance (g : Graph n) (source target : Fin n) : Decidable (g.Edge source target) :=
  inferInstanceAs (Decidable (target ∈ g.successors.get source))

/-- Adds an edge, unless the graph has it already. -/
def insert (g : Graph n) (source target : Fin n) : Graph n :=
  if h : target ∈ g.successors.get source then g
  else
    { successors := g.successors.set source (g.successors.get source ++ [target])
      nodup := fun node => by
        have := g.nodup node
        rw [NodeMap.get_set]
        split
        · rename_i hs
          subst hs
          refine List.nodup_append.2 ⟨this, by simp, fun a ha b hb => ?_⟩
          rintro rfl
          exact h (List.mem_singleton.1 hb ▸ ha)
        · exact this }

theorem edge_insert {g : Graph n} {source target a b : Fin n} :
    (g.insert source target).Edge a b ↔ g.Edge a b ∨ a = source ∧ b = target := by
  unfold insert
  split
  · rename_i h
    constructor
    · exact Or.inl
    · rintro (hab | ⟨rfl, rfl⟩)
      · exact hab
      · exact h
  · simp only [Edge, NodeMap.get_set]
    by_cases hs : source = a
    · subst hs
      simp
    · simp [hs, Ne.symm hs]

theorem not_edge_empty {a b : Fin n} : ¬(empty n).Edge a b := by simp [empty, Edge]

/-- How many edges the graph has. -/
def size (g : Graph n) : Nat := g.successors.toList.flatten.length

end Graph

end FeatureGuard

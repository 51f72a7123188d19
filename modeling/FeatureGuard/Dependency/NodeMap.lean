/-!
Maps from the nodes of a graph. The nodes are the numbers below the size of the graph, so that a map
is a vector with a value for each of them.
-/

namespace FeatureGuard

structure NodeMap (n : Nat) (α : Type) where
  values : Vector α n

namespace NodeMap

variable {n : Nat} {α : Type}

/-- The map with the same value for every node. -/
def const (n : Nat) (a : α) : NodeMap n α := ⟨.replicate n a⟩

def get (m : NodeMap n α) (node : Fin n) : α := m.values[node]

def set (node : Fin n) (a : α) (m : NodeMap n α) : NodeMap n α := ⟨m.values.set node a⟩

/-- The values of all nodes, in the order of the nodes. -/
def toList (m : NodeMap n α) : List α := m.values.toList

@[simp] theorem get_const (a : α) (node : Fin n) : (const n a).get node = a := by
  simp [const, get]

theorem get_set (m : NodeMap n α) (node other : Fin n) (a : α) :
    (m.set node a).get other = if node = other then a else m.get other := by
  simp only [get, set, Fin.getElem_fin, Vector.getElem_set, Fin.ext_iff]

@[simp] theorem get_set_self (m : NodeMap n α) (node : Fin n) (a : α) :
    (m.set node a).get node = a := by
  simp [get_set]

end NodeMap

end FeatureGuard

import Std.Data.TreeSet
import FeatureGuard.Dependency.Component

/-!
Topological order. Nodes are put in order one by one: of the nodes that no edge from an unordered
node leads to, the least comes next. A graph without cycles gets the least order, node by node, in
which every edge goes forward; in a graph with cycles some nodes never become ready.
-/

namespace FeatureGuard.Graph

variable {n : Nat}

/-- How far the ordering of the nodes has come. -/
structure Sorting (n : Nat) where
  /-- how many edges lead to each node from nodes that are not yet in order -/
  pending : NodeMap n Nat
  /-- the nodes that are not yet in order and that nothing is pending for -/
  ready : Std.TreeSet (Fin n)
  /-- the nodes that are in order, the last one first -/
  sorted : List (Fin n)

namespace Sorting

/-- How many edges lead to each node. -/
def inDegrees (g : Graph n) : NodeMap n Nat :=
  g.successors.toList.flatten.foldl (fun count node => count.set node (count.get node + 1))
    (.const n 0)

/-- Before the first step, the nodes that no edge leads to are ready. -/
def start (g : Graph n) : Sorting n :=
  let pending := inDegrees g
  { pending
    ready := .ofList ((List.finRange n).filter fun node => pending.get node = 0)
    sorted := [] }

/-- Takes account of one edge whose source is now in order. -/
def release (s : Sorting n) (node : Fin n) : Sorting n :=
  let count := s.pending.get node - 1
  { s with
    pending := s.pending.set node count
    ready := if count = 0 then s.ready.insert node else s.ready }

/-- Puts a node in order. -/
def place (g : Graph n) (node : Fin n) (s : Sorting n) : Sorting n :=
  (g.successors.get node).foldl release
    { s with ready := s.ready.erase node, sorted := node :: s.sorted }

/-- Puts the least ready node in order until no node is ready, but at most `fuel` times. -/
def run (g : Graph n) : Nat → Sorting n → Sorting n
  | 0, s => s
  | fuel + 1, s =>
    match s.ready.min? with
    | none => s
    | some node => run g fuel (s.place g node)

end Sorting

/-- The ordering in which no further node becomes ready. Each step orders one node. -/
def sorting (g : Graph n) : Sorting n := (Sorting.start g).run g n

/-- The least order in which every edge goes forward, or else the cycles of the graph. -/
def topologicalOrder (g : Graph n) : Except (List (List (Fin n))) (List (Fin n)) :=
  let sorted := g.sorting.sorted
  if sorted.length = n then .ok sorted.reverse else .error g.cycles

end FeatureGuard.Graph

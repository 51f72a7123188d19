import FeatureGuard.Dependency.Graph

/-!
Strongly connected components, by one depth-first search. The search numbers nodes as it enters
them and keeps, for each, the least number known to be reachable from it among the nodes that
belong to no finished component. A node that cannot reach a smaller number than its own is the
root of a component: the nodes entered since then that are not yet in one.
-/

namespace FeatureGuard.Graph

variable {n : Nat}

/-- How far a depth-first search has come. -/
structure Search (n : Nat) where
  /-- the number of each node that was entered -/
  index : NodeMap n (Option Nat)
  /-- the least number known to be reachable from each node that was entered -/
  low : NodeMap n Nat
  /-- the nodes that were entered and are in no component yet, the last one first -/
  stack : List (Fin n)
  /-- whether a node is on the stack -/
  onStack : NodeMap n Bool
  /-- how many nodes were entered -/
  entered : Nat
  /-- the nodes being visited, innermost first, each with the successors still to be looked at -/
  frames : List (Fin n × List (Fin n))
  /-- the nodes that are still to be tried as starting points -/
  roots : List (Fin n)
  /-- the finished components, the last one first -/
  components : List (List (Fin n))

namespace Search

/-- The search before its first step. -/
def start (n : Nat) : Search n where
  index := .const n none
  low := .const n 0
  stack := []
  onStack := .const n false
  entered := 0
  frames := []
  roots := List.finRange n
  components := []

/-- Starts to visit a node. -/
def enter (g : Graph n) (node : Fin n) (s : Search n) : Search n :=
  { s with
    index := s.index.set node (some s.entered)
    low := s.low.set node s.entered
    stack := node :: s.stack
    onStack := s.onStack.set node true
    entered := s.entered + 1
    frames := (node, g.successors.get node) :: s.frames }

/-- Records that a node can reach the number `bound`. -/
def lower (node : Fin n) (bound : Nat) (s : Search n) : Search n :=
  { s with low := s.low.set node (min (s.low.get node) bound) }

/-- Takes the component of a root from the stack. -/
def close (root : Fin n) (s : Search n) : Search n :=
  let component := s.stack.takeWhile (· ≠ root) ++ [root]
  { s with
    stack := (s.stack.dropWhile (· ≠ root)).drop 1
    onStack := component.foldl (fun on member => on.set member false) s.onStack
    components := component :: s.components }

/-- Ends the visit of a node whose frame was removed: what it can reach, the node before it can
reach too. -/
def leave (node : Fin n) (s : Search n) : Search n :=
  let s := match s.frames with
    | [] => s
    | (parent, _) :: _ => s.lower parent (s.low.get node)
  if s.index.get node = some (s.low.get node) then s.close node else s

/-- Looks at one edge, ends one visit, or tries one starting point; nothing is left to do where
there is no next step. -/
def step? (g : Graph n) (s : Search n) : Option (Search n) :=
  match s.frames with
  | (node, next :: rest) :: frames =>
    let s := { s with frames := (node, rest) :: frames }
    match s.index.get next with
    | none => some (s.enter g next)
    | some number => some (if s.onStack.get next then s.lower node number else s)
  | (node, []) :: frames => some ({ s with frames }.leave node)
  | [] =>
    match s.roots with
    | [] => none
    | root :: roots =>
      let s := { s with roots }
      some (if (s.index.get root).isNone then s.enter g root else s)

/-- Takes steps until nothing is left to do, but at most `fuel` of them. -/
def run (g : Graph n) : Nat → Search n → Search n
  | 0, s => s
  | fuel + 1, s =>
    match s.step? g with
    | none => s
    | some next => run g fuel next

end Search

/-- The finished search. Each node is tried as a starting point once and left once, and each edge
is looked at once, which bounds the number of steps. -/
def search (g : Graph n) : Search n := (Search.start n).run g (2 * n + g.size)

/-- Whether a component holds a cycle: it has two nodes, or one with an edge to itself. -/
def isCyclic (g : Graph n) : List (Fin n) → Bool
  | [] => false
  | [node] => g.Edge node node
  | _ => true

/-- The number of the first node of a component. -/
def leader (component : List (Fin n)) : Nat := (component.head?.map Fin.val).getD 0

/-- The components that hold a cycle, each with its nodes in increasing order, in the order of
their least nodes. -/
def cycles (g : Graph n) : List (List (Fin n)) :=
  let cyclic := g.search.components.filter g.isCyclic
  let sorted := cyclic.map (·.mergeSort fun a b => a.val ≤ b.val)
  sorted.mergeSort fun a b => leader a ≤ leader b

end FeatureGuard.Graph

import FeatureGuard.Dependency.Component
import Mathlib.Data.List.Pairwise
import Mathlib.Logic.Relation
import Mathlib.Order.Nat

/-!
The invariant of the depth-first search. The nodes on the stack are, from the last to the first, in
decreasing order of their numbers, and each of them belongs to the innermost visit that was begun no
later than it was entered: the visited node reaches it and has a low number no greater than its own.
A node that is on the stack but no longer visited has a low number below its own, which is why the
nodes above a root, and the root, are one component when the visit of the root ends.
-/

namespace FeatureGuard.Graph

variable {n : ℕ} {g : Graph n}

/-- Some walk, possibly without edges, leads from one node to another. -/
abbrev Reaches (g : Graph n) : Fin n → Fin n → Prop := Relation.ReflTransGen g.Edge

/-- Every edge out of a component leads to a component that was finished before it; the last
finished component comes first. -/
def Enclosed (g : Graph n) : List (List (Fin n)) → Prop
  | [] => True
  | component :: finished =>
    (∀ u ∈ component, ∀ v, g.Edge u v → v ∈ component ∨ v ∈ finished.flatten) ∧
      g.Enclosed finished

namespace Search

/-- The nodes that are being visited, innermost first. -/
def visiting (s : Search n) : List (Fin n) := s.frames.map Prod.fst

/-- The number of a node that was entered. -/
def number (s : Search n) (v : Fin n) : ℕ := (s.index.get v).getD 0

def Entered (s : Search n) (v : Fin n) : Prop := (s.index.get v).isSome = true

/-- The edge between two nodes is still to be looked at. -/
def Pending (s : Search n) (u v : Fin n) : Prop := ∃ targets, (u, targets) ∈ s.frames ∧ v ∈ targets

/-- The innermost visit that was begun no later than a node was entered is the one of `owner`. -/
structure Owns (g : Graph n) (s : Search n) (owner v : Fin n) : Prop where
  visiting : owner ∈ s.visiting
  number_le : s.number owner ≤ s.number v
  innermost : ∀ u ∈ s.visiting, s.number u ≤ s.number v → s.number u ≤ s.number owner
  low_le : s.low.get owner ≤ s.low.get v
  reaches : g.Reaches owner v

/-- What holds between the steps of a search. -/
structure Valid (g : Graph n) (s : Search n) : Prop where
  onStack : ∀ v, s.onStack.get v = true ↔ v ∈ s.stack
  entered : ∀ v, s.Entered v ↔ v ∈ s.stack ∨ v ∈ s.components.flatten
  nodup : (s.stack ++ s.components.flatten).Nodup
  number_lt : ∀ v, s.Entered v → s.number v < s.entered
  stack : s.stack.Pairwise fun a b => s.number b < s.number a
  visits : s.visiting.Pairwise fun a b => s.number b < s.number a ∧ g.Reaches b a
  visiting : ∀ v ∈ s.visiting, v ∈ s.stack
  edge : ∀ u v, s.Pending u v → g.Edge u v
  looked : ∀ u v, s.Entered u → g.Edge u v → ¬s.Pending u v → s.Entered v
  low_le : ∀ v ∈ s.stack, s.low.get v ≤ s.number v
  low_reaches : ∀ v ∈ s.stack, ∃ w ∈ s.stack, s.number w = s.low.get v ∧ g.Reaches v w
  low_edge : ∀ u ∈ s.stack, ∀ v ∈ s.stack, g.Edge u v → ¬s.Pending u v →
    s.low.get u ≤ s.number v
  low_lt : ∀ v ∈ s.stack, v ∉ s.visiting → s.low.get v < s.number v
  owner : ∀ v ∈ s.stack, ∃ u, Owns g s u v
  enclosed : g.Enclosed s.components
  connected : ∀ component ∈ s.components, ∀ u ∈ component, ∀ v ∈ component, g.Reaches u v
  roots : ∀ v, s.Entered v ∨ v ∈ s.roots

theorem valid_start (g : Graph n) : Valid g (start n) where
  onStack v := by simp [start]
  entered v := by simp [start, Entered]
  nodup := by simp [start]
  number_lt v h := by simp [start, Entered] at h
  stack := List.Pairwise.nil
  visits := List.Pairwise.nil
  visiting v h := by simp [start, Search.visiting] at h
  edge u v h := by simp [start, Pending] at h
  looked u v h := by simp [start, Entered] at h
  low_le v h := by simp [start] at h
  low_reaches v h := by simp [start] at h
  low_edge u h := by simp [start] at h
  low_lt v h := by simp [start] at h
  owner v h := by simp [start] at h
  enclosed := trivial
  connected c h := by simp [start] at h
  roots v := by simp [start]

/-! ### Entering a node -/

theorem number_enter (s : Search n) (node v : Fin n) :
    (s.enter g node).number v = if v = node then s.entered else s.number v := by
  simp only [number, enter, NodeMap.get_set, eq_comm (a := v)]
  split <;> rfl

theorem entered_enter (s : Search n) (node v : Fin n) :
    (s.enter g node).Entered v ↔ v = node ∨ s.Entered v := by
  simp only [Entered, enter, NodeMap.get_set]
  by_cases h : node = v
  · simp [h]
  · simp [h, Ne.symm h]

theorem low_enter (s : Search n) (node v : Fin n) :
    (s.enter g node).low.get v = if v = node then s.entered else s.low.get v := by
  simp only [enter, NodeMap.get_set, eq_comm (a := v)]

theorem pending_enter (s : Search n) (node u v : Fin n) :
    (s.enter g node).Pending u v ↔ u = node ∧ g.Edge u v ∨ s.Pending u v := by
  simp only [Pending, enter, List.mem_cons, Prod.mk.injEq]
  constructor
  · rintro ⟨targets, ⟨rfl, rfl⟩ | hmem, hv⟩
    · exact Or.inl ⟨rfl, hv⟩
    · exact Or.inr ⟨targets, hmem, hv⟩
  · rintro (⟨rfl, hv⟩ | ⟨targets, hmem, hv⟩)
    · exact ⟨_, Or.inl ⟨rfl, rfl⟩, hv⟩
    · exact ⟨targets, Or.inr hmem, hv⟩

namespace Valid

variable {s : Search n}

theorem entered_of_mem_stack (h : Valid g s) {v : Fin n} (hv : v ∈ s.stack) : s.Entered v :=
  (h.entered v).2 (Or.inl hv)

/-- Nodes on the stack are told apart by their numbers. -/
theorem eq_of_number_eq (h : Valid g s) {u v : Fin n} (hu : u ∈ s.stack) (hv : v ∈ s.stack)
    (heq : s.number u = s.number v) : u = v := by
  have : Std.Symm fun a b => s.number a ≠ s.number b := ⟨fun _ _ => Ne.symm⟩
  have hne : s.stack.Pairwise fun a b => s.number a ≠ s.number b := h.stack.imp ne_of_gt
  by_contra huv
  exact hne.forall hu hv huv heq

theorem enter (h : Valid g s) {node : Fin n} (hnode : ¬s.Entered node)
    (hreach : ∀ u ∈ s.visiting, g.Reaches u node) : Valid g (s.enter g node) := by
  have hne : ∀ v ∈ s.stack, v ≠ node := by
    rintro v hv rfl
    exact hnode (h.entered_of_mem_stack hv)
  have hnumber : ∀ v ∈ s.stack, (s.enter g node).number v = s.number v := by
    intro v hv
    rw [number_enter, if_neg (hne v hv)]
  have hlow : ∀ v ∈ s.stack, (s.enter g node).low.get v = s.low.get v := by
    intro v hv
    rw [low_enter, if_neg (hne v hv)]
  have hself : (s.enter g node).number node = s.entered := by
    rw [number_enter, if_pos rfl]
  have hlt : ∀ v ∈ s.stack, s.number v < s.entered := fun v hv =>
    h.number_lt v (h.entered_of_mem_stack hv)
  have hfresh : node ∉ s.stack ∧ node ∉ s.components.flatten :=
    not_or.1 fun hmem => hnode ((h.entered node).2 hmem)
  constructor
  case onStack =>
    intro v
    simp only [Search.enter, NodeMap.get_set, List.mem_cons, ← h.onStack]
    by_cases hv : node = v
    · simp [hv]
    · simp [hv, Ne.symm hv]
  case entered =>
    intro v
    rw [entered_enter, h.entered]
    simp only [Search.enter, List.mem_cons, or_assoc]
  case nodup =>
    refine List.nodup_cons.2 ⟨fun hmem => ?_, h.nodup⟩
    exact (List.mem_append.1 hmem).elim hfresh.1 hfresh.2
  case number_lt =>
    intro v hv
    rw [number_enter]
    show _ < s.entered + 1
    split
    · omega
    · rename_i hvne
      have := h.number_lt v (((entered_enter s node v).1 hv).resolve_left hvne)
      omega
  case stack =>
    refine List.pairwise_cons.2 ⟨fun v hv => ?_, h.stack.imp_of_mem fun {a b} ha hb hab => ?_⟩
    · rw [hself, hnumber v hv]
      exact hlt v hv
    · rwa [hnumber a ha, hnumber b hb]
  case visits =>
    refine List.pairwise_cons.2 ⟨fun v hv => ?_, h.visits.imp_of_mem fun {a b} ha hb hab => ?_⟩
    · rw [hself, hnumber v (h.visiting v hv)]
      exact ⟨hlt v (h.visiting v hv), hreach v hv⟩
    · rwa [hnumber a (h.visiting a ha), hnumber b (h.visiting b hb)]
  case visiting =>
    intro v hv
    rcases List.mem_cons.1 hv with rfl | hv
    · exact List.mem_cons_self
    · exact List.mem_cons_of_mem _ (h.visiting v hv)
  case edge =>
    intro u v huv
    rcases (pending_enter s node u v).1 huv with ⟨-, hedge⟩ | hpending
    · exact hedge
    · exact h.edge u v hpending
  case looked =>
    intro u v hu huv hnot
    rw [pending_enter, not_or, not_and'] at hnot
    have hu := ((entered_enter s node u).1 hu).resolve_left (hnot.1 huv)
    exact (entered_enter s node v).2 (Or.inr (h.looked u v hu huv hnot.2))
  case low_le =>
    intro v hv
    rw [low_enter, number_enter]
    rcases List.mem_cons.1 hv with rfl | hv
    · simp
    · rw [if_neg (hne v hv), if_neg (hne v hv)]
      exact h.low_le v hv
  case low_reaches =>
    intro v hv
    rcases List.mem_cons.1 hv with rfl | hv
    · exact ⟨v, List.mem_cons_self, by rw [hself, low_enter, if_pos rfl], .refl⟩
    · obtain ⟨w, hw, hwv, hreaches⟩ := h.low_reaches v hv
      exact ⟨w, List.mem_cons_of_mem _ hw, by rw [hnumber w hw, hlow v hv, hwv], hreaches⟩
  case low_edge =>
    intro u hu v hv huv hnot
    rw [pending_enter, not_or, not_and'] at hnot
    have hmem := (List.mem_cons.1 hu).resolve_left (hnot.1 huv)
    rw [hlow u hmem]
    rcases List.mem_cons.1 hv with rfl | hv
    · -- the number of the new node is the greatest, so that no low number exceeds it
      rw [hself]
      exact (h.low_le u hmem).trans (hlt u hmem).le
    · rw [hnumber v hv]
      exact h.low_edge u hmem v hv huv hnot.2
  case low_lt =>
    intro v hv hnot
    have hnot := not_or.1 fun hmem => hnot (List.mem_cons.2 hmem)
    have hv := (List.mem_cons.1 hv).resolve_left hnot.1
    rw [hlow v hv, hnumber v hv]
    exact h.low_lt v hv hnot.2
  case owner =>
    intro v hv
    rcases List.mem_cons.1 hv with rfl | hv
    · refine ⟨v, List.mem_cons_self, le_rfl, fun u hu hle => hle, le_rfl, .refl⟩
    · obtain ⟨u, hu⟩ := h.owner v hv
      have hmem := h.visiting u hu.visiting
      refine ⟨u, List.mem_cons_of_mem _ hu.visiting, ?_, ?_, ?_, hu.reaches⟩
      · rw [hnumber u hmem, hnumber v hv]
        exact hu.number_le
      · intro w hw hle
        have hnew := hlt v hv
        rw [hnumber v hv] at hle
        rcases List.mem_cons.1 hw with rfl | hw
        · -- the new visit begins after every other node was entered
          rw [hself] at hle
          omega
        · rw [hnumber w (h.visiting w hw)] at hle
          rw [hnumber w (h.visiting w hw), hnumber u hmem]
          exact hu.innermost w hw hle
      · rw [hlow u hmem, hlow v hv]
        exact hu.low_le
  case enclosed => exact h.enclosed
  case connected => exact h.connected
  case roots =>
    intro v
    rw [entered_enter]
    exact (h.roots v).imp_left Or.inr

/-! ### Looking at an edge -/

/-- An edge may be taken from a visit once its target is entered and the low number of the visited
node takes account of it. -/
theorem advance (h : Valid g s) (above : List (Fin n × List (Fin n)))
    {below : List (Fin n × List (Fin n))} {node next : Fin n} {rest : List (Fin n)}
    (hframes : s.frames = above ++ (node, next :: rest) :: below) (hnext : s.Entered next)
    (hlow : next ∈ s.stack → s.low.get node ≤ s.number next) :
    Valid g { s with frames := above ++ (node, rest) :: below } := by
  have hvisiting : Search.visiting { s with frames := above ++ (node, rest) :: below } =
      s.visiting := by
    simp [Search.visiting, hframes]
  have hpending : ∀ u v, s.Pending u v →
      Pending { s with frames := above ++ (node, rest) :: below } u v ∨ u = node ∧ v = next := by
    rintro u v ⟨targets, hmem, hv⟩
    rw [hframes, List.mem_append, List.mem_cons, Prod.mk.injEq] at hmem
    rcases hmem with hmem | ⟨rfl, rfl⟩ | hmem
    · exact Or.inl ⟨targets, List.mem_append_left _ hmem, hv⟩
    · rcases List.mem_cons.1 hv with rfl | hv
      · exact Or.inr ⟨rfl, rfl⟩
      · exact Or.inl ⟨rest, List.mem_append_right _ List.mem_cons_self, hv⟩
    · exact Or.inl ⟨targets, List.mem_append_right _ (List.mem_cons_of_mem _ hmem), hv⟩
  exact { h with
    visits := by rw [hvisiting]; exact h.visits
    visiting := by rw [hvisiting]; exact h.visiting
    edge := by
      rintro u v ⟨targets, hmem, hv⟩
      apply h.edge
      rw [List.mem_append, List.mem_cons, Prod.mk.injEq] at hmem
      rw [Pending, hframes]
      rcases hmem with hmem | ⟨rfl, rfl⟩ | hmem
      · exact ⟨targets, List.mem_append_left _ hmem, hv⟩
      · exact ⟨_, List.mem_append_right _ List.mem_cons_self, List.mem_cons_of_mem _ hv⟩
      · exact ⟨targets, List.mem_append_right _ (List.mem_cons_of_mem _ hmem), hv⟩
    looked := by
      intro u v hu huv hnot
      by_cases hold : s.Pending u v
      · obtain ⟨-, rfl⟩ := (hpending u v hold).resolve_left hnot
        exact hnext
      · exact h.looked u v hu huv hold
    low_edge := by
      intro u hu v hv huv hnot
      by_cases hold : s.Pending u v
      · obtain ⟨rfl, rfl⟩ := (hpending u v hold).resolve_left hnot
        exact hlow hv
      · exact h.low_edge u hu v hv huv hold
    low_lt := by rw [hvisiting]; exact h.low_lt
    owner := by
      intro v hv
      obtain ⟨u, hu⟩ := h.owner v hv
      exact ⟨u, { hu with
        visiting := by rw [hvisiting]; exact hu.visiting
        innermost := by rw [hvisiting]; exact hu.innermost }⟩ }

theorem low_lower (s : Search n) (node v : Fin n) (bound : ℕ) :
    (s.lower node bound).low.get v =
      if v = node then min (s.low.get node) bound else s.low.get v := by
  simp only [Search.lower, NodeMap.get_set, eq_comm (a := v)]

theorem low_lower_le (s : Search n) (node v : Fin n) (bound : ℕ) :
    (s.lower node bound).low.get v ≤ s.low.get v := by
  rw [low_lower]
  split
  · rename_i hv
    rw [hv]
    exact Nat.min_le_left _ _
  · exact Nat.le_refl _

/-- The owner of a node that is being visited is the node itself. -/
theorem owner_eq (h : Valid g s) {u v : Fin n} (hu : Owns g s u v) (hv : v ∈ s.visiting) :
    u = v :=
  h.eq_of_number_eq (h.visiting u hu.visiting) (h.visiting v hv)
    (Nat.le_antisymm hu.number_le (hu.innermost v hv le_rfl))

theorem lower (h : Valid g s) {node w : Fin n} (hnode : node ∈ s.visiting) (hw : w ∈ s.stack)
    (hreaches : g.Reaches node w) : Valid g (s.lower node (s.number w)) :=
  { h with
    low_le := fun v hv => (low_lower_le s node v _).trans (h.low_le v hv)
    low_reaches := by
      intro v hv
      rw [low_lower]
      split
      · rename_i heq
        subst heq
        rcases Nat.le_total (s.low.get v) (s.number w) with hle | hle
        · rw [Nat.min_eq_left hle]
          exact h.low_reaches v hv
        · rw [Nat.min_eq_right hle]
          exact ⟨w, hw, rfl, hreaches⟩
      · exact h.low_reaches v hv
    low_edge := fun u hu v hv huv hnot =>
      (low_lower_le s node u _).trans (h.low_edge u hu v hv huv hnot)
    low_lt := fun v hv hnot => (low_lower_le s node v _).trans_lt (h.low_lt v hv hnot)
    owner := by
      intro v hv
      obtain ⟨u, hu⟩ := h.owner v hv
      refine ⟨u, { hu with low_le := ?_ }⟩
      by_cases heq : v = node
      · subst heq
        rw [h.owner_eq hu hnode]
      · have hself : (s.lower node (s.number w)).low.get v = s.low.get v := by
          rw [low_lower, if_neg heq]
        rw [hself]
        exact (low_lower_le s node u _).trans hu.low_le }

/-! ### Ending a visit -/

section Leave

variable {node : Fin n} {below : List (Fin n × List (Fin n))}

theorem visiting_of_frames (hframes : s.frames = (node, []) :: below) :
    s.visiting = node :: Search.visiting { s with frames := below } := by
  simp [Search.visiting, hframes]

theorem pending_of_frames (hframes : s.frames = (node, []) :: below) (u v : Fin n) :
    Pending { s with frames := below } u v ↔ s.Pending u v := by
  simp only [Pending, hframes, List.mem_cons, Prod.mk.injEq]
  constructor
  · rintro ⟨targets, hmem, hv⟩
    exact ⟨targets, Or.inr hmem, hv⟩
  · rintro ⟨targets, ⟨-, rfl⟩ | hmem, hv⟩
    · exact absurd hv List.not_mem_nil
    · exact ⟨targets, hmem, hv⟩

theorem number_lt_of_below (h : Valid g s) (hframes : s.frames = (node, []) :: below) {u : Fin n}
    (hu : u ∈ Search.visiting { s with frames := below }) :
    s.number u < s.number node ∧ g.Reaches u node := by
  have hvisits := h.visits
  rw [visiting_of_frames hframes] at hvisits
  exact (List.pairwise_cons.1 hvisits).1 u hu

/-- The innermost visit owns the nodes entered since it began. -/
theorem owner_of_number_le (h : Valid g s) (hframes : s.frames = (node, []) :: below)
    {u v : Fin n} (hu : Owns g s u v) (hle : s.number node ≤ s.number v) : u = node := by
  have hnode : node ∈ s.visiting := by
    rw [visiting_of_frames hframes]
    exact List.mem_cons_self
  have hvisiting := hu.visiting
  rw [visiting_of_frames hframes] at hvisiting
  rcases List.mem_cons.1 hvisiting with rfl | hmem
  · rfl
  · have hlt := (h.number_lt_of_below hframes hmem).1
    have hge := hu.innermost node hnode hle
    omega

/-- A node that is no root stays on the stack when its visit ends. -/
theorem drop (h : Valid g s) (hframes : s.frames = (node, []) :: below)
    (hlt : s.low.get node < s.number node) {parent : Fin n}
    (hparent : (Search.visiting { s with frames := below }).head? = some parent)
    (hlow : s.low.get parent ≤ s.low.get node) : Valid g { s with frames := below } := by
  have hvisiting := visiting_of_frames hframes
  have hmem : parent ∈ Search.visiting { s with frames := below } := List.mem_of_head? hparent
  have hvisits := h.visits
  rw [hvisiting, List.pairwise_cons] at hvisits
  exact { h with
    visits := hvisits.2
    visiting := fun v hv => h.visiting v (hvisiting ▸ List.mem_cons_of_mem _ hv)
    edge := fun u v huv => h.edge u v ((pending_of_frames hframes u v).1 huv)
    looked := fun u v hu huv hnot =>
      h.looked u v hu huv fun hp => hnot ((pending_of_frames hframes u v).2 hp)
    low_edge := fun u hu v hv huv hnot =>
      h.low_edge u hu v hv huv fun hp => hnot ((pending_of_frames hframes u v).2 hp)
    low_lt := by
      intro v hv hnot
      by_cases heq : v = node
      · rwa [heq]
      · apply h.low_lt v hv
        rw [hvisiting, List.mem_cons, not_or]
        exact ⟨heq, hnot⟩
    owner := by
      intro v hv
      obtain ⟨u, hu⟩ := h.owner v hv
      by_cases heq : u = node
      · -- what the finished visit owned falls to the visit around it
        subst heq
        obtain ⟨hbefore, hreaches⟩ := h.number_lt_of_below hframes hmem
        refine ⟨parent, hmem, hbefore.le.trans hu.number_le, fun w hw hle => ?_,
          hlow.trans hu.low_le, hreaches.trans hu.reaches⟩
        obtain ⟨rest, hrest⟩ := List.head?_eq_some_iff.1 hparent
        rw [hrest] at hw hvisits
        rcases List.mem_cons.1 hw with rfl | hw
        · exact le_rfl
        · exact ((List.pairwise_cons.1 hvisits.2).1 w hw).1.le
      · refine ⟨u, { hu with visiting := ?_, innermost := fun w hw hle => ?_ }⟩
        · exact (List.mem_cons.1 (hvisiting ▸ hu.visiting)).resolve_left heq
        · exact hu.innermost w (hvisiting ▸ List.mem_cons_of_mem _ hw) hle }

/-- The last visit that is left is the one of a root. -/
theorem number_le_low_of_last (h : Valid g s) (hframes : s.frames = [(node, [])]) :
    s.number node ≤ s.low.get node := by
  have hvisiting := visiting_of_frames hframes
  have hnode : node ∈ s.stack := h.visiting node (by rw [hvisiting]; exact List.mem_cons_self)
  obtain ⟨w, hw, hwlow, -⟩ := h.low_reaches node hnode
  obtain ⟨u, hu⟩ := h.owner w hw
  have hmem := hu.visiting
  rw [hvisiting] at hmem
  obtain rfl : u = node := List.mem_singleton.1 hmem
  rw [← hwlow]
  exact hu.number_le

theorem get_foldl_set_false (members : List (Fin n)) (on : NodeMap n Bool) (v : Fin n) :
    (members.foldl (fun on member => on.set member false) on).get v =
      if members.contains v then false else on.get v := by
  induction members generalizing on with
  | nil => simp
  | cons member members ih =>
      rw [List.foldl_cons, ih, NodeMap.get_set]
      by_cases hv : member = v
      · subst hv
        simp
      · simp [hv, Ne.symm hv]

theorem close_eq {top bottom : List (Fin n)} (hstack : s.stack = top ++ node :: bottom)
    (hnot : node ∉ top) :
    s.close node =
      { s with
        stack := bottom
        onStack := (top ++ [node]).foldl (fun on member => on.set member false) s.onStack
        components := (top ++ [node]) :: s.components } := by
  have hne : ∀ v ∈ top, decide (v ≠ node) = true := by
    intro v hv
    rw [decide_eq_true_eq]
    rintro rfl
    exact hnot hv
  simp only [Search.close, hstack, List.takeWhile_append_of_pos hne,
    List.dropWhile_append_of_pos hne]
  simp

/-- What has been split off when the visit of a root ends: the root and the nodes entered since,
which are the nodes of the stack whose numbers are no less than that of the root. -/
structure Splits (s : Search n) (node : Fin n) (component bottom : List (Fin n)) : Prop where
  stack : s.stack = component ++ bottom
  number_le : ∀ v ∈ component, s.number node ≤ s.number v
  number_lt : ∀ v ∈ bottom, s.number v < s.number node

theorem splits_of_mem (h : Valid g s) (hnode : node ∈ s.stack) :
    ∃ top bottom, s.stack = top ++ node :: bottom ∧ node ∉ top ∧
      Splits s node (top ++ [node]) bottom := by
  obtain ⟨top, bottom, hstack, hnot⟩ := List.eq_append_cons_of_mem hnode
  have hpairwise := h.stack
  rw [hstack, List.pairwise_append, List.pairwise_cons] at hpairwise
  obtain ⟨-, ⟨hbottom, -⟩, htop⟩ := hpairwise
  refine ⟨top, bottom, hstack, hnot, by simp [hstack], fun v hv => ?_, hbottom⟩
  rcases List.mem_append.1 hv with hv | hv
  · exact (htop v hv node List.mem_cons_self).le
  · rw [List.mem_singleton.1 hv]

theorem Splits.mem {component bottom : List (Fin n)} (hsplit : Splits s node component bottom)
    {v : Fin n} (hv : v ∈ s.stack) (hle : s.number node ≤ s.number v) : v ∈ component := by
  rw [hsplit.stack, List.mem_append] at hv
  refine hv.resolve_right fun hmem => ?_
  have := hsplit.number_lt v hmem
  omega

theorem Splits.mem_bottom {component bottom : List (Fin n)}
    (hsplit : Splits s node component bottom) {v : Fin n} (hv : v ∈ s.stack)
    (hlt : s.number v < s.number node) : v ∈ bottom := by
  rw [hsplit.stack, List.mem_append] at hv
  refine hv.resolve_left fun hmem => ?_
  have := hsplit.number_le v hmem
  omega

section Component

variable {component bottom : List (Fin n)}

/-- The root of a component reaches all of it, and no node of it has a lower low number. -/
theorem owns_of_splits (h : Valid g s) (hframes : s.frames = (node, []) :: below)
    (hsplit : Splits s node component bottom) {v : Fin n} (hv : v ∈ component) :
    Owns g s node v := by
  have hmem : v ∈ s.stack := hsplit.stack ▸ List.mem_append_left _ hv
  obtain ⟨u, hu⟩ := h.owner v hmem
  obtain rfl := h.owner_of_number_le hframes hu (hsplit.number_le v hv)
  exact hu

theorem not_visiting_of_splits (h : Valid g s) (hframes : s.frames = (node, []) :: below)
    (hsplit : Splits s node component bottom) {v : Fin n} (hv : v ∈ component) :
    v ∉ Search.visiting { s with frames := below } := by
  intro hmem
  have hlt := (h.number_lt_of_below hframes hmem).1
  have hge := hsplit.number_le v hv
  omega

/-- Every node of a component reaches its root: a node other than the root reaches a node of the
component with a smaller number. -/
theorem reaches_root (h : Valid g s) (hframes : s.frames = (node, []) :: below)
    (hsplit : Splits s node component bottom) (hroot : s.low.get node = s.number node)
    {v : Fin n} (hv : v ∈ component) : g.Reaches v node := by
  induction hnum : s.number v using Nat.strong_induction_on generalizing v with
  | _ number ih =>
      subst hnum
      by_cases heq : v = node
      · rw [heq]
      · have hmem : v ∈ s.stack := hsplit.stack ▸ List.mem_append_left _ hv
        have hnot : v ∉ s.visiting := by
          rw [visiting_of_frames hframes, List.mem_cons, not_or]
          exact ⟨heq, h.not_visiting_of_splits hframes hsplit hv⟩
        obtain ⟨w, hw, hwlow, hreaches⟩ := h.low_reaches v hmem
        have hlow := (h.owns_of_splits hframes hsplit hv).low_le
        have hlt := h.low_lt v hmem hnot
        -- the root owns `v`, so that the low number of `v` is no less than the number of the root
        have hcomponent : w ∈ component := hsplit.mem hw (by omega)
        exact hreaches.trans (ih (s.number w) (by omega) hcomponent rfl)

theorem edge_from_component (h : Valid g s) (hframes : s.frames = (node, []) :: below)
    (hsplit : Splits s node component bottom) (hroot : s.low.get node = s.number node)
    {u v : Fin n} (hu : u ∈ component) (huv : g.Edge u v) :
    v ∈ component ∨ v ∈ s.components.flatten := by
  have hmem : u ∈ s.stack := hsplit.stack ▸ List.mem_append_left _ hu
  have hnot : ¬s.Pending u v := by
    rw [← pending_of_frames hframes]
    rintro ⟨targets, hframe, -⟩
    exact h.not_visiting_of_splits hframes hsplit hu (List.mem_map.2 ⟨_, hframe, rfl⟩)
  have hentered := h.looked u v (h.entered_of_mem_stack hmem) huv hnot
  refine ((h.entered v).1 hentered).imp_left fun hv => hsplit.mem hv ?_
  have hlow := (h.owns_of_splits hframes hsplit hu).low_le
  have hedge := h.low_edge u hmem v hv huv hnot
  omega

end Component

/-- When the visit of a root ends, the root and the nodes entered since are one component. -/
theorem close (h : Valid g s) (hframes : s.frames = (node, []) :: below)
    (hroot : s.low.get node = s.number node) :
    Valid g (Search.close node { s with frames := below }) := by
  have hvisiting := visiting_of_frames hframes
  have hnode : node ∈ s.stack := h.visiting node (by rw [hvisiting]; exact List.mem_cons_self)
  obtain ⟨top, bottom, hstack, hnot, hsplit⟩ := h.splits_of_mem hnode
  rw [close_eq (s := { s with frames := below }) hstack hnot]
  have hmem : ∀ v ∈ bottom, v ∈ s.stack := fun v hv =>
    hsplit.stack ▸ List.mem_append_right _ hv
  have hvisits := h.visits
  rw [hvisiting, List.pairwise_cons] at hvisits
  have hnodup := h.nodup
  rw [hsplit.stack] at hnodup
  constructor
  case onStack =>
    intro v
    rw [get_foldl_set_false]
    split
    · rename_i hv
      rw [List.contains_iff_mem] at hv
      simp only [Bool.false_eq_true, false_iff]
      intro hbottom
      exact (List.nodup_append.1 (List.nodup_append.1 hnodup).1).2.2 v hv v hbottom rfl
    · rename_i hv
      rw [List.contains_iff_mem] at hv
      rw [h.onStack, hsplit.stack, List.mem_append]
      exact ⟨fun hor => hor.resolve_left hv, Or.inr⟩
  case entered =>
    intro v
    refine (h.entered v).trans ?_
    rw [hsplit.stack, List.flatten_cons, List.mem_append, List.mem_append (s := top ++ [node]),
      or_assoc, or_left_comm]
  case nodup =>
    refine List.Perm.nodup ?_ hnodup
    rw [List.flatten_cons, ← List.append_assoc]
    exact List.perm_append_comm.append_right _
  case number_lt => exact h.number_lt
  case stack => exact (List.pairwise_append.1 (hsplit.stack ▸ h.stack)).2.1
  case visits => exact hvisits.2
  case visiting =>
    intro v hv
    exact hsplit.mem_bottom (h.visiting v (hvisiting ▸ List.mem_cons_of_mem _ hv))
      (h.number_lt_of_below hframes hv).1
  case edge => exact fun u v huv => h.edge u v ((pending_of_frames hframes u v).1 huv)
  case looked =>
    intro u v hu huv hp
    exact h.looked u v hu huv fun hp' => hp ((pending_of_frames hframes u v).2 hp')
  case low_le => exact fun v hv => h.low_le v (hmem v hv)
  case low_reaches =>
    intro v hv
    obtain ⟨w, hw, hwlow, hreaches⟩ := h.low_reaches v (hmem v hv)
    have hle := h.low_le v (hmem v hv)
    have hlt := hsplit.number_lt v hv
    exact ⟨w, hsplit.mem_bottom hw (by omega), hwlow, hreaches⟩
  case low_edge =>
    intro u hu v hv huv hp
    exact h.low_edge u (hmem u hu) v (hmem v hv) huv fun hp' =>
      hp ((pending_of_frames hframes u v).2 hp')
  case low_lt =>
    intro v hv hnot
    apply h.low_lt v (hmem v hv)
    rw [hvisiting, List.mem_cons, not_or]
    refine ⟨?_, hnot⟩
    rintro rfl
    exact lt_irrefl _ (hsplit.number_lt v hv)
  case owner =>
    intro v hv
    obtain ⟨u, hu⟩ := h.owner v (hmem v hv)
    refine ⟨u, { hu with visiting := ?_, innermost := fun w hw hle => ?_ }⟩
    · have hlt := hsplit.number_lt v hv
      refine (List.mem_cons.1 (hvisiting ▸ hu.visiting)).resolve_left ?_
      rintro rfl
      exact absurd hu.number_le (by omega)
    · exact hu.innermost w (hvisiting ▸ List.mem_cons_of_mem _ hw) hle
  case enclosed =>
    exact ⟨fun u hu v huv => h.edge_from_component hframes hsplit hroot hu huv, h.enclosed⟩
  case connected =>
    intro component hc u hu v hv
    rcases List.mem_cons.1 hc with rfl | hc
    · exact (h.reaches_root hframes hsplit hroot hu).trans
        (h.owns_of_splits hframes hsplit hv).reaches
    · exact h.connected component hc u hu v hv
  case roots => exact h.roots

end Leave

end Valid

end Search

end FeatureGuard.Graph

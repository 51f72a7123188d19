import FeatureGuard.Dependency.Order
import Mathlib.Algebra.BigOperators.Fin
import Mathlib.Data.Finset.Card
import Mathlib.Order.Bounds.Basic
import Mathlib.Order.WellFounded

/-!
What the ordering of the nodes achieves. The count of pending edges is, throughout, the number of
unordered nodes with an edge to a node, so that the ready nodes are the ones that can come next and
every step places the least of them. When no node is ready, every node that is left has a node that
is left before it.
-/

namespace FeatureGuard

theorem NodeMap.toList_eq_map_get {n : ℕ} {α : Type} (m : NodeMap n α) :
    m.toList = (List.finRange n).map m.get := by
  apply List.ext_getElem
  · simp [toList]
  · intro i h₁ h₂
    rw [List.getElem_map, List.getElem_finRange]
    exact Vector.getElem_toList _

namespace Graph

variable {n : ℕ} {g : Graph n}

/-- A node can come next where some nodes are in order: it is not among them, and every node with
an edge to it is. -/
def Available (g : Graph n) (placed : List (Fin n)) (node : Fin n) : Prop :=
  node ∉ placed ∧ ∀ source, g.Edge source node → source ∈ placed

/-- Orders, the last node first, in which each node was the least one that could come next. -/
def Canonical (g : Graph n) : List (Fin n) → Prop
  | [] => True
  | node :: placed => IsLeast {v | g.Available placed v} node ∧ g.Canonical placed

theorem Canonical.nodup {placed : List (Fin n)} (h : g.Canonical placed) : placed.Nodup := by
  induction placed with
  | nil => simp
  | cons node placed ih => exact List.nodup_cons.2 ⟨h.1.1.1, ih h.2⟩

theorem Canonical.mem_of_edge {placed : List (Fin n)} (h : g.Canonical placed) {u v : Fin n}
    (hv : v ∈ placed) (huv : g.Edge u v) : u ∈ placed := by
  induction placed with
  | nil => simp at hv
  | cons node placed ih =>
      rcases List.mem_cons.1 hv with rfl | hv
      · exact List.mem_cons_of_mem _ (h.1.1.2 u huv)
      · exact List.mem_cons_of_mem _ (ih h.2 hv)

/-- In the order of placing, a node comes after every node with an edge to it. -/
theorem Canonical.idxOf_lt {placed : List (Fin n)} (h : g.Canonical placed) {u v : Fin n}
    (hv : v ∈ placed) (huv : g.Edge u v) :
    placed.reverse.idxOf u < placed.reverse.idxOf v := by
  induction placed with
  | nil => simp at hv
  | cons node placed ih =>
      rw [List.reverse_cons]
      rcases List.mem_cons.1 hv with rfl | hv
      · have hu : u ∈ placed.reverse := List.mem_reverse.2 (h.1.1.2 u huv)
        have hnot : v ∉ placed.reverse := by simpa using h.1.1.1
        rw [List.idxOf_append_of_mem hu, List.idxOf_append_of_notMem hnot]
        have := List.idxOf_lt_length_of_mem hu
        omega
      · have hu : u ∈ placed := h.2.mem_of_edge hv huv
        rw [List.idxOf_append_of_mem (by simpa using hu),
          List.idxOf_append_of_mem (by simpa using hv)]
        exact ih h.2 hv

/-! ### Counting the edges that are pending -/

/-- The nodes with an edge to a node that are not yet in order. -/
def unplaced (g : Graph n) (placed : List (Fin n)) (v : Fin n) : Finset (Fin n) :=
  (Finset.univ.filter fun u => g.Edge u v) \ placed.toFinset

theorem mem_unplaced {placed : List (Fin n)} {u v : Fin n} :
    u ∈ g.unplaced placed v ↔ u ∉ placed ∧ g.Edge u v := by
  simp only [unplaced, Finset.mem_sdiff, Finset.mem_filter, Finset.mem_univ, true_and,
    List.mem_toFinset, and_comm]

theorem card_unplaced_eq_zero {placed : List (Fin n)} {v : Fin n} :
    (g.unplaced placed v).card = 0 ↔ ∀ u, g.Edge u v → u ∈ placed := by
  rw [Finset.card_eq_zero, Finset.eq_empty_iff_forall_notMem]
  constructor
  · intro h u huv
    by_contra hu
    exact h u (mem_unplaced.2 ⟨hu, huv⟩)
  · intro h u hmem
    obtain ⟨hu, huv⟩ := mem_unplaced.1 hmem
    exact hu (h u huv)

theorem card_unplaced_cons {placed : List (Fin n)} {node : Fin n} (hnode : node ∉ placed)
    (v : Fin n) :
    (g.unplaced (node :: placed) v).card =
      (g.unplaced placed v).card - if v ∈ g.successors.get node then 1 else 0 := by
  have heq : g.unplaced (node :: placed) v = (g.unplaced placed v).erase node := by
    ext u
    simp only [mem_unplaced, List.mem_cons, not_or, Finset.mem_erase, and_assoc]
  rw [heq]
  split
  · rename_i hv
    exact Finset.card_erase_of_mem (mem_unplaced.2 ⟨hnode, hv⟩)
  · rename_i hv
    rw [Finset.erase_eq_of_notMem fun hmem => hv (mem_unplaced.1 hmem).2]
    rfl

namespace Sorting

theorem get_foldl_count (targets : List (Fin n)) (count : NodeMap n ℕ) (v : Fin n) :
    (targets.foldl (fun count node => count.set node (count.get node + 1)) count).get v =
      count.get v + targets.count v := by
  induction targets generalizing count with
  | nil => simp
  | cons target targets ih =>
      rw [List.foldl_cons, ih, NodeMap.get_set, List.count_cons]
      by_cases h : target = v
      · subst h
        simp
        omega
      · simp [h]

theorem get_inDegrees (g : Graph n) (v : Fin n) :
    (inDegrees g).get v = (g.unplaced [] v).card := by
  rw [inDegrees, get_foldl_count, NodeMap.toList_eq_map_get, List.count_flatten, List.map_map,
    unplaced, List.toFinset_nil, Finset.sdiff_empty, Finset.card_filter, Fin.sum_univ_def]
  simp only [NodeMap.get_const, Nat.zero_add]
  congr 1
  apply List.map_congr_left
  intro u _
  exact (g.nodup u).count

theorem foldl_release_sorted (targets : List (Fin n)) (s : Sorting n) :
    (targets.foldl release s).sorted = s.sorted := by
  induction targets generalizing s with
  | nil => rfl
  | cons target targets ih => rw [List.foldl_cons, ih, release]

theorem get_pending_foldl_release {targets : List (Fin n)} (h : targets.Nodup) (s : Sorting n)
    (v : Fin n) :
    (targets.foldl release s).pending.get v =
      s.pending.get v - if v ∈ targets then 1 else 0 := by
  induction targets generalizing s with
  | nil => simp
  | cons target targets ih =>
      obtain ⟨hnot, hnodup⟩ := List.nodup_cons.1 h
      rw [List.foldl_cons, ih hnodup, release, NodeMap.get_set]
      by_cases hv : target = v
      · subst hv
        simp [hnot]
      · simp [hv, Ne.symm hv]

theorem mem_ready_foldl_release {targets : List (Fin n)} (h : targets.Nodup) (s : Sorting n)
    (v : Fin n) :
    v ∈ (targets.foldl release s).ready ↔
      v ∈ s.ready ∨ v ∈ targets ∧ s.pending.get v - 1 = 0 := by
  induction targets generalizing s with
  | nil => simp
  | cons target targets ih =>
      obtain ⟨hnot, hnodup⟩ := List.nodup_cons.1 h
      have hready : v ∈ (release s target).ready ↔
          v ∈ s.ready ∨ v = target ∧ s.pending.get v - 1 = 0 := by
        simp only [release]
        split
        · rename_i hzero
          rw [Std.TreeSet.mem_insert, Std.LawfulEqCmp.compare_eq_iff_eq]
          constructor
          · rintro (rfl | hv)
            · exact Or.inr ⟨rfl, hzero⟩
            · exact Or.inl hv
          · rintro (hv | ⟨rfl, -⟩)
            · exact Or.inr hv
            · exact Or.inl rfl
        · rename_i hzero
          constructor
          · exact Or.inl
          · rintro (hv | ⟨rfl, hv⟩)
            · exact hv
            · exact absurd hv hzero
      rw [List.foldl_cons, ih hnodup, hready, List.mem_cons, release]
      simp only [NodeMap.get_set]
      by_cases hv : target = v
      · subst hv
        simp [hnot]
      · simp [hv, Ne.symm hv]

/-! ### One step and the whole run -/

/-- What holds between steps: the counts and the ready nodes are those of the order so far, and
that order is canonical. -/
structure Valid (g : Graph n) (s : Sorting n) : Prop where
  pending : ∀ v, s.pending.get v = (g.unplaced s.sorted v).card
  ready : ∀ v, v ∈ s.ready ↔ g.Available s.sorted v
  canonical : g.Canonical s.sorted

theorem valid_start (g : Graph n) : Valid g (start g) where
  pending := get_inDegrees g
  ready v := by
    simp only [start, Std.TreeSet.mem_ofList, List.contains_iff_mem, List.mem_filter,
      List.mem_finRange, true_and, decide_eq_true_eq, get_inDegrees]
    rw [card_unplaced_eq_zero]
    simp [Available]
  canonical := trivial

theorem valid_place {s : Sorting n} (h : Valid g s) {node : Fin n}
    (hmin : s.ready.min? = some node) : Valid g (s.place g node) := by
  obtain ⟨hnode, hleast⟩ := Std.TreeSet.min?_eq_some_iff_mem_and_forall.1 hmin
  rw [h.ready] at hnode
  have hsorted : (s.place g node).sorted = node :: s.sorted := foldl_release_sorted _ _
  have hpending : ∀ v, (s.place g node).pending.get v =
      (g.unplaced (node :: s.sorted) v).card := by
    intro v
    rw [place, get_pending_foldl_release (g.nodup node), card_unplaced_cons hnode.1, h.pending]
  refine ⟨?_, ?_, ?_⟩
  · intro v
    rw [hpending, hsorted]
  · intro v
    have hcount := card_unplaced_cons (g := g) hnode.1 v
    rw [place, mem_ready_foldl_release (g.nodup node), ← place, hsorted]
    simp only [Std.TreeSet.mem_erase, ne_eq, Std.LawfulEqCmp.compare_eq_iff_eq, h.ready, h.pending]
    constructor
    · rintro (⟨hne, hv, hsources⟩ | ⟨hv, hzero⟩)
      · refine ⟨by simp [Ne.symm hne, hv], fun u huv => ?_⟩
        exact List.mem_cons_of_mem _ (hsources u huv)
      · rw [if_pos hv, hzero] at hcount
        refine ⟨fun hmem => ?_, card_unplaced_eq_zero.1 hcount⟩
        -- a successor of a node that is only placed now cannot be in order already
        rcases List.mem_cons.1 hmem with rfl | hmem
        · exact hnode.1 (hnode.2 v hv)
        · exact hnode.1 (h.canonical.mem_of_edge hmem hv)
    · rintro ⟨hnot, hsources⟩
      obtain ⟨hne, hv⟩ := not_or.1 (fun hmem => hnot (List.mem_cons.2 hmem))
      by_cases hedge : v ∈ g.successors.get node
      · refine Or.inr ⟨hedge, ?_⟩
        rw [if_pos hedge, card_unplaced_eq_zero.2 hsources] at hcount
        exact hcount.symm
      · refine Or.inl ⟨Ne.symm hne, hv, fun u huv => ?_⟩
        rcases List.mem_cons.1 (hsources u huv) with rfl | hu
        · exact absurd huv hedge
        · exact hu
  · rw [hsorted]
    refine ⟨⟨hnode, fun v hv => ?_⟩, h.canonical⟩
    exact Nat.isLE_compare.1 (hleast v ((h.ready v).2 hv))

theorem valid_run {fuel : ℕ} {s : Sorting n} (h : Valid g s)
    (hfuel : n ≤ fuel + s.sorted.length) :
    Valid g (run g fuel s) ∧ ∀ v, ¬g.Available (run g fuel s).sorted v := by
  induction fuel generalizing s with
  | zero =>
      refine ⟨h, fun v hv => ?_⟩
      -- with every node in order, one more would make the order too long
      have hlen := (List.nodup_cons.2 ⟨hv.1, h.canonical.nodup⟩).length_le_card
      simp only [run, Fintype.card_fin, List.length_cons] at hlen
      omega
  | succ fuel ih =>
      cases hmin : s.ready.min? with
      | none =>
          simp only [run, hmin]
          refine ⟨h, fun v hv => ?_⟩
          have hempty := Std.TreeSet.min?_eq_none_iff.1 hmin
          exact Std.TreeSet.not_mem_of_isEmpty hempty ((h.ready v).2 hv)
      | some node =>
          simp only [run, hmin]
          apply ih (valid_place h hmin)
          have hsorted : (s.place g node).sorted = node :: s.sorted := foldl_release_sorted _ _
          rw [hsorted, List.length_cons]
          omega

end Sorting

theorem canonical_sorting (g : Graph n) : g.Canonical g.sorting.sorted :=
  (Sorting.valid_run (Sorting.valid_start g) (Nat.le_add_right n _)).1.canonical

theorem not_available_sorting (g : Graph n) (v : Fin n) : ¬g.Available g.sorting.sorted v :=
  (Sorting.valid_run (Sorting.valid_start g) (Nat.le_add_right n _)).2 v

/-! ### The order of all nodes -/

/-- No walk along one or more edges comes back to where it started. -/
def Acyclic (g : Graph n) : Prop := ∀ v, ¬Relation.TransGen g.Edge v v

/-- The order holds every node once, and every edge goes forward in it. -/
structure Topological (g : Graph n) (order : List (Fin n)) : Prop where
  perm : order.Perm (List.finRange n)
  forward : ∀ u v, g.Edge u v → order.idxOf u < order.idxOf v

theorem Topological.acyclic {order : List (Fin n)} (h : g.Topological order) : g.Acyclic := by
  have hlt : ∀ {a b}, Relation.TransGen g.Edge a b → order.idxOf a < order.idxOf b := by
    intro a b hab
    induction hab with
    | single hedge => exact h.forward _ _ hedge
    | tail _ hedge ih => exact ih.trans (h.forward _ _ hedge)
  exact fun v hv => lt_irrefl _ (hlt hv)

theorem topologicalOrder_eq_ok {order : List (Fin n)} (h : g.topologicalOrder = .ok order) :
    g.Canonical order.reverse ∧ ∀ v, v ∈ order := by
  simp only [topologicalOrder] at h
  split at h
  · rename_i hlen
    cases h
    rw [List.reverse_reverse]
    refine ⟨canonical_sorting g, fun v => ?_⟩
    by_contra hv
    rw [List.mem_reverse] at hv
    have hle := (List.nodup_cons.2 ⟨hv, (canonical_sorting g).nodup⟩).length_le_card
    simp only [Fintype.card_fin, List.length_cons] at hle
    omega
  · cases h

/-- Every edge goes forward in the order of the nodes. -/
theorem idxOf_lt_of_edge {order : List (Fin n)} (h : g.topologicalOrder = .ok order)
    {u v : Fin n} (huv : g.Edge u v) : order.idxOf u < order.idxOf v := by
  obtain ⟨hcanonical, hmem⟩ := topologicalOrder_eq_ok h
  simpa using hcanonical.idxOf_lt (List.mem_reverse.2 (hmem v)) huv

theorem topological_of_topologicalOrder {order : List (Fin n)}
    (h : g.topologicalOrder = .ok order) : g.Topological order where
  perm := by
    obtain ⟨hcanonical, hmem⟩ := topologicalOrder_eq_ok h
    refine (List.perm_ext_iff_of_nodup (List.nodup_reverse.1 hcanonical.nodup)
      (List.nodup_finRange n)).2 fun v => ?_
    exact iff_of_true (hmem v) (List.mem_finRange v)
  forward _ _ := idxOf_lt_of_edge h

/-- Where not all nodes can be put in order, some walk comes back to where it started: otherwise
some node that is left would be the first of them. -/
theorem mem_sorting_of_acyclic (h : g.Acyclic) (v : Fin n) : v ∈ g.sorting.sorted := by
  by_contra hv
  have : IsTrans (Fin n) (Relation.TransGen g.Edge) := ⟨fun _ _ _ => Relation.TransGen.trans⟩
  have : Std.Irrefl (Relation.TransGen g.Edge) := ⟨h⟩
  have hwf := Finite.wellFounded_of_trans_of_irrefl (Relation.TransGen g.Edge)
  obtain ⟨first, hfirst, hmin⟩ := hwf.has_min {u | u ∉ g.sorting.sorted} ⟨v, hv⟩
  apply not_available_sorting g first
  refine ⟨hfirst, fun u hu => ?_⟩
  by_contra hnot
  exact hmin u hnot (.single hu)

theorem topologicalOrder_isOk_iff :
    (∃ order, g.topologicalOrder = .ok order) ↔ g.Acyclic := by
  constructor
  · rintro ⟨order, h⟩
    exact (topological_of_topologicalOrder h).acyclic
  · intro h
    have hlen : g.sorting.sorted.length = n := by
      have hle := (canonical_sorting g).nodup.length_le_card
      have hge : (List.finRange n).length ≤ g.sorting.sorted.length :=
        ((List.nodup_finRange n).subperm fun v _ => mem_sorting_of_acyclic h v).length_le
      simp only [Fintype.card_fin, List.length_finRange] at hle hge
      omega
    exact ⟨_, if_pos hlen⟩

end Graph

end FeatureGuard

import Mathlib
import FeatureGuard.Proofs.Dependency.Order

/-!
The least order. Of all orders in which every edge goes forward, the one that is found is the least,
node by node: at the first place where another order differs, its node could have come next too.
On the way there an edge is taken account of only while it is counted, and no node becomes ready a
second time.
-/

namespace FeatureGuard.Graph

variable {n : ℕ} {g : Graph n}

/-! ### Comparison with another order -/

/-- The next node of an order in which every edge goes forward is one that can come next. -/
theorem Topological.available {before after : List (Fin n)} {node : Fin n}
    (h : g.Topological (before ++ node :: after)) : g.Available before node := by
  have hnodup := h.perm.nodup_iff.2 (List.nodup_finRange n)
  have hnot : node ∉ before := fun hmem =>
    (List.nodup_append.1 hnodup).2.2 node hmem node List.mem_cons_self rfl
  refine ⟨hnot, fun source hedge => ?_⟩
  by_contra hsource
  have hlt := h.forward source node hedge
  rw [List.idxOf_append_of_notMem hnot, List.idxOf_append_of_notMem hsource,
    List.idxOf_cons_self] at hlt
  omega

theorem Canonical.of_append {placed : List (Fin n)} {later : List (Fin n)}
    (h : g.Canonical (later ++ placed)) : g.Canonical placed := by
  induction later with
  | nil => exact h
  | cons node later ih => exact ih h.2

theorem Available.of_reverse {placed : List (Fin n)} {node : Fin n}
    (h : g.Available placed.reverse node) : g.Available placed node :=
  ⟨fun hmem => h.1 (List.mem_reverse.2 hmem),
    fun source hedge => List.mem_reverse.1 (h.2 source hedge)⟩

/-- What is placed behind the first nodes of another order is no greater than what follows there. -/
theorem Canonical.le_of_topological {rest other placed : List (Fin n)}
    (h : g.Canonical (rest.reverse ++ placed)) (hother : g.Topological (placed.reverse ++ other))
    (hlength : rest.length = other.length) : rest ≤ other := by
  induction rest generalizing placed other with
  | nil =>
      obtain rfl := List.eq_nil_of_length_eq_zero hlength.symm
      exact le_rfl
  | cons node rest ih =>
      obtain ⟨head, other, rfl⟩ := List.exists_cons_of_length_eq_add_one hlength.symm
      rw [List.reverse_cons, List.append_assoc, List.singleton_append] at h
      have hle : node ≤ head := h.of_append.1.2 hother.available.of_reverse
      rcases hle.eq_or_lt with rfl | hlt
      · refine List.cons_le_cons node (ih h ?_ (Nat.succ.inj hlength))
        rwa [List.reverse_cons, List.append_assoc, List.singleton_append]
      · exact le_of_lt (List.Lex.rel hlt)

/-- The order that is found is the least one in which every edge goes forward. -/
theorem isLeast_of_topologicalOrder {order : List (Fin n)} (h : g.topologicalOrder = .ok order) :
    IsLeast {other | g.Topological other} order := by
  have htopological := topological_of_topologicalOrder h
  refine ⟨htopological, fun other hother => ?_⟩
  have hcanonical := (topologicalOrder_eq_ok h).1
  rw [← List.append_nil order.reverse] at hcanonical
  exact hcanonical.le_of_topological hother
    (htopological.perm.length_eq.trans hother.perm.length_eq.symm)

theorem topologicalOrder_eq_ok_iff {order : List (Fin n)} :
    g.topologicalOrder = .ok order ↔ IsLeast {other | g.Topological other} order := by
  refine ⟨isLeast_of_topologicalOrder, fun h => ?_⟩
  obtain ⟨found, hfound⟩ := topologicalOrder_isOk_iff.2 (Topological.acyclic h.1)
  rw [hfound, (isLeast_of_topologicalOrder hfound).unique h]

/-! ### What is queued -/

namespace Sorting

/-- The least ready node is no longer ready, but in order. -/
def pop (node : Fin n) (s : Sorting n) : Sorting n :=
  { s with ready := s.ready.erase node, sorted := node :: s.sorted }

/-- The edges to certain nodes as they are taken account of one after the other: the state in which
that happens, and the node. -/
def releases (targets : List (Fin n)) (s : Sorting n) : List (Sorting n × Fin n) :=
  (targets.scanl release s).zip targets

/-- All edges that are taken account of in the course of a run. -/
def history (g : Graph n) : ℕ → Sorting n → List (Sorting n × Fin n)
  | 0, _ => []
  | fuel + 1, s =>
    match s.ready.min? with
    | none => []
    | some node => releases (g.successors.get node) (s.pop node) ++ history g fuel (s.place g node)

/-- The nodes that become ready by certain edges: nothing else was pending for them. -/
def queued (edges : List (Sorting n × Fin n)) : List (Fin n) :=
  (edges.filter fun e => e.1.pending.get e.2 - 1 = 0).map Prod.snd

/-- An edge is taken account of in a state that counts the edges to its target as they were before
the edges from the same node. -/
theorem pending_of_mem_releases {targets : List (Fin n)} (h : targets.Nodup) {s : Sorting n}
    {e : Sorting n × Fin n} (he : e ∈ releases targets s) :
    e.2 ∈ targets ∧ e.1.pending.get e.2 = s.pending.get e.2 := by
  induction targets generalizing s with
  | nil => cases he
  | cons target targets ih =>
      obtain ⟨hnot, hnodup⟩ := List.nodup_cons.1 h
      rw [releases, List.scanl_cons, List.zip_cons_cons] at he
      rcases List.mem_cons.1 he with rfl | he
      · exact ⟨List.mem_cons_self, rfl⟩
      · obtain ⟨hmem, hpending⟩ := ih hnodup he
        have hne : target ≠ e.2 := fun heq => hnot (heq ▸ hmem)
        rw [release, NodeMap.get_set, if_neg hne] at hpending
        exact ⟨List.mem_cons_of_mem target hmem, hpending⟩

theorem queued_releases {targets : List (Fin n)} (h : targets.Nodup) (s : Sorting n) :
    queued (releases targets s) = targets.filter fun v => s.pending.get v - 1 = 0 := by
  have hsnd : (releases targets s).map Prod.snd = targets := by
    refine List.map_snd_zip ?_
    rw [List.length_scanl]
    exact Nat.le_succ _
  have hfilter : (releases targets s).filter (fun e => e.1.pending.get e.2 - 1 = 0) =
      (releases targets s).filter ((fun v => s.pending.get v - 1 = 0) ∘ Prod.snd) := by
    refine List.filter_congr fun e he => ?_
    rw [(pending_of_mem_releases h he).2]
    rfl
  rw [queued, hfilter, ← List.filter_map, hsnd]

theorem queued_append (edges others : List (Sorting n × Fin n)) :
    queued (edges ++ others) = queued edges ++ queued others := by
  rw [queued, List.filter_append, List.map_append]
  rfl

section Place

variable {s : Sorting n} {node : Fin n}

theorem available_of_min? (h : Valid g s) (hmin : s.ready.min? = some node) :
    g.Available s.sorted node :=
  (h.ready node).1 (Std.TreeSet.min?_eq_some_iff_mem_and_forall.1 hmin).1

/-- The node that is placed is still counted for each node that it has an edge to. -/
theorem pending_pos (h : Valid g s) (hmin : s.ready.min? = some node) {e : Sorting n × Fin n}
    (he : e ∈ releases (g.successors.get node) (s.pop node)) : 0 < e.1.pending.get e.2 := by
  obtain ⟨hedge, hpending⟩ := pending_of_mem_releases (g.nodup node) he
  have hcount : e.1.pending.get e.2 = (g.unplaced s.sorted e.2).card :=
    hpending.trans (h.pending e.2)
  rw [hcount, Finset.card_pos]
  exact ⟨node, mem_unplaced.2 ⟨(available_of_min? h hmin).1, hedge⟩⟩

/-- A node with an edge from the one that is placed was never ready before. -/
theorem not_queued_of_edge (h : Valid g s) (hmin : s.ready.min? = some node) {v : Fin n}
    (hedge : g.Edge node v) : v ∉ s.ready ∧ v ∉ s.sorted := by
  have hnode := (available_of_min? h hmin).1
  constructor
  · intro hv
    exact hnode (((h.ready v).1 hv).2 node hedge)
  · intro hv
    exact hnode (h.canonical.mem_of_edge hv hedge)

theorem sorted_place (s : Sorting n) (node : Fin n) : (s.place g node).sorted = node :: s.sorted :=
  foldl_release_sorted _ _

/-- A node that was ready is ready from then on until it is in order. -/
theorem ready_or_sorted_place {v : Fin n} (hv : v ∈ s.ready ∨ v ∈ s.sorted) :
    v ∈ (s.place g node).ready ∨ v ∈ (s.place g node).sorted := by
  rw [sorted_place]
  by_cases heq : node = v
  · exact Or.inr (heq ▸ List.mem_cons_self)
  · refine hv.imp (fun hready => ?_) (List.mem_cons_of_mem node)
    refine (mem_ready_foldl_release (g.nodup node) _ v).2 (Or.inl ?_)
    rw [Std.TreeSet.mem_erase, ne_eq, Std.LawfulEqCmp.compare_eq_iff_eq]
    exact ⟨heq, hready⟩

theorem ready_place_of_queued {v : Fin n}
    (hv : v ∈ queued (releases (g.successors.get node) (s.pop node))) :
    v ∈ (s.place g node).ready := by
  rw [queued_releases (g.nodup node), List.mem_filter, decide_eq_true_eq] at hv
  exact (mem_ready_foldl_release (g.nodup node) _ v).2 (Or.inr hv)

end Place

theorem pending_pos_of_mem_history {fuel : ℕ} {s : Sorting n} (h : Valid g s)
    {e : Sorting n × Fin n} (he : e ∈ history g fuel s) : 0 < e.1.pending.get e.2 := by
  induction fuel generalizing s with
  | zero => cases he
  | succ fuel ih =>
      rw [history] at he
      cases hmin : s.ready.min? with
      | none =>
          rw [hmin] at he
          cases he
      | some node =>
          rw [hmin] at he
          rcases List.mem_append.1 he with he | he
          · exact pending_pos h hmin he
          · exact ih (valid_place h hmin) he

/-- A run queues no node twice, and none that was queued before it. -/
theorem nodup_append_queued {fuel : ℕ} {s : Sorting n} (h : Valid g s) {before : List (Fin n)}
    (hnodup : before.Nodup) (hbefore : ∀ v ∈ before, v ∈ s.ready ∨ v ∈ s.sorted) :
    (before ++ queued (history g fuel s)).Nodup := by
  induction fuel generalizing s before with
  | zero => simpa [history, queued] using hnodup
  | succ fuel ih =>
      rw [history]
      cases hmin : s.ready.min? with
      | none => simpa [queued] using hnodup
      | some node =>
          dsimp only
          rw [queued_append, ← List.append_assoc]
          refine ih (valid_place h hmin) ?_ fun v hv => ?_
          · rw [queued_releases (g.nodup node), List.nodup_append]
            refine ⟨hnodup, (g.nodup node).filter _, ?_⟩
            rintro v hv _ hnew rfl
            obtain ⟨hready, hsorted⟩ := not_queued_of_edge h hmin (List.mem_filter.1 hnew).1
            exact (hbefore v hv).elim hready hsorted
          · rcases List.mem_append.1 hv with hv | hv
            · exact ready_or_sorted_place (hbefore v hv)
            · exact Or.inl (ready_place_of_queued hv)

/-- The nodes that are ready before the first step. -/
def initial (g : Graph n) : List (Fin n) :=
  (List.finRange n).filter fun v => (inDegrees g).get v = 0

theorem mem_ready_start {v : Fin n} (hv : v ∈ initial g) : v ∈ (start g).ready := by
  rw [start, Std.TreeSet.mem_ofList, List.contains_iff_mem]
  exact hv

end Sorting

/-! ### The least order and the queue -/

/-- An order is found exactly where the graph has no cycle; the orders found are the least ones in
which every edge goes forward. On the way there no count of pending edges falls below zero, and no
node is queued twice. -/
theorem topologicalOrder_least (g : Graph n) :
    ((∃ order, g.topologicalOrder = .ok order) ↔ g.Acyclic) ∧
    (∀ order, g.topologicalOrder = .ok order ↔ IsLeast {other | g.Topological other} order) ∧
    (∀ e ∈ Sorting.history g n (Sorting.start g), 0 < e.1.pending.get e.2) ∧
    (Sorting.initial g ++ Sorting.queued (Sorting.history g n (Sorting.start g))).Nodup := by
  have hvalid := Sorting.valid_start g
  refine ⟨topologicalOrder_isOk_iff, fun _ => topologicalOrder_eq_ok_iff,
    fun _ => Sorting.pending_pos_of_mem_history hvalid, ?_⟩
  refine Sorting.nodup_append_queued hvalid ((List.nodup_finRange n).filter _) fun v hv => ?_
  exact Or.inl (Sorting.mem_ready_start hv)

/-- The last node comes before two others, and both of them before the first. -/
def diamond : Graph 4 :=
  [(3, 2), (3, 1), (1, 0), (2, 0)].foldl (fun g e => g.insert e.1 e.2) (empty 4)

theorem topologicalOrder_diamond :
    IsLeast {other | diamond.Topological other} [3, 1, 2, 0] ∧
    ∃ e ∈ Sorting.history diamond 4 (Sorting.start diamond), e.2 = 0 ∧ 0 < e.1.pending.get e.2 := by
  obtain ⟨-, horder, hpending, -⟩ := topologicalOrder_least diamond
  have hfound : diamond.topologicalOrder = .ok [3, 1, 2, 0] := by cbv
  refine ⟨(horder _).1 hfound, ?_⟩
  have hmem : 0 ∈ (Sorting.history diamond 4 (Sorting.start diamond)).map Prod.snd := by
    have htargets : (Sorting.history diamond 4 (Sorting.start diamond)).map Prod.snd =
        [2, 1, 0, 0] := by cbv
    rw [htargets]
    decide
  obtain ⟨e, he, htarget⟩ := List.mem_map.1 hmem
  exact ⟨e, he, htarget, hpending e he⟩

end FeatureGuard.Graph

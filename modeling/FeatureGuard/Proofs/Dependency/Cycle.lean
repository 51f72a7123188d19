import Mathlib
import FeatureGuard.Proofs.Dependency.Component

/-!
The cycles of a graph. The depth-first search comes to its end and enters every node once, and what
is reported of it are the strongly connected components that hold a cycle: each of them once, its
nodes in increasing order, and the components in the order of their least nodes.
-/

namespace FeatureGuard.Graph

variable {n : ℕ} {g : Graph n}

/-! ### Entering the nodes -/

namespace Search

variable {s s' : Search n}

/-- A step enters a node when it gives it a new number. -/
def Enters (s s' : Search n) (v : Fin n) : Prop := s'.index.get v ≠ s.index.get v

theorem index_leave (s : Search n) (node : Fin n) : (s.leave node).index = s.index := by
  cases hframes : s.frames <;> simp only [leave, hframes] <;> split <;> rfl

/-- Only a node without a number is given one. -/
theorem index_step (hstep : s.step? g = some s') :
    s'.index = s.index ∨
      ∃ node, s.index.get node = none ∧ s'.index = s.index.set node (some s.entered) := by
  unfold step? at hstep
  split at hstep
  · rename_i node next rest frames hframes
    dsimp only at hstep
    split at hstep
    · rename_i hindex
      obtain rfl := Option.some_inj.1 hstep
      exact Or.inr ⟨next, hindex, rfl⟩
    · obtain rfl := Option.some_inj.1 hstep
      split <;> exact Or.inl rfl
  · obtain rfl := Option.some_inj.1 hstep
    exact Or.inl (index_leave _ _)
  · split at hstep
    · cases hstep
    · rename_i root roots hroots
      obtain rfl := Option.some_inj.1 hstep
      split
      · rename_i hindex
        exact Or.inr ⟨root, Option.isNone_iff_eq_none.1 hindex, rfl⟩
      · exact Or.inl rfl

/-- A node that has a number keeps it. -/
theorem not_enters_of_entered (hstep : s.step? g = some s') {v : Fin n} (hv : s.Entered v) :
    ¬Enters s s' v := by
  rw [Enters, not_not]
  rcases index_step hstep with hindex | ⟨node, hnode, hindex⟩
  · rw [hindex]
  · have hne : node ≠ v := by
      rintro rfl
      exact not_entered_iff.2 hnode hv
    rw [hindex, NodeMap.get_set, if_neg hne]

/-! ### Runs -/

theorem run_of_step?_eq_none (h : s.step? g = none) (fuel : ℕ) : run g fuel s = s := by
  cases fuel with
  | zero => rfl
  | succ fuel => simp only [run, h]

theorem run_add (steps fuel : ℕ) (s : Search n) :
    run g (steps + fuel) s = run g fuel (run g steps s) := by
  induction steps generalizing s with
  | zero => rw [Nat.zero_add, run]
  | succ steps ih =>
      rw [Nat.add_right_comm]
      cases hstep : s.step? g with
      | none =>
          rw [run_of_step?_eq_none hstep, run_of_step?_eq_none hstep, run_of_step?_eq_none hstep]
      | some next =>
          simp only [run, hstep]
          exact ih next

theorem run_succ (steps : ℕ) (s : Search n) :
    run g (steps + 1) s = run g steps s ∨
      (run g steps s).step? g = some (run g (steps + 1) s) := by
  rw [run_add]
  cases hstep : (run g steps s).step? g with
  | none => exact Or.inl (run_of_step?_eq_none hstep 1)
  | some next =>
      right
      simp only [run, hstep]

theorem not_enters_run_of_entered {steps : ℕ} {v : Fin n} (hv : (run g steps s).Entered v) :
    ¬Enters (run g steps s) (run g (steps + 1) s) v := by
  rcases run_succ steps s with hsame | hstep
  · rw [hsame]
    exact not_not.2 rfl
  · exact not_enters_of_entered hstep hv

theorem entered_run_of_le {steps later : ℕ} (hle : steps ≤ later) {v : Fin n}
    (hv : (run g steps s).Entered v) : (run g later s).Entered v := by
  induction later, hle using Nat.le_induction with
  | base => exact hv
  | succ later _ ih =>
      have hkept := not_not.1 (not_enters_run_of_entered ih)
      rw [Entered, hkept]
      exact ih

theorem enters_run_iff {steps : ℕ} {v : Fin n} :
    Enters (run g steps s) (run g (steps + 1) s) v ↔
      ¬(run g steps s).Entered v ∧ (run g (steps + 1) s).Entered v := by
  constructor
  · intro h
    have hnew : ¬(run g steps s).Entered v := fun hv => not_enters_run_of_entered hv h
    refine ⟨hnew, ?_⟩
    rw [Enters, not_entered_iff.1 hnew] at h
    by_contra hnot
    exact h (not_entered_iff.1 hnot)
  · rintro ⟨hnew, hv⟩ hsame
    rw [Entered, hsame] at hv
    exact hnew hv

/-- A node that has no number at the start and has one later is entered once. -/
theorem existsUnique_enters {v : Fin n} (hstart : ¬s.Entered v) {fuel : ℕ}
    (hend : (run g fuel s).Entered v) :
    ∃! steps, Enters (run g steps s) (run g (steps + 1) s) v := by
  classical
  simp only [enters_run_iff]
  -- the step is the last one before the node has a number
  have hexists : ∃ steps, (run g steps s).Entered v := ⟨fuel, hend⟩
  have hspec := Nat.find_spec hexists
  have hmin : ∀ steps < Nat.find hexists, ¬(run g steps s).Entered v :=
    fun _ => Nat.find_min hexists
  generalize Nat.find hexists = last at hspec hmin
  cases last with
  | zero => exact absurd hspec hstart
  | succ steps =>
      refine ⟨steps, ⟨hmin steps (Nat.lt_succ_self steps), hspec⟩, ?_⟩
      rintro other ⟨hnew, hv⟩
      rcases Nat.lt_trichotomy other steps with hlt | rfl | hgt
      · exact absurd hv (hmin (other + 1) (Nat.succ_lt_succ hlt))
      · rfl
      · exact absurd (entered_run_of_le hgt hspec) hnew

end Search

/-- With more steps than it needs the search finds the same. -/
theorem run_eq_search {fuel : ℕ} (h : 2 * n + g.size ≤ fuel) :
    (Search.start n).run g fuel = g.search := by
  obtain ⟨more, rfl⟩ := Nat.exists_eq_add_of_le h
  rw [Search.run_add]
  exact Search.run_of_step?_eq_none (valid_search g).2 more

theorem entered_search (g : Graph n) (v : Fin n) : g.search.Entered v := by
  obtain ⟨h, hend⟩ := valid_search g
  refine (h.roots v).resolve_right ?_
  rw [(Search.frames_eq_nil_of_step? hend).2]
  exact List.not_mem_nil

theorem existsUnique_enters_search (g : Graph n) (v : Fin n) : ∃! steps,
    Search.Enters ((Search.start n).run g steps) ((Search.start n).run g (steps + 1)) v := by
  refine Search.existsUnique_enters ?_ (entered_search g v)
  simp [Search.Entered, Search.start]

/-! ### The cycles that are reported -/

/-- The nodes of a strongly connected component, in increasing order. -/
structure IsComponent (g : Graph n) (c : List (Fin n)) : Prop where
  increasing : c.Pairwise (· < ·)
  ne_nil : c ≠ []
  mem_iff : ∀ u ∈ c, ∀ v, v ∈ c ↔ g.Reaches u v ∧ g.Reaches v u

theorem isCyclic_iff {c : List (Fin n)} :
    g.isCyclic c = true ↔ 2 ≤ c.length ∨ ∃ v ∈ c, g.Edge v v := by
  match c with
  | [] => simp [isCyclic]
  | [node] => simp [isCyclic]
  | _ :: _ :: _ => simp [isCyclic]

/-- The nodes of a component in increasing order. -/
def sorted (c : List (Fin n)) : List (Fin n) := c.mergeSort fun a b => a.val ≤ b.val

theorem perm_sorted (c : List (Fin n)) : (sorted c).Perm c := List.mergeSort_perm _ _

theorem pairwise_sorted {c : List (Fin n)} (h : c.Nodup) : (sorted c).Pairwise (· < ·) := by
  have hne : (sorted c).Pairwise (· ≠ ·) := (perm_sorted c).nodup_iff.2 h
  have hle : (sorted c).Pairwise (· ≤ ·) := List.pairwise_mergeSort' (· ≤ ·) c
  exact hle.imp₂ (fun a b hle hne => lt_of_le_of_ne hle hne) hne

theorem nodup_of_mem_components {c : List (Fin n)} (hc : c ∈ g.search.components) : c.Nodup :=
  (List.nodup_flatten.1 (nodup_components g)).1 c hc

theorem isComponent_sorted {c : List (Fin n)} (hc : c ∈ g.search.components) (hne : c ≠ []) :
    g.IsComponent (sorted c) where
  increasing := pairwise_sorted (nodup_of_mem_components hc)
  ne_nil hnil := hne (List.perm_nil.1 (hnil ▸ (perm_sorted c).symm))
  mem_iff u hu v := by
    rw [(perm_sorted c).mem_iff] at hu ⊢
    exact mem_component_iff hc hu

/-- Every strongly connected component is found. -/
theorem IsComponent.exists_eq_sorted {c : List (Fin n)} (h : g.IsComponent c) :
    ∃ found ∈ g.search.components, sorted found = c := by
  obtain ⟨u, hu⟩ := List.exists_mem_of_ne_nil c h.ne_nil
  obtain ⟨found, hfound, hmem⟩ := mem_components g u
  have hincreasing := pairwise_sorted (nodup_of_mem_components hfound)
  refine ⟨found, hfound, List.Perm.eq_of_pairwise ?_ hincreasing h.increasing ?_⟩
  · exact fun a b _ _ hab hba => absurd hba (lt_asymm hab)
  · refine (List.perm_ext_iff_of_nodup (hincreasing.imp ne_of_lt) (h.increasing.imp ne_of_lt)).2 ?_
    intro v
    rw [(perm_sorted found).mem_iff, mem_component_iff hfound hmem, h.mem_iff u hu]

theorem mem_cycles {c : List (Fin n)} :
    c ∈ g.cycles ↔ ∃ found ∈ g.search.components, g.isCyclic found = true ∧ sorted found = c := by
  rw [cycles, List.mem_mergeSort, List.mem_map]
  simp only [List.mem_filter, and_assoc]
  rfl

theorem mem_cycles_iff {c : List (Fin n)} :
    c ∈ g.cycles ↔ g.IsComponent c ∧ (2 ≤ c.length ∨ ∃ v ∈ c, g.Edge v v) := by
  have hcyclic : ∀ found : List (Fin n), g.isCyclic found = true ↔
      2 ≤ (sorted found).length ∨ ∃ v ∈ sorted found, g.Edge v v := by
    intro found
    rw [isCyclic_iff, (perm_sorted found).length_eq]
    simp only [(perm_sorted found).mem_iff]
  rw [mem_cycles]
  constructor
  · rintro ⟨found, hfound, hholds, rfl⟩
    have hne : found ≠ [] := by
      rintro rfl
      cases hholds
    exact ⟨isComponent_sorted hfound hne, (hcyclic found).1 hholds⟩
  · rintro ⟨hcomponent, hholds⟩
    obtain ⟨found, hfound, rfl⟩ := hcomponent.exists_eq_sorted
    exact ⟨found, hfound, (hcyclic found).2 hholds, rfl⟩

theorem pairwise_disjoint_cycles (g : Graph n) : g.cycles.Pairwise List.Disjoint := by
  have hdisjoint := (List.nodup_flatten.1 (nodup_components g)).2
  have hsorted : ((g.search.components.filter g.isCyclic).map sorted).Pairwise List.Disjoint := by
    refine List.pairwise_map.2 ((hdisjoint.filter _).imp fun {c d} hcd v hc hd => ?_)
    exact hcd ((perm_sorted c).mem_iff.1 hc) ((perm_sorted d).mem_iff.1 hd)
  exact hsorted.perm (List.mergeSort_perm _ _).symm List.Disjoint.symm

/-- Of two cycles the one with the least node comes first. -/
theorem pairwise_cycles (g : Graph n) :
    g.cycles.Pairwise fun c d => c.Disjoint d ∧ ∃ u ∈ c, ∀ v ∈ d, u < v := by
  have hleaders : g.cycles.Pairwise fun c d => leader c ≤ leader d :=
    List.pairwise_mergeSort' (Order.Preimage leader (· ≤ ·)) _
  refine (hleaders.and (pairwise_disjoint_cycles g)).imp_of_mem fun {c d} hc hd hcd => ?_
  obtain ⟨hle, hdisjoint⟩ := hcd
  obtain ⟨first, rest, rfl⟩ := List.exists_cons_of_ne_nil (mem_cycles_iff.1 hc).1.ne_nil
  obtain ⟨other, others, rfl⟩ := List.exists_cons_of_ne_nil (mem_cycles_iff.1 hd).1.ne_nil
  have hlt : first < other := by
    refine lt_of_le_of_ne hle ?_
    rintro rfl
    exact hdisjoint List.mem_cons_self List.mem_cons_self
  refine ⟨hdisjoint, first, List.mem_cons_self, fun v hv => ?_⟩
  rcases List.mem_cons.1 hv with rfl | hv
  · exact hlt
  · exact hlt.trans ((List.pairwise_cons.1 (mem_cycles_iff.1 hd).1.increasing).1 v hv)

theorem nodup_cycles (g : Graph n) : g.cycles.Nodup := by
  refine (pairwise_cycles g).imp_of_mem fun {c d} hc _ hcd => ?_
  rintro rfl
  obtain ⟨u, hu, hlt⟩ := hcd.2
  exact lt_irrefl u (hlt u hu)

/-- The depth-first search comes to its end and enters every node once. The cycles that are reported
are the strongly connected components with two nodes or with an edge from a node to itself, each of
them once, without a node in common, and in the order of their least nodes; an order of the nodes is
refused only together with them. -/
theorem search_reports_cycles (g : Graph n) :
    (g.search.step? g = none ∧
      ∀ fuel, 2 * n + g.size ≤ fuel → (Search.start n).run g fuel = g.search) ∧
    (∀ v, ∃! steps,
      Search.Enters ((Search.start n).run g steps) ((Search.start n).run g (steps + 1)) v) ∧
    (∀ c, c ∈ g.cycles ↔ g.IsComponent c ∧ (2 ≤ c.length ∨ ∃ v ∈ c, g.Edge v v)) ∧
    g.cycles.Nodup ∧
    g.cycles.Pairwise (fun c d => c.Disjoint d ∧ ∃ u ∈ c, ∀ v ∈ d, u < v) ∧
    ∀ cycles, g.topologicalOrder = .error cycles → cycles = g.cycles ∧ cycles ≠ [] :=
  ⟨⟨(valid_search g).2, fun _ => run_eq_search⟩, existsUnique_enters_search g,
    fun _ => mem_cycles_iff, nodup_cycles g, pairwise_cycles g,
    fun _ h => ⟨eq_cycles_of_topologicalOrder_eq_error h, ne_nil_of_topologicalOrder_eq_error h⟩⟩

/-- Two pairs of nodes that reach each other, and a node with an edge to itself between them. -/
def knots : Graph 5 :=
  [(3, 0), (0, 3), (0, 1), (1, 1), (1, 4), (4, 2), (2, 4)].foldl (fun g e => g.insert e.1 e.2)
    (empty 5)

theorem search_reports_knots : knots.cycles = [[0, 3], [1], [2, 4]] ∧ knots.IsComponent [2, 4] := by
  obtain ⟨-, -, hmem, -, -, herror⟩ := search_reports_cycles knots
  have hrefused : knots.topologicalOrder = .error [[0, 3], [1], [2, 4]] := by cbv
  obtain ⟨hcycles, -⟩ := herror _ hrefused
  refine ⟨hcycles.symm, ((hmem [2, 4]).1 ?_).1⟩
  rw [← hcycles]
  decide

end FeatureGuard.Graph

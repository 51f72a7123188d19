import FeatureGuard.Proofs.Dependency.Order
import FeatureGuard.Proofs.Dependency.Search

/-!
What the depth-first search finds: when it ends, every node is in exactly one component, and a
component holds the nodes that reach each of its nodes and are reached from it. A graph with a walk
that comes back to where it started therefore has a component that holds a cycle.
-/

namespace FeatureGuard.Graph

variable {n : ℕ} {g : Graph n}

namespace Search

variable {s s' : Search n}

/-! ### One step -/

theorem not_entered_iff {v : Fin n} : ¬s.Entered v ↔ s.index.get v = none := by
  simp [Entered]

theorem Valid.index_eq (h : Valid g s) {v : Fin n} (hv : v ∈ s.stack) :
    s.index.get v = some (s.number v) := by
  obtain ⟨number, hindex⟩ := Option.isSome_iff_exists.1 (h.entered_of_mem_stack hv)
  rw [Search.number, hindex, Option.getD_some]

/-- A visit may end once the visit around it takes account of what its node can reach. -/
theorem Valid.finish (h : Valid g s) {node : Fin n} {below : List (Fin n × List (Fin n))}
    (hframes : s.frames = (node, []) :: below)
    (hparent : ∀ parent ∈ (Search.visiting { s with frames := below }).head?,
      s.low.get parent ≤ s.low.get node) :
    Valid g (if s.index.get node = some (s.low.get node) then
      Search.close node { s with frames := below } else { s with frames := below }) := by
  have hnode : node ∈ s.visiting := by
    rw [Valid.visiting_of_frames hframes]
    exact List.mem_cons_self
  have hmem := h.visiting node hnode
  rw [h.index_eq hmem]
  split
  · rename_i hroot
    exact h.close hframes (Option.some_inj.1 hroot).symm
  · rename_i hroot
    have hlt : s.low.get node < s.number node :=
      lt_of_le_of_ne (h.low_le node hmem) fun heq => hroot (congrArg some heq.symm)
    cases below with
    | nil => exact absurd (h.number_le_low_of_last hframes) (not_le_of_gt hlt)
    | cons frame below => exact h.drop hframes hlt rfl (hparent frame.1 rfl)

theorem Valid.leave (h : Valid g s) {node : Fin n} {below : List (Fin n × List (Fin n))}
    (hframes : s.frames = (node, []) :: below) :
    Valid g (Search.leave node { s with frames := below }) := by
  cases below with
  | nil => exact h.finish hframes fun parent hparent => by cases hparent
  | cons frame below =>
      obtain ⟨parent, targets⟩ := frame
      have hvisiting := Valid.visiting_of_frames hframes
      have hparent : parent ∈ Search.visiting { s with frames := (parent, targets) :: below } :=
        List.mem_cons_self
      obtain ⟨hbefore, hreaches⟩ := h.number_lt_of_below hframes hparent
      have hnode : node ∈ s.stack := h.visiting node (by rw [hvisiting]; exact List.mem_cons_self)
      obtain ⟨w, hw, hwlow, hlow⟩ := h.low_reaches node hnode
      have hlower := h.lower (hvisiting ▸ List.mem_cons_of_mem _ hparent) hw (hreaches.trans hlow)
      rw [hwlow] at hlower
      refine hlower.finish hframes fun u hu => ?_
      obtain rfl : parent = u := Option.some_inj.1 hu
      have hne : node ≠ parent := by
        rintro rfl
        exact lt_irrefl _ hbefore
      rw [Valid.low_lower, Valid.low_lower, if_pos rfl, if_neg hne]
      exact Nat.min_le_right _ _

section Look

variable {node next : Fin n} {rest : List (Fin n)} {frames : List (Fin n × List (Fin n))}

theorem Valid.look_new (h : Valid g s) (hframes : s.frames = (node, next :: rest) :: frames)
    (hindex : s.index.get next = none) :
    Valid g (Search.enter g next { s with frames := (node, rest) :: frames }) := by
  have hnode : node ∈ s.stack := h.visiting node (by simp [Search.visiting, hframes])
  have hedge : g.Edge node next :=
    h.edge node next ⟨next :: rest, hframes ▸ List.mem_cons_self, List.mem_cons_self⟩
  have hnew : ¬s.Entered next := by simp [Entered, hindex]
  have hvisits := h.visits
  rw [Search.visiting, hframes, List.map_cons, List.pairwise_cons] at hvisits
  have henter := h.enter hnew fun u hu => by
    rw [Search.visiting, hframes, List.map_cons] at hu
    rcases List.mem_cons.1 hu with rfl | hu
    · exact .single hedge
    · exact (hvisits.1 u hu).2.tail hedge
  have hne : node ≠ next := by
    rintro rfl
    exact hnew (h.entered_of_mem_stack hnode)
  -- the invariant is kept by entering first and taking the edge afterwards
  have hlow : (s.enter g next).low.get node ≤ (s.enter g next).number next := by
    rw [low_enter, if_neg hne, number_enter, if_pos rfl]
    have hle := h.low_le node hnode
    have hlt := h.number_lt node (h.entered_of_mem_stack hnode)
    omega
  have hafter : (s.enter g next).frames =
      [(next, g.successors.get next)] ++ (node, next :: rest) :: frames :=
    congrArg _ hframes
  exact henter.advance _ hafter ((entered_enter s next next).2 (Or.inl rfl)) fun _ => hlow

theorem Valid.look_old (h : Valid g s) (hframes : s.frames = (node, next :: rest) :: frames)
    {number : ℕ} (hindex : s.index.get next = some number) :
    Valid g (if s.onStack.get next then
      Search.lower node number { s with frames := (node, rest) :: frames }
      else { s with frames := (node, rest) :: frames }) := by
  have hnode : node ∈ s.visiting := by simp [Search.visiting, hframes]
  have hedge : g.Edge node next :=
    h.edge node next ⟨next :: rest, hframes ▸ List.mem_cons_self, List.mem_cons_self⟩
  have hentered : s.Entered next := by simp [Entered, hindex]
  have hnumber : s.number next = number := by rw [Search.number, hindex, Option.getD_some]
  split
  · rename_i hon
    have hlower := h.lower hnode ((h.onStack next).1 hon) (.single hedge)
    rw [hnumber] at hlower
    refine hlower.advance [] hframes hentered fun _ => ?_
    rw [Valid.low_lower, if_pos rfl]
    exact (Nat.min_le_right _ _).trans hnumber.ge
  · rename_i hon
    exact h.advance [] hframes hentered fun hmem =>
      absurd ((h.onStack next).2 hmem) hon

end Look

theorem Valid.skip (h : Valid g s) {root : Fin n} {roots : List (Fin n)}
    (hroots : s.roots = root :: roots) (hroot : s.Entered root) :
    Valid g { s with roots } := by
  refine { h with owner := fun v hv => ?_, roots := fun v => ?_ }
  · obtain ⟨u, hu⟩ := h.owner v hv
    exact ⟨u, { hu with }⟩
  · rcases h.roots v with hv | hv
    · exact Or.inl hv
    · rw [hroots] at hv
      rcases List.mem_cons.1 hv with rfl | hv
      · exact Or.inl hroot
      · exact Or.inr hv

/-- A step keeps the invariant. -/
theorem Valid.step (h : Valid g s) (hstep : s.step? g = some s') : Valid g s' := by
  unfold step? at hstep
  split at hstep
  · rename_i hframes
    dsimp only at hstep
    split at hstep
    · rename_i hindex
      obtain rfl := Option.some_inj.1 hstep
      exact h.look_new hframes hindex
    · rename_i hindex
      obtain rfl := Option.some_inj.1 hstep
      exact h.look_old hframes hindex
  · rename_i hframes
    obtain rfl := Option.some_inj.1 hstep
    exact h.leave hframes
  · rename_i hframes
    split at hstep
    · cases hstep
    · rename_i root roots hroots
      obtain rfl := Option.some_inj.1 hstep
      split
      · rename_i hindex
        have hnew : ¬s.Entered root := by
          rw [not_entered_iff]
          exact Option.isNone_iff_eq_none.1 hindex
        have henter := h.enter hnew fun u hu => by
          simp [Search.visiting, hframes] at hu
        exact henter.skip hroots ((entered_enter s root root).2 (Or.inl rfl))
      · rename_i hindex
        refine h.skip hroots ?_
        by_contra hnew
        exact hindex (Option.isNone_iff_eq_none.2 (not_entered_iff.1 hnew))

/-! ### The number of steps -/

/-- The steps that a search can still take: one for each starting point, for each node that is not
entered and each visit that has not ended, and for each edge that is still to be looked at. -/
def remaining (g : Graph n) (s : Search n) : ℕ :=
  s.roots.length +
    (∑ v, if s.index.get v = none then (g.successors.get v).length + 1 else 0) +
    (s.frames.map fun frame => frame.2.length + 1).sum

/-- Entering a node turns what the node costs into what its visit costs. -/
theorem remaining_enter {node : Fin n} (hnew : s.index.get node = none) :
    remaining g (s.enter g node) = remaining g s := by
  have hother : ∀ v ∈ Finset.univ.erase node, (s.enter g node).index.get v = s.index.get v := by
    intro v hv
    rw [enter, NodeMap.get_set, if_neg (Finset.ne_of_mem_erase hv).symm]
  have hself : (s.enter g node).index.get node ≠ none := by
    rw [enter, NodeMap.get_set_self]
    exact Option.some_ne_none _
  have hrest := Finset.sum_congr rfl fun v hv =>
    congrArg (fun index => if index = none then (g.successors.get v).length + 1 else 0) (hother v hv)
  rw [remaining, remaining, ← Finset.add_sum_erase _ _ (Finset.mem_univ node),
    ← Finset.add_sum_erase _ _ (Finset.mem_univ node), hrest, if_neg hself, if_pos hnew]
  simp only [enter, List.map_cons, List.sum_cons]
  omega

theorem remaining_leave (s : Search n) (node : Fin n) :
    remaining g (s.leave node) = remaining g s := by
  cases hframes : s.frames <;> simp only [leave, hframes] <;> split <;> rfl

/-- Every step uses up one of the steps that remain. -/
theorem remaining_step (hstep : s.step? g = some s') : remaining g s' + 1 = remaining g s := by
  unfold step? at hstep
  split at hstep
  · rename_i node next rest frames hframes
    have hlook : remaining g { s with frames := (node, rest) :: frames } + 1 = remaining g s := by
      simp only [remaining, hframes, List.map_cons, List.sum_cons, List.length_cons]
      omega
    dsimp only at hstep
    split at hstep
    · rename_i hindex
      obtain rfl := Option.some_inj.1 hstep
      rw [remaining_enter (s := { s with frames := (node, rest) :: frames }) hindex, hlook]
    · obtain rfl := Option.some_inj.1 hstep
      rw [← hlook]
      split <;> rfl
  · rename_i node frames hframes
    obtain rfl := Option.some_inj.1 hstep
    rw [remaining_leave]
    simp only [remaining, hframes, List.map_cons, List.sum_cons, List.length_nil]
    omega
  · split at hstep
    · cases hstep
    · rename_i root roots hroots
      have htry : remaining g { s with roots } + 1 = remaining g s := by
        simp only [remaining, hroots, List.length_cons]
        omega
      obtain rfl := Option.some_inj.1 hstep
      split
      · rename_i hindex
        rw [remaining_enter (s := { s with roots }) (Option.isNone_iff_eq_none.1 hindex), htry]
      · exact htry

theorem remaining_start (g : Graph n) : remaining g (start n) = 2 * n + g.size := by
  have hlength : g.size = ∑ v, (g.successors.get v).length := by
    rw [Graph.size, NodeMap.toList_eq_map_get, List.length_flatten, List.map_map, Fin.sum_univ_def]
    rfl
  simp only [remaining, start, NodeMap.get_const, if_true, List.length_finRange, List.map_nil,
    List.sum_nil, Finset.sum_add_distrib, ← hlength, Finset.sum_const, Finset.card_univ,
    Fintype.card_fin, smul_eq_mul]
  omega

/-- With as many steps as remain, a search comes to its end. -/
theorem valid_run {fuel : ℕ} (h : Valid g s) (hfuel : remaining g s ≤ fuel) :
    Valid g (run g fuel s) ∧ (run g fuel s).step? g = none := by
  induction fuel generalizing s with
  | zero =>
      refine ⟨h, ?_⟩
      by_contra hne
      obtain ⟨s', hstep⟩ := Option.ne_none_iff_exists'.1 hne
      have hone := remaining_step hstep
      simp only [run] at hone
      omega
  | succ fuel ih =>
      cases hstep : s.step? g with
      | none =>
          simp only [run, hstep]
          exact ⟨h, trivial⟩
      | some s' =>
          simp only [run, hstep]
          have := remaining_step hstep
          exact ih (h.step hstep) (by omega)

theorem frames_eq_nil_of_step? (h : s.step? g = none) : s.frames = [] ∧ s.roots = [] := by
  unfold step? at h
  split at h
  · dsimp only at h
    split at h <;> cases h
  · cases h
  · rename_i hframes
    split at h
    · rename_i hroots
      exact ⟨hframes, hroots⟩
    · cases h

end Search

/-! ### The components of the finished search -/

theorem valid_search (g : Graph n) : Search.Valid g g.search ∧ g.search.step? g = none :=
  Search.valid_run (Search.valid_start g) (Search.remaining_start g).le

/-- Every node is in some component. -/
theorem mem_components (g : Graph n) (v : Fin n) : ∃ c ∈ g.search.components, v ∈ c := by
  obtain ⟨h, hend⟩ := valid_search g
  obtain ⟨hframes, hroots⟩ := Search.frames_eq_nil_of_step? hend
  have hentered : g.search.Entered v :=
    (h.roots v).resolve_right (by rw [hroots]; exact List.not_mem_nil)
  rcases (h.entered v).1 hentered with hv | hv
  · -- without a visit there is no node on the stack
    obtain ⟨u, hu⟩ := h.owner v hv
    have hvisiting := hu.visiting
    rw [Search.visiting, hframes] at hvisiting
    cases hvisiting
  · exact List.mem_flatten.1 hv

theorem nodup_components (g : Graph n) : g.search.components.flatten.Nodup :=
  (List.nodup_append.1 (valid_search g).1.nodup).2.1

theorem Enclosed.mem_of_reaches {components : List (List (Fin n))} (h : g.Enclosed components)
    {u v : Fin n} (hu : u ∈ components.flatten) (huv : g.Reaches u v) : v ∈ components.flatten := by
  have hedge : ∀ {a b : Fin n}, a ∈ components.flatten → g.Edge a b → b ∈ components.flatten := by
    clear hu huv
    induction components with
    | nil => exact fun ha _ => absurd ha List.not_mem_nil
    | cons first finished ih =>
        intro a b ha hab
        rw [List.flatten_cons, List.mem_append] at ha ⊢
        rcases ha with ha | ha
        · exact h.1 a ha b hab
        · exact Or.inr (ih h.2 ha hab)
  induction huv with
  | refl => exact hu
  | tail _ hab ih => exact hedge ih hab

/-- A walk that leaves a component never comes back to it. -/
theorem Enclosed.mem_of_cycle {components : List (List (Fin n))} (h : g.Enclosed components)
    (hnodup : components.flatten.Nodup) {c : List (Fin n)} (hc : c ∈ components) {u v : Fin n}
    (hu : u ∈ c) (huv : g.Reaches u v) (hvu : g.Reaches v u) : v ∈ c := by
  induction components with
  | nil => cases hc
  | cons first finished ih =>
      rw [List.flatten_cons, List.nodup_append] at hnodup
      rcases List.mem_cons.1 hc with rfl | hc
      · have hmem := h.mem_of_reaches (List.mem_append_left _ hu) huv
        refine (List.mem_append.1 hmem).resolve_right fun hv => ?_
        -- the way back would end among the components that were finished before
        exact hnodup.2.2 u hu u (h.2.mem_of_reaches hv hvu) rfl
      · exact ih h.2 hnodup.2.1 hc

/-- The components are the strongly connected ones. -/
theorem mem_component_iff {c : List (Fin n)} (hc : c ∈ g.search.components) {u v : Fin n}
    (hu : u ∈ c) : v ∈ c ↔ g.Reaches u v ∧ g.Reaches v u := by
  have h := (valid_search g).1
  constructor
  · intro hv
    exact ⟨h.connected c hc u hu v hv, h.connected c hc v hv u hu⟩
  · rintro ⟨huv, hvu⟩
    exact h.enclosed.mem_of_cycle (nodup_components g) hc hu huv hvu

/-- A component whose nodes are on a walk that comes back to where it started holds a cycle. -/
theorem isCyclic_of_transGen {c : List (Fin n)} (hc : c ∈ g.search.components) {v : Fin n}
    (hv : v ∈ c) (hcycle : Relation.TransGen g.Edge v v) : g.isCyclic c = true := by
  match c, hv with
  | [node], hv =>
      obtain rfl := List.mem_singleton.1 hv
      obtain ⟨w, hvw, hwv⟩ := Relation.TransGen.head'_iff.1 hcycle
      have hw : w ∈ [v] := (mem_component_iff hc hv).2 ⟨.single hvw, hwv⟩
      obtain rfl := List.mem_singleton.1 hw
      exact decide_eq_true hvw
  | _ :: _ :: _, _ => rfl

theorem cycles_ne_nil_of_not_acyclic (h : ¬g.Acyclic) : g.cycles ≠ [] := by
  obtain ⟨v, hcycle⟩ := not_forall.1 h
  obtain ⟨c, hc, hv⟩ := mem_components g v
  have hmem : c ∈ g.search.components.filter g.isCyclic :=
    List.mem_filter.2 ⟨hc, isCyclic_of_transGen hc hv (not_not.1 hcycle)⟩
  intro hnil
  have hlength := congrArg List.length hnil
  simp only [cycles, List.length_mergeSort, List.length_map, List.length_nil,
    List.length_eq_zero_iff] at hlength
  rw [hlength] at hmem
  cases hmem

theorem eq_cycles_of_topologicalOrder_eq_error {cycles : List (List (Fin n))}
    (h : g.topologicalOrder = .error cycles) : cycles = g.cycles := by
  simp only [topologicalOrder] at h
  split at h
  · cases h
  · cases h
    rfl

/-- An order is refused only together with cycles to report. -/
theorem ne_nil_of_topologicalOrder_eq_error {cycles : List (List (Fin n))}
    (h : g.topologicalOrder = .error cycles) : cycles ≠ [] := by
  rw [eq_cycles_of_topologicalOrder_eq_error h]
  refine cycles_ne_nil_of_not_acyclic fun hacyclic => ?_
  obtain ⟨order, hok⟩ := topologicalOrder_isOk_iff.2 hacyclic
  cases hok.symm.trans h

end FeatureGuard.Graph

import FeatureGuard.Command.Report
import FeatureGuard.Proofs.Feature.Schedule
import FeatureGuard.Proofs.Feature.Settlement

/-!
The arrangement of the rules in a settlement. Implications are sorted by the places of their
antecedents in the least schedule, and those that repeat another one are left out and reported: of
implications with the same ends the one that was written first is kept. Derivations are sorted by
the places of their features. Rules with the same place stay in the order in which they were
written.
-/

namespace FeatureGuard

open Sifted (IsNew)

/-! ### Sorting by rank -/

/-- Rules with their places in a list, sorted by rank and, where the rank is the same, by place. -/
structure Ranked {Rule : Type} (rank : Rule → ℕ) (rules : List Rule) (sorted : List (Rule × ℕ)) :
    Prop where
  perm : sorted.Perm rules.zipIdx
  increasing : sorted.Pairwise fun a b => rank a.1 < rank b.1 ∨ rank a.1 = rank b.1 ∧ a.2 < b.2

section Ranking

variable {Rule κ : Type} {rules : List Rule} {rank : Rule → ℕ} {sorted : List (Rule × ℕ)}

theorem ranked_mergeSort (rank : Rule → ℕ) (rules : List Rule) : Ranked rank rules
    (rules.zipIdx.mergeSort (List.zipIdxLE fun a b => decide (rank a ≤ rank b))) := by
  have hperm := List.mergeSort_perm rules.zipIdx (List.zipIdxLE fun a b => decide (rank a ≤ rank b))
  refine ⟨hperm, ?_⟩
  have htrans : ∀ a b c : Rule, decide (rank a ≤ rank b) = true →
      decide (rank b ≤ rank c) = true → decide (rank a ≤ rank c) = true := by
    intro a b c hab hbc
    rw [decide_eq_true_eq] at hab hbc ⊢
    exact hab.trans hbc
  have htotal : ∀ a b : Rule, (decide (rank a ≤ rank b) || decide (rank b ≤ rank a)) = true := by
    intro a b
    rw [Bool.or_eq_true, decide_eq_true_eq, decide_eq_true_eq]
    exact le_total (rank a) (rank b)
  have hsorted := List.pairwise_mergeSort (List.zipIdxLE_trans htrans)
    (List.zipIdxLE_total htotal) rules.zipIdx
  have hplaces := List.pairwise_map.1
    ((hperm.map Prod.snd).nodup_iff.2 (List.nodup_zipIdx_map_snd rules))
  refine (hsorted.and hplaces).imp fun {a b} hab => ?_
  obtain ⟨hle, hne⟩ := hab
  simp only [List.zipIdxLE, decide_eq_true_eq] at hle
  split_ifs at hle with hab hba
  · rw [decide_eq_true_eq] at hle
    omega
  · omega

theorem exists_ranked {order : List Name} (h : order.Nodup) (name : Rule → Name)
    (rules : List Rule) : ∃ sorted, Ranked (fun rule => order.idxOf (name rule)) rules sorted ∧
      sorted.map Prod.fst = RuleSet.sortByRank name order rules := by
  simp only [RuleSet.sortByRank, RuleSet.getD_ranks h]
  exact ⟨_, ranked_mergeSort _ rules, List.mergeSort_zipIdx⟩

/-- Where rules with the same key have the same rank, the first of them in the list is the first of
them when the list is sorted. -/
theorem Ranked.isNew_iff (h : Ranked rank rules sorted) {key : Rule → κ}
    (hkey : ∀ a b, key a = key b → rank a = rank b) {before behind : List (Rule × ℕ)}
    {c : Rule × ℕ} (hsplit : sorted = before ++ c :: behind) :
    IsNew key rules c ↔ ∀ b ∈ before, key b.1 ≠ key c.1 := by
  subst hsplit
  obtain ⟨-, hbehind, hbefore⟩ := List.pairwise_append.1 h.increasing
  constructor
  · intro hnew b hb heq
    have hplace : b.2 < c.2 := by
      have := hbefore b hb c List.mem_cons_self
      have := hkey _ _ heq
      omega
    have hget : rules[b.2]? = some b.1 :=
      List.mem_zipIdx_iff_getElem?.1 (h.perm.mem_iff.1 (List.mem_append_left _ hb))
    refine hnew b.1 (List.mem_of_getElem? (i := b.2) ?_) heq
    rw [List.getElem?_take_of_lt hplace, hget]
  · intro hall earlier hearlier heq
    obtain ⟨place, hplace, hget⟩ := List.mem_take_iff_getElem.1 hearlier
    have hlt : place < c.2 := lt_of_lt_of_le hplace (min_le_left _ _)
    have hmem : (earlier, place) ∈ before ++ c :: behind := by
      rw [h.perm.mem_iff, List.mem_zipIdx_iff_getElem?]
      exact List.getElem?_eq_some_iff.2 ⟨_, hget⟩
    rcases List.mem_append.1 hmem with hmem | hmem
    · exact hall _ hmem heq
    · rcases List.mem_cons.1 hmem with rfl | hmem
      · exact lt_irrefl _ hlt
      · have := (List.pairwise_cons.1 hbehind).1 _ hmem
        have := hkey _ _ heq
        dsimp only at *
        omega

end Ranking

/-! ### Settlements -/

/-- The ends of an implication. -/
def Implication.ends (i : Implication) : Name × Name := (i.antecedent, i.consequent)

/-- The rules of a settlement are those of a rule set, arranged by an order of the names. A name
that is not in the order has its place behind all others. -/
structure Settlement.Arranged (s : Settlement) (r : RuleSet) (order : List Name) : Prop where
  implications : ∃ sorted, Ranked (fun i => order.idxOf i.antecedent) r.implications sorted ∧
    s.implications = (sorted.filter (IsNew Implication.ends r.implications ·)).map Prod.fst ∧
    s.repeated = (sorted.filter (¬IsNew Implication.ends r.implications ·)).map Prod.fst
  derivations : ∃ sorted, Ranked (fun d => order.idxOf d.feature) r.derivations sorted ∧
    s.derivations = sorted.map Prod.fst
  requirements : s.requirements = r.requirements

namespace RuleSet

variable {r : RuleSet} {s : Settlement}

theorem sameEnds_eq_iff_ends_eq {i j : Implication} : sameEnds i j = .eq ↔ i.ends = j.ends := by
  rw [sameEnds_eq_iff, Implication.ends, Implication.ends, Prod.mk.injEq]

theorem arranged_arrange {order : List Name} (h : order.Nodup) :
    (r.arrange order).Arranged r order where
  implications := by
    obtain ⟨sorted, hranked, hsorted⟩ := exists_ranked h Implication.antecedent r.implications
    have hsifted : Sifted.ofList sameEnds (sortByRank Implication.antecedent order r.implications) =
        ⟨(sorted.filter (IsNew Implication.ends r.implications ·)).map Prod.fst,
          (sorted.filter (¬IsNew Implication.ends r.implications ·)).map Prod.fst⟩ := by
      rw [← hsorted]
      refine Sifted.ofList_map fun before c behind hsplit => ?_
      simp only [ne_eq, sameEnds_eq_iff_ends_eq]
      refine hranked.isNew_iff (fun i j heq => ?_) hsplit
      have hantecedents : i.antecedent = j.antecedent := congrArg Prod.fst heq
      rw [hantecedents]
    exact ⟨sorted, hranked, congrArg Sifted.first hsifted, congrArg Sifted.repeated hsifted⟩
  derivations := by
    obtain ⟨sorted, hranked, hsorted⟩ := exists_ranked h Derivation.feature r.derivations
    exact ⟨sorted, hranked, hsorted.symm⟩
  requirements := rfl

/-! ### What is kept and what is reported -/

/-- Of the implications with the same ends the first one is kept. -/
theorem find?_of_arranged {order : List Name} (h : s.Arranged r order) {i : Implication}
    (hi : i ∈ s.implications) : r.implications.find? (·.ends = i.ends) = some i := by
  obtain ⟨sorted, hranked, himplications, -⟩ := h.implications
  rw [himplications, List.mem_map] at hi
  obtain ⟨⟨j, place⟩, hmem, rfl⟩ := hi
  obtain ⟨hsorted, hnew⟩ := List.mem_filter.1 hmem
  exact Sifted.exists_isNew_iff.1 ⟨place, hranked.perm.mem_iff.1 hsorted, of_decide_eq_true hnew⟩

/-- Every pair of ends that some implication has is kept once. -/
theorem perm_ends (h : r.settle = .ok s) :
    (s.implications.map Implication.ends).Perm (r.implications.map Implication.ends).dedup := by
  have hnodup : (s.implications.map Implication.ends).Nodup := by
    obtain ⟨-, order, -, rfl⟩ := settle_eq_ok_iff.1 h
    refine List.pairwise_map.2 ((Sifted.pairwise_first _ _).imp fun {i j} hij => ?_)
    exact mt sameEnds_eq_iff_ends_eq.2 hij
  refine (List.perm_ext_iff_of_nodup hnodup (List.nodup_dedup _)).2 fun ends => ?_
  rw [List.mem_dedup, List.mem_map, List.mem_map]
  constructor
  · rintro ⟨i, hi, rfl⟩
    exact ⟨i, mem_of_mem_implications h hi, rfl⟩
  · rintro ⟨i, hi, rfl⟩
    obtain ⟨j, hj, hantecedent, hconsequent⟩ := exists_mem_implications h hi
    exact ⟨j, hj, Prod.ext hantecedent hconsequent⟩

/-- The warning that an implication is left out. -/
def leftOutWarning (i : Implication) : Log.Event where
  level := .warn
  target := "featurec::engine"
  message := "Ignoring repeated implication " ++ i.antecedent.text ++ " implies " ++
    i.consequent.text
  fields := [("line", Text.ofNat i.line)]

theorem warnings_settling (s : Settlement) :
    (Report.settling (.ok s)).filter (·.level = .warn) = s.repeated.map leftOutWarning := by
  have hwarnings : ∀ e ∈ s.repeated.map leftOutWarning, decide (e.level = .warn) = true :=
    List.forall_mem_map.2 fun _ _ => rfl
  have hrest : ∀ e ∈ [Report.rulesSettled s], ¬decide (e.level = .warn) = true :=
    List.forall_mem_singleton.2 Bool.false_ne_true
  show (s.repeated.map leftOutWarning ++ [Report.rulesSettled s]).filter _ = _
  rw [List.filter_append, List.filter_eq_self.2 hwarnings, List.filter_eq_nil_iff.2 hrest,
    List.append_nil]

/-- A settlement keeps every pair of ends of an implication once, in the implication that was
written first. Its rules are arranged by the least schedule of the names, and each implication that
is left out is reported in a warning with its own line. -/
theorem settle_arranges (h : r.settle = .ok s) :
    (s.implications.map Implication.ends).Perm (r.implications.map Implication.ends).dedup ∧
      (∀ i ∈ s.implications, r.implications.find? (·.ends = i.ends) = some i) ∧
      (∃ order, r.Canonical order ∧ s.Arranged r order) ∧
      (Report.settling r.settle).filter (·.level = .warn) = s.repeated.map leftOutWarning := by
  have hends := perm_ends h
  rw [h, warnings_settling]
  obtain ⟨-, order, horder, rfl⟩ := settle_eq_ok_iff.1 h
  have harranged : (r.arrange order).Arranged r order :=
    arranged_arrange (nodup_of_order_eq_ok horder)
  exact ⟨hends, fun _ => find?_of_arranged harranged, ⟨order, canonical_of_order horder, harranged⟩,
    rfl⟩

/-- Implications that repeat others further up, and derivations that stand in front of those they
refer to. -/
def repetitive : RuleSet :=
  let k : Name := ⟨"K", rfl⟩
  let l : Name := ⟨"L", rfl⟩
  let m : Name := ⟨"M", rfl⟩
  let s : Name := ⟨"S", rfl⟩
  let t : Name := ⟨"T", rfl⟩
  { declarations := [⟨m, .basic, 1⟩, ⟨l, .basic, 2⟩, ⟨k, .basic, 3⟩, ⟨t, .derived, 9⟩,
      ⟨s, .derived, 10⟩]
    implications := [⟨l, m, 4⟩, ⟨k, l, 5⟩, ⟨l, m, 6⟩, ⟨k, m, 7⟩, ⟨k, l, 8⟩]
    derivations := [⟨t, ⟨"S", "defined(S)", [s]⟩, 9⟩, ⟨s, ⟨"L", "defined(L)", [l]⟩, 10⟩] }

/-- In the least schedule `K` comes before `L`, and `L` before `M` and `S`. -/
def repetitiveSettled : Settlement where
  externals := []
  basics := [⟨"M", rfl⟩, ⟨"L", rfl⟩, ⟨"K", rfl⟩]
  derived := [⟨"T", rfl⟩, ⟨"S", rfl⟩]
  implications := [⟨⟨"K", rfl⟩, ⟨"L", rfl⟩, 5⟩, ⟨⟨"K", rfl⟩, ⟨"M", rfl⟩, 7⟩,
    ⟨⟨"L", rfl⟩, ⟨"M", rfl⟩, 4⟩]
  derivations := [⟨⟨"S", rfl⟩, ⟨"L", "defined(L)", [⟨"L", rfl⟩]⟩, 10⟩,
    ⟨⟨"T", rfl⟩, ⟨"S", "defined(S)", [⟨"S", rfl⟩]⟩, 9⟩]
  requirements := []
  repeated := [⟨⟨"K", rfl⟩, ⟨"L", rfl⟩, 8⟩, ⟨⟨"L", rfl⟩, ⟨"M", rfl⟩, 6⟩]

theorem settle_arranges_repetitive : repetitive.settle = .ok repetitiveSettled ∧
    (∃ order, repetitive.Canonical order ∧ repetitiveSettled.Arranged repetitive order) ∧
      (Report.settling repetitive.settle).filter (·.level = .warn) =
        [leftOutWarning ⟨⟨"K", rfl⟩, ⟨"L", rfl⟩, 8⟩, leftOutWarning ⟨⟨"L", rfl⟩, ⟨"M", rfl⟩, 6⟩] := by
  have hsettle : repetitive.settle = .ok repetitiveSettled := by cbv
  obtain ⟨-, -, harranged, hwarnings⟩ := settle_arranges hsettle
  exact ⟨hsettle, harranged, hwarnings⟩

end RuleSet

end FeatureGuard

import Mathlib.Data.List.Sort
import FeatureGuard.Proofs.Feature.Acceptance

/-!
The order of the rules in a settlement. Rules are sorted by the place of a name in the order of the
names, so that a rule never decides a feature that an earlier rule, or the rule itself, has looked
at. Apart from implications that repeat another, no rule is lost and none is added.
-/

namespace FeatureGuard.RuleSet

/-! ### Sorting by rank -/

section Sorting

variable {order : List Name} {Rule : Type} {name : Rule → Name} {rules : List Rule}

theorem getD_ranks (h : order.Nodup) (name : Name) :
    (ranks order).getD name order.length = order.idxOf name := by
  rw [ranks]
  by_cases hmem : name ∈ order
  · refine Std.TreeMap.getD_ofList_of_mem Std.ReflCmp.compare_self ?_ ?_
    · rw [← List.pairwise_map (f := Prod.fst) (R := fun a b => ¬compare a b = .eq),
        List.zipIdx_map_fst]
      exact h.imp fun hne heq => hne (Std.LawfulEqCmp.eq_of_compare heq)
    · rw [List.mem_zipIdx_iff_getElem?]
      exact List.getElem?_idxOf hmem
  · rw [List.idxOf_eq_length_iff.2 hmem]
    apply Std.TreeMap.getD_ofList_of_contains_eq_false
    rw [List.zipIdx_map_fst]
    simpa using hmem

theorem perm_sortByRank : (sortByRank name order rules).Perm rules :=
  List.mergeSort_perm _ _

theorem mem_sortByRank {rule : Rule} : rule ∈ sortByRank name order rules ↔ rule ∈ rules :=
  perm_sortByRank.mem_iff

theorem pairwise_sortByRank (h : order.Nodup) :
    (sortByRank name order rules).Pairwise fun a b =>
      order.idxOf (name a) ≤ order.idxOf (name b) := by
  simp only [sortByRank, getD_ranks h]
  exact List.pairwise_mergeSort' (Order.Preimage (fun rule => order.idxOf (name rule)) (· ≤ ·)) rules

end Sorting

variable {r : RuleSet} {s : Settlement}

/-! ### Implications -/

theorem sameEnds_eq_iff {i j : Implication} :
    sameEnds i j = .eq ↔ i.antecedent = j.antecedent ∧ i.consequent = j.consequent := by
  rw [sameEnds, compareLex_eq_eq]
  simp only [compareOn, Std.LawfulEqCmp.compare_eq_iff_eq]

instance : Std.TransCmp sameEnds := inferInstanceAs (Std.TransCmp (compareLex _ _))

theorem mem_of_mem_implications (h : r.settle = .ok s) {i : Implication}
    (hi : i ∈ s.implications) : i ∈ r.implications := by
  obtain ⟨-, order, -, rfl⟩ := settle_eq_ok_iff.1 h
  exact mem_sortByRank.1 (Sifted.mem_of_mem_first hi)

/-- Where an implication is left out, another one with the same ends is kept. -/
theorem exists_mem_implications (h : r.settle = .ok s) {i : Implication}
    (hi : i ∈ r.implications) :
    ∃ j ∈ s.implications, j.antecedent = i.antecedent ∧ j.consequent = i.consequent := by
  obtain ⟨-, order, -, rfl⟩ := settle_eq_ok_iff.1 h
  have hsorted : i ∈ sortByRank Implication.antecedent order r.implications :=
    mem_sortByRank.2 hi
  have hfirst : ∃ j ∈ (r.arrange order).implications, sameEnds j i = .eq :=
    Sifted.exists_mem_first_ofList hsorted
  obtain ⟨j, hj, heq⟩ := hfirst
  exact ⟨j, hj, sameEnds_eq_iff.1 heq⟩

theorem Consistent.precedes (h : r.Consistent) {i : Implication} (hi : i ∈ r.implications) :
    r.Precedes i.antecedent i.consequent :=
  ⟨(h.implications i hi).1, (h.implications i hi).2, Or.inl ⟨i, hi, rfl, rfl⟩⟩

/-- An implication switches on neither its own antecedent nor that of an earlier one. -/
theorem pairwise_implications (h : r.settle = .ok s) :
    (∀ i ∈ s.implications, i.consequent ≠ i.antecedent) ∧
      s.implications.Pairwise fun i j => j.consequent ≠ i.antecedent := by
  have hlt : ∀ {order}, r.order = .ok order → ∀ i ∈ s.implications,
      order.idxOf i.antecedent < order.idxOf i.consequent := by
    intro order horder i hi
    have hprecedes := (consistent_of_settle_eq_ok h).precedes (mem_of_mem_implications h hi)
    exact idxOf_lt_of_precedes horder hprecedes
  obtain ⟨-, order, horder, hs⟩ := settle_eq_ok_iff.1 h
  constructor
  · intro i hi heq
    have := hlt horder i hi
    rw [heq] at this
    omega
  · have hsorted : s.implications.Pairwise fun i j =>
        order.idxOf i.antecedent ≤ order.idxOf j.antecedent := by
      rw [hs]
      exact (pairwise_sortByRank (nodup_of_order_eq_ok horder)).sublist (Sifted.first_sublist _ _)
    refine hsorted.imp_of_mem fun {i j} _ hj hij heq => ?_
    have := hlt horder j hj
    rw [heq] at this
    omega

/-! ### Derivations -/

theorem perm_derivations (h : r.settle = .ok s) : s.derivations.Perm r.derivations := by
  obtain ⟨-, order, -, rfl⟩ := settle_eq_ok_iff.1 h
  exact perm_sortByRank

/-- In the order of the names, a feature that is derived comes after all names that its condition
refers to. A feature that is not declared comes last. -/
theorem idxOf_reference_lt (h : r.Consistent) {order : List Name} (horder : r.order = .ok order)
    {d : Derivation} (hd : d ∈ r.derivations) {name : Name} (hname : name ∈ d.condition.references) :
    order.idxOf name < order.idxOf d.feature := by
  have hdeclared : r.Declared name := h.derivations d hd name hname
  by_cases hfeature : r.Declared d.feature
  · exact idxOf_lt_of_precedes horder ⟨hdeclared, hfeature, Or.inr ⟨d, hd, hname, rfl⟩⟩
  · -- the index of a name that is not in the order is the length of the order
    rw [← mem_order horder, ← List.idxOf_eq_length_iff] at hfeature
    rw [hfeature, List.idxOf_lt_length_iff, mem_order horder]
    exact hdeclared

/-- A derivation decides neither a name that its own condition refers to nor one that the condition
of an earlier derivation refers to. -/
theorem pairwise_derivations (h : r.settle = .ok s) :
    (∀ d ∈ s.derivations, d.feature ∉ d.condition.references) ∧
      s.derivations.Pairwise fun d e => e.feature ∉ d.condition.references := by
  have hconsistent := consistent_of_settle_eq_ok h
  have hperm := perm_derivations h
  obtain ⟨-, order, horder, hs⟩ := settle_eq_ok_iff.1 h
  constructor
  · intro d hd hmem
    exact (idxOf_reference_lt hconsistent horder (hperm.subset hd) hmem).false
  · have hsorted : s.derivations.Pairwise fun d e =>
        order.idxOf d.feature ≤ order.idxOf e.feature := by
      rw [hs]
      exact pairwise_sortByRank (nodup_of_order_eq_ok horder)
    refine hsorted.imp_of_mem fun {d e} hd _ hde hmem => ?_
    have := idxOf_reference_lt hconsistent horder (hperm.subset hd) hmem
    omega

/-! ### A small rule set -/

/-- Rules in which a chain of implications stands in the wrong order. -/
def specimen : RuleSet :=
  let a : Name := ⟨"A", rfl⟩
  let b : Name := ⟨"B", rfl⟩
  let c : Name := ⟨"C", rfl⟩
  let d : Name := ⟨"D", rfl⟩
  let e : Name := ⟨"E", rfl⟩
  { declarations := [⟨e, .external, 1⟩, ⟨a, .basic, 2⟩, ⟨b, .basic, 3⟩, ⟨c, .basic, 4⟩,
      ⟨d, .derived, 7⟩]
    implications := [⟨b, c, 5⟩, ⟨a, b, 6⟩]
    derivations := [⟨d, ⟨"C and not E", "defined(C) && !defined(E)", [c, e]⟩, 7⟩] }

theorem exists_settle_specimen : ∃ s, specimen.settle = .ok s := by
  refine exists_settle_iff.2 ⟨by decide +kernel, ?_⟩
  apply acyclic_of_rank fun name => ["A", "B", "C", "E"].idxOf (String.ofList name.text)
  · decide +kernel
  · decide +kernel

end FeatureGuard.RuleSet

import Mathlib.Order.Bounds.Defs
import FeatureGuard.Proofs.Artifact.Header
import FeatureGuard.Proofs.Feature.Settlement
import FeatureGuard.Proofs.Preprocessor.Pass

/-!
Propagation. Going once through the implications of a settlement defines exactly what follows from
the macros that are defined at the start: no implication switches on the antecedent of an earlier
one, so that none has to be looked at again.
-/

namespace FeatureGuard

/-- Names with which every implication of a rule set is satisfied. -/
def RuleSet.Closed (r : RuleSet) (names : Set Text) : Prop :=
  ∀ i ∈ r.implications, i.antecedent.text ∈ names → i.consequent.text ∈ names

namespace Macros

variable {m : Macros} {x : Text} {implications : List Implication}

/-- The macros that are defined after the block of an implication. -/
def imply (m : Macros) (i : Implication) : Macros :=
  if i.antecedent.text ∈ m ∧ i.consequent.text ∉ m then m.define i.consequent.text else m

theorem mem_imply {i : Implication} :
    x ∈ m.imply i ↔ x ∈ m ∨ i.antecedent.text ∈ m ∧ x = i.consequent.text := by
  rw [imply]
  split
  · rename_i h
    rw [mem_define, and_iff_right h.1, or_comm]
  · rename_i h
    refine ⟨Or.inl, ?_⟩
    rintro (hx | ⟨hantecedent, rfl⟩)
    · exact hx
    · by_contra hx
      exact h ⟨hantecedent, hx⟩

theorem mem_foldl_imply_of_mem (hx : x ∈ m) : x ∈ implications.foldl imply m := by
  induction implications generalizing m with
  | nil => exact hx
  | cons i implications ih => exact ih (mem_imply.2 (Or.inl hx))

/-- A name that no implication switches on stays as it is. -/
theorem mem_foldl_imply_of_forall_ne (h : ∀ i ∈ implications, i.consequent.text ≠ x) :
    x ∈ implications.foldl imply m ↔ x ∈ m := by
  induction implications generalizing m with
  | nil => exact Iff.rfl
  | cons i implications ih =>
      obtain ⟨hi, hrest⟩ := List.forall_mem_cons.1 h
      rw [List.foldl_cons, ih hrest, mem_imply, or_iff_left]
      exact fun hx => hi hx.2.symm

/-- In the right order, implications that were gone through once are all satisfied. -/
theorem consequent_mem_foldl_imply
    (hself : ∀ i ∈ implications, i.consequent ≠ i.antecedent)
    (horder : implications.Pairwise fun i j => j.consequent ≠ i.antecedent) {i : Implication}
    (hi : i ∈ implications) (hantecedent : i.antecedent.text ∈ implications.foldl imply m) :
    i.consequent.text ∈ implications.foldl imply m := by
  induction implications generalizing m with
  | nil => cases hi
  | cons j implications ih =>
      obtain ⟨hj, hself⟩ := List.forall_mem_cons.1 hself
      obtain ⟨hlater, horder⟩ := List.pairwise_cons.1 horder
      rcases List.mem_cons.1 hi with rfl | hi
      · -- the antecedent was defined before the first block, so that block defines the consequent
        rw [List.foldl_cons] at hantecedent
        have hne : ∀ k ∈ implications, k.consequent.text ≠ i.antecedent.text :=
          fun k hk => Name.text_injective.ne (hlater k hk)
        rw [mem_foldl_imply_of_forall_ne hne, mem_imply] at hantecedent
        have hdefined : i.antecedent.text ∈ m := by
          refine hantecedent.resolve_right ?_
          rintro ⟨-, heq⟩
          exact Name.text_injective.ne hj heq.symm
        have hconsequent : i.consequent.text ∈ m.imply i := mem_imply.2 (Or.inr ⟨hdefined, rfl⟩)
        rw [List.foldl_cons]
        exact mem_foldl_imply_of_mem hconsequent
      · exact ih hself horder hi hantecedent

/-- Implications define nothing that would not follow from them. -/
theorem foldl_imply_subset {names : Set Text} (hm : (m : Set Text) ⊆ names)
    (hclosed : ∀ i ∈ implications, i.antecedent.text ∈ names → i.consequent.text ∈ names) :
    ((implications.foldl imply m : Macros) : Set Text) ⊆ names := by
  induction implications generalizing m with
  | nil => exact hm
  | cons i implications ih =>
      obtain ⟨hi, hrest⟩ := List.forall_mem_cons.1 hclosed
      refine ih ?_ hrest
      intro x hx
      rcases mem_imply.1 hx with hx | ⟨hantecedent, rfl⟩
      · exact hm hx
      · exact hi (hm hantecedent)

end Macros

namespace Pass

theorem run_implicationBlocks {files : Files} {p : Pass} (hp : p.skipped = 0) (s : Settlement) :
    run files p (Plan.implicationBlocks s) =
      { p with macros := s.implications.foldl Macros.imply p.macros } := by
  rw [Plan.implicationBlocks]
  induction s.implications generalizing p with
  | nil => rfl
  | cons i implications ih =>
      have hexecute : execute files p (.implication i.antecedent i.consequent) =
          { p with macros := p.macros.imply i } := by
        show (if p.skipped = 0 then _ else p) = _
        rw [if_pos hp, Macros.imply]
        split
        · rename_i h
          exact if_pos h
        · rename_i h
          exact if_neg h
      rw [List.map_cons, run_cons, hexecute]
      exact ih hp

end Pass

theorem RuleSet.isLeast_foldl_imply {r : RuleSet} {s : Settlement} (h : r.settle = .ok s)
    (m : Macros) : IsLeast {names : Set Text | (m : Set Text) ⊆ names ∧ r.Closed names}
      (s.implications.foldl Macros.imply m : Macros) := by
  obtain ⟨hself, horder⟩ := pairwise_implications h
  refine ⟨⟨fun x hx => Macros.mem_foldl_imply_of_mem hx, ?_⟩, ?_⟩
  · intro i hi hantecedent
    obtain ⟨j, hj, ha, hc⟩ := exists_mem_implications h hi
    rw [← ha] at hantecedent
    rw [← hc]
    exact Macros.consequent_mem_foldl_imply hself horder hj hantecedent
  · rintro names ⟨hm, hclosed⟩
    exact Macros.foldl_imply_subset hm fun i hi => hclosed i (mem_of_mem_implications h hi)

/-- Going once through the implications of the header defines exactly what follows, by all
implications of the definitions, from the macros that were defined before. -/
theorem RuleSet.isLeast_run_implications {r : RuleSet} {s : Settlement} (h : r.settle = .ok s)
    (o : Options) (files : Files) (start : Macros) :
    IsLeast {names : Set Text | (start : Set Text) ⊆ names ∧ r.Closed names}
      (Pass.run files { macros := start }
        (Directive.below "Handle implications" (Plan.ofSettlement s o).header)).macros := by
  rw [Plan.below_implications, Pass.run_implicationBlocks rfl]
  exact isLeast_foldl_imply h start

/-- `A` switches on `B`, and `B` in turn switches on `C`. -/
theorem RuleSet.isLeast_run_specimen : ∃ s, specimen.settle = .ok s ∧
    let final := Pass.run (fun _ => []) { macros := ⟨(· = "A")⟩ }
      (Directive.below "Handle implications" (Plan.ofSettlement s {}).header)
    ∀ x, x ∈ final.macros ↔ x = "A" ∨ x = "B" ∨ x = "C" := by
  obtain ⟨s, hs⟩ := exists_settle_specimen
  refine ⟨s, hs, ?_⟩
  intro final x
  obtain ⟨⟨hstart, hclosed⟩, hleast⟩ := isLeast_run_implications hs {} (fun _ => []) ⟨(· = "A")⟩
  constructor
  · intro hx
    have hchain : specimen.Closed {y : Text | y = "A" ∨ y = "B" ∨ y = "C"} :=
      List.forall_mem_cons.2 ⟨fun _ => .inr (.inr rfl),
        List.forall_mem_singleton.2 fun _ => .inr (.inl rfl)⟩
    exact hleast ⟨fun y hy => .inl (of_decide_eq_true hy), hchain⟩ hx
  · obtain ⟨hb, ha⟩ := List.forall_mem_cons.1 hclosed
    have hA : ("A" : Text) ∈ final.macros := hstart (decide_eq_true (rfl : ("A" : Text) = "A"))
    have hB : ("B" : Text) ∈ final.macros := List.forall_mem_singleton.1 ha hA
    rintro (rfl | rfl | rfl)
    · exact hA
    · exact hB
    · exact hb hB

end FeatureGuard

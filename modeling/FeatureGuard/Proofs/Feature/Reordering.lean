import FeatureGuard.Proofs.Feature.Settlement

/-!
Rules in another order. Two rule sets that hold the same rules, in different orders and on different
lines, are both consistent or both inconsistent, and names that are closed under the implications of
one are closed under those of the other.
-/

namespace FeatureGuard

/-! ### Rules without their lines -/

def Declaration.unplaced (d : Declaration) : Declaration := { d with line := 0 }

def Implication.unplaced (i : Implication) : Implication := { i with line := 0 }

def Derivation.unplaced (d : Derivation) : Derivation := { d with line := 0 }

def Requirement.unplaced (q : Requirement) : Requirement := { q with line := 0 }

/-- The same rules, apart from their order and their lines. -/
structure RuleSet.Reordered (r r' : RuleSet) : Prop where
  declarations : (r.declarations.map Declaration.unplaced).Perm
    (r'.declarations.map Declaration.unplaced)
  implications : (r.implications.map Implication.unplaced).Perm
    (r'.implications.map Implication.unplaced)
  derivations : (r.derivations.map Derivation.unplaced).Perm
    (r'.derivations.map Derivation.unplaced)
  requirements : (r.requirements.map Requirement.unplaced).Perm
    (r'.requirements.map Requirement.unplaced)

namespace RuleSet.Reordered

variable {r r' : RuleSet}

theorem symm (h : r.Reordered r') : r'.Reordered r where
  declarations := h.declarations.symm
  implications := h.implications.symm
  derivations := h.derivations.symm
  requirements := h.requirements.symm

section Unplaced

variable {α β : Type} {unplaced : α → α} {rules rules' : List α}

/-- A rule has a counterpart that only differs in its line. -/
theorem exists_unplaced_eq (h : (rules.map unplaced).Perm (rules'.map unplaced)) {rule : α}
    (hrule : rule ∈ rules) : ∃ rule' ∈ rules', unplaced rule' = unplaced rule :=
  List.mem_map.1 (h.subset (List.mem_map_of_mem hrule))

/-- What does not look at the line of a rule gives the same, in another order. -/
theorem perm_filterMap (h : (rules.map unplaced).Perm (rules'.map unplaced)) (f : α → Option β)
    (hf : f ∘ unplaced = f) : (rules.filterMap f).Perm (rules'.filterMap f) := by
  have hperm := h.filterMap f
  rwa [List.filterMap_map, List.filterMap_map, hf] at hperm

theorem perm_map (h : (rules.map unplaced).Perm (rules'.map unplaced)) (f : α → β)
    (hf : f ∘ unplaced = f) : (rules.map f).Perm (rules'.map f) := by
  have hperm := h.map f
  rwa [List.map_map, List.map_map, hf] at hperm

end Unplaced

theorem exists_implication (h : r.Reordered r') {i : Implication} (hi : i ∈ r.implications) :
    ∃ i' ∈ r'.implications, i'.antecedent = i.antecedent ∧ i'.consequent = i.consequent := by
  obtain ⟨i', hi', heq⟩ := exists_unplaced_eq h.implications hi
  obtain ⟨hantecedent, hconsequent, -⟩ := Implication.mk.inj heq
  exact ⟨i', hi', hantecedent, hconsequent⟩

theorem exists_derivation (h : r.Reordered r') {d : Derivation} (hd : d ∈ r.derivations) :
    ∃ d' ∈ r'.derivations, d'.feature = d.feature ∧ d'.condition = d.condition := by
  obtain ⟨d', hd', heq⟩ := exists_unplaced_eq h.derivations hd
  obtain ⟨hfeature, hcondition, -⟩ := Derivation.mk.inj heq
  exact ⟨d', hd', hfeature, hcondition⟩

theorem exists_requirement (h : r.Reordered r') {q : Requirement} (hq : q ∈ r.requirements) :
    ∃ q' ∈ r'.requirements, q'.feature = q.feature ∧ q'.condition = q.condition := by
  obtain ⟨q', hq', heq⟩ := exists_unplaced_eq h.requirements hq
  obtain ⟨hfeature, hcondition, -⟩ := Requirement.mk.inj heq
  exact ⟨q', hq', hfeature, hcondition⟩

/-! ### Declared names -/

theorem perm_names (h : r.Reordered r') :
    (r.declarations.map Declaration.name).Perm (r'.declarations.map Declaration.name) :=
  perm_map h.declarations Declaration.name rfl

theorem perm_declaredAs (h : r.Reordered r') (kind : Kind) :
    (r.declaredAs kind).Perm (r'.declaredAs kind) := by
  have hperm := (h.declarations.filter (·.kind = kind)).map Declaration.name
  rwa [List.filter_map, List.filter_map, List.map_map, List.map_map] at hperm

theorem declared_iff (h : r.Reordered r') {name : Name} : r.Declared name ↔ r'.Declared name := by
  show (∃ d ∈ r.declarations, d.name = name) ↔ ∃ d ∈ r'.declarations, d.name = name
  rw [← List.mem_map, ← List.mem_map, h.perm_names.mem_iff]

/-! ### Consistency -/

theorem precedes (h : r.Reordered r') {source target : Name} (hst : r.Precedes source target) :
    r'.Precedes source target := by
  obtain ⟨hsource, htarget, hrule⟩ := hst
  refine ⟨h.declared_iff.1 hsource, h.declared_iff.1 htarget, ?_⟩
  rcases hrule with ⟨i, hi, rfl, rfl⟩ | ⟨d, hd, hname, rfl⟩
  · exact Or.inl (h.exists_implication hi)
  · obtain ⟨d', hd', hfeature, hcondition⟩ := h.exists_derivation hd
    exact Or.inr ⟨d', hd', hcondition ▸ hname, hfeature⟩

theorem acyclic (h : r.Reordered r') (hr : r.Acyclic) : r'.Acyclic :=
  fun name hname => hr name (Relation.TransGen.mono (fun _ _ => h.symm.precedes) _ _ hname)

theorem consistent (h : r.Reordered r') (hr : r.Consistent) : r'.Consistent where
  unique := h.perm_names.nodup_iff.1 hr.unique
  implications i hi := by
    obtain ⟨j, hj, hantecedent, hconsequent⟩ := h.symm.exists_implication hi
    rw [← hantecedent, ← hconsequent, ← h.declared_iff, ← h.declared_iff]
    exact hr.implications j hj
  derivations d hd name hname := by
    obtain ⟨e, he, -, hcondition⟩ := h.symm.exists_derivation hd
    rw [← hcondition] at hname
    exact h.declared_iff.1 (hr.derivations e he name hname)
  requirements q hq := by
    obtain ⟨p, hp, hfeature, hcondition⟩ := h.symm.exists_requirement hq
    obtain ⟨hdeclared, hreferences⟩ := hr.requirements p hp
    rw [← hfeature, ← hcondition, ← h.declared_iff]
    exact ⟨hdeclared, fun name hname => h.declared_iff.1 (hreferences name hname)⟩
  consequents i hi := by
    obtain ⟨j, hj, -, hconsequent⟩ := h.symm.exists_implication hi
    rw [← hconsequent, ← (h.perm_declaredAs _).mem_iff, ← (h.perm_declaredAs _).mem_iff]
    exact hr.consequents j hj
  antecedents i hi := by
    obtain ⟨j, hj, hantecedent, -⟩ := h.symm.exists_implication hi
    rw [← hantecedent, ← (h.perm_declaredAs _).mem_iff]
    exact hr.antecedents j hj
  acyclic := h.acyclic hr.acyclic

theorem exists_settle (h : r.Reordered r') (hr : ∃ s, r.settle = .ok s) :
    ∃ s, r'.settle = .ok s := by
  rw [exists_settle_iff, ← consistent_iff] at hr ⊢
  exact h.consistent hr

end RuleSet.Reordered

end FeatureGuard

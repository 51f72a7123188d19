import FeatureGuard.Proofs.Feature.Settlement
import FeatureGuard.Proofs.Definitions.Document

/-!
What a settlement says about the rule set that it comes from. It lists every declared name once, by
its kind and in the order of the declarations, and its rules only use names on these lists. The
derivations are those of the rule set. Whether they go with the derived features is not looked at
when a rule set is settled: it is a property of the rule set, and the rule sets that are read from
documents have it.
-/

namespace FeatureGuard

/-- The names of a settlement are the declared names, and its rules use them by their kinds. -/
structure Settlement.Represents (s : Settlement) (r : RuleSet) : Prop where
  externals : s.externals = (r.declarations.filter (·.kind = .external)).map Declaration.name
  basics : s.basics = (r.declarations.filter (·.kind = .basic)).map Declaration.name
  derived : s.derived = (r.declarations.filter (·.kind = .derived)).map Declaration.name
  declared : ∀ name, name ∈ s.features ↔ ∃ d ∈ r.declarations, d.name = name
  unique : s.features.Nodup
  implications : ∀ i ∈ s.implications,
    (i.antecedent ∈ s.externals ∨ i.antecedent ∈ s.basics) ∧ i.consequent ∈ s.basics
  derivations : ∀ d ∈ s.derivations, ∀ name ∈ d.condition.references, name ∈ s.features
  requirements : ∀ q ∈ s.requirements,
    q.feature ∈ s.features ∧ ∀ name ∈ q.condition.references, name ∈ s.features

/-- Every one of some names has one derivation, and no other name has any. -/
structure Derivation.OneEach (derivations : List Derivation) (names : List Name) : Prop where
  feature_mem : ∀ d ∈ derivations, d.feature ∈ names
  unique : (derivations.map Derivation.feature).Nodup
  complete : ∀ name ∈ names, ∃ d ∈ derivations, d.feature = name

namespace Derivation.OneEach

variable {derivations derivations' : List Derivation} {names : List Name}

theorem of_perm (h : OneEach derivations names) (hperm : derivations.Perm derivations') :
    OneEach derivations' names where
  feature_mem d hd := h.feature_mem d (hperm.mem_iff.2 hd)
  unique := (hperm.map _).nodup_iff.1 h.unique
  complete name hname := by
    obtain ⟨d, hd, hfeature⟩ := h.complete name hname
    exact ⟨d, hperm.mem_iff.1 hd, hfeature⟩

/-- Where the names are distinct, they are the features of the derivations. -/
theorem iff_perm (hnames : names.Nodup) :
    OneEach derivations names ↔ (derivations.map Derivation.feature).Perm names := by
  constructor
  · intro h
    refine (List.perm_ext_iff_of_nodup h.unique hnames).2 fun name => ?_
    rw [List.mem_map]
    refine ⟨?_, h.complete name⟩
    rintro ⟨d, hd, rfl⟩
    exact h.feature_mem d hd
  · intro hperm
    refine ⟨fun d hd => hperm.subset (List.mem_map_of_mem hd), hperm.nodup_iff.2 hnames, ?_⟩
    intro name hname
    exact List.mem_map.1 (hperm.mem_iff.2 hname)

end Derivation.OneEach

namespace RuleSet

variable {r : RuleSet} {s : Settlement}

/-! ### The names of a settlement -/

/-- A declared name is declared with one of the three kinds. -/
theorem declared_iff_mem_declaredAs {name : Name} :
    r.Declared name ↔ name ∈ r.declaredAs .external ++ r.declaredAs .basic ++
      r.declaredAs .derived := by
  simp only [List.mem_append, mem_declaredAs]
  constructor
  · rintro ⟨d, hd, hname⟩
    cases hkind : d.kind with
    | external => exact .inl (.inl ⟨d, hd, hkind, hname⟩)
    | basic => exact .inl (.inr ⟨d, hd, hkind, hname⟩)
    | derived => exact .inr ⟨d, hd, hkind, hname⟩
  · rintro ((⟨d, hd, -, hname⟩ | ⟨d, hd, -, hname⟩) | ⟨d, hd, -, hname⟩)
    all_goals exact ⟨d, hd, hname⟩

theorem nodup_declaredAs (h : r.Consistent) (kind : Kind) : (r.declaredAs kind).Nodup :=
  h.unique.sublist (List.filter_sublist.map _)

/-- A name is declared with one kind at most. -/
theorem disjoint_declaredAs (h : r.Consistent) {kind kind' : Kind} (hne : kind ≠ kind') :
    (r.declaredAs kind).Disjoint (r.declaredAs kind') := by
  intro name hname hname'
  obtain ⟨d, hd, hkind, rfl⟩ := mem_declaredAs.1 hname
  obtain ⟨e, he, hkind', hsame⟩ := mem_declaredAs.1 hname'
  obtain rfl := List.inj_on_of_nodup_map h.unique he hd hsame
  exact hne (hkind.symm.trans hkind')

theorem features_settled (h : r.settle = .ok s) :
    s.features = r.declaredAs .external ++ r.declaredAs .basic ++ r.declaredAs .derived := by
  obtain ⟨-, order, -, rfl⟩ := settle_eq_ok_iff.1 h
  rfl

theorem mem_features (h : r.settle = .ok s) {name : Name} :
    name ∈ s.features ↔ r.Declared name := by
  rw [features_settled h, declared_iff_mem_declaredAs]

theorem nodup_features (h : r.settle = .ok s) : s.features.Nodup := by
  have hr := consistent_of_settle_eq_ok h
  rw [features_settled h]
  refine ((nodup_declaredAs hr _).append (nodup_declaredAs hr _) ?_).append
    (nodup_declaredAs hr _) ?_
  · exact disjoint_declaredAs hr (by decide)
  · rw [List.disjoint_append_left]
    exact ⟨disjoint_declaredAs hr (by decide), disjoint_declaredAs hr (by decide)⟩

/-! ### The rules of a settlement -/

theorem represents_settlement (h : r.settle = .ok s) : s.Represents r := by
  have hconsistent := consistent_of_settle_eq_ok h
  have hfeatures : ∀ name, name ∈ s.features ↔ r.Declared name := fun _ => mem_features h
  have himplications : ∀ i ∈ s.implications, i ∈ r.implications :=
    fun _ => mem_of_mem_implications h
  have hderivations : ∀ d ∈ s.derivations, d ∈ r.derivations := (perm_derivations h).subset
  have hunique := nodup_features h
  obtain ⟨-, order, -, rfl⟩ := settle_eq_ok_iff.1 h
  refine ⟨rfl, rfl, rfl, hfeatures, hunique, ?_, ?_, ?_⟩
  · intro i hi
    have hi := himplications i hi
    obtain ⟨hantecedent, hconsequent⟩ := hconsistent.implications i hi
    rw [declared_iff_mem_declaredAs, List.mem_append, List.mem_append] at hantecedent hconsequent
    obtain ⟨hexternal, hderived⟩ := hconsistent.consequents i hi
    exact ⟨hantecedent.resolve_right (hconsistent.antecedents i hi),
      (hconsequent.resolve_right hderived).resolve_left hexternal⟩
  · intro d hd name hname
    exact (hfeatures name).2 (hconsistent.derivations d (hderivations d hd) name hname)
  · intro q hq
    obtain ⟨hdeclared, hreferences⟩ := hconsistent.requirements q hq
    exact ⟨(hfeatures _).2 hdeclared, fun name hname => (hfeatures name).2 (hreferences name hname)⟩

/-- A settlement represents its rule set, its derivations are those of the rule set, and they go
with the derived features exactly where those of the rule set do, as they do in every document. -/
theorem settlement_represents (h : r.settle = .ok s) :
    s.Represents r ∧ s.derivations.Perm r.derivations ∧
      (Derivation.OneEach s.derivations s.derived ↔
        (r.derivations.map Derivation.feature).Perm (r.declaredAs .derived)) ∧
      ∀ t, Document.read t = .ok r → Derivation.OneEach s.derivations s.derived := by
  have hrepresents := represents_settlement h
  have hperm := perm_derivations h
  have hnodup : (r.declaredAs .derived).Nodup :=
    nodup_declaredAs (consistent_of_settle_eq_ok h) .derived
  have hpair : Derivation.OneEach s.derivations s.derived ↔
      (r.derivations.map Derivation.feature).Perm (r.declaredAs .derived) := by
    rw [← Derivation.OneEach.iff_perm hnodup, hrepresents.derived]
    exact ⟨fun hs => hs.of_perm hperm, fun hr => hr.of_perm hperm.symm⟩
  refine ⟨hrepresents, hperm, hpair, fun t hread => hpair.2 ?_⟩
  rw [Document.declaredAs_derived hread]

end RuleSet

/-! ### A small document -/

namespace Document

def specimen : Text := "external E\nA\nB\nC\nB implies C\nA implies B\nD equals C and not E"

theorem read_specimen : read specimen = .ok RuleSet.specimen := by
  decide +kernel

end Document

namespace RuleSet

theorem settlement_represents_specimen : ∃ s, specimen.settle = .ok s ∧ s.Represents specimen ∧
    s.derivations.Perm specimen.derivations ∧ Derivation.OneEach s.derivations s.derived := by
  obtain ⟨s, hs⟩ := exists_settle_specimen
  obtain ⟨hrepresents, hperm, -, heach⟩ := settlement_represents hs
  exact ⟨s, hs, hrepresents, hperm, heach Document.specimen Document.read_specimen⟩

/-! ### Derivations that no declarations go with -/

/-- Two derivations of a name that is not declared, and a derived name without a derivation. -/
def unpaired : RuleSet :=
  let x : Name := ⟨"X", rfl⟩
  let y : Name := ⟨"Y", rfl⟩
  let z : Name := ⟨"Z", rfl⟩
  { declarations := [⟨x, .basic, 1⟩, ⟨z, .derived, 2⟩]
    derivations := [⟨y, ⟨"X", "defined(X)", [x]⟩, 3⟩, ⟨y, ⟨"X", "defined(X)", [x]⟩, 4⟩] }

/-- A rule set without violations whose derivations do not go with its derived features. -/
theorem unpaired_settles : ∃ s, unpaired.settle = .ok s ∧
    (∃ d ∈ s.derivations, d.feature ∉ s.derived) ∧
    ¬(s.derivations.map Derivation.feature).Nodup ∧
    ∃ name ∈ s.derived, ∀ d ∈ s.derivations, d.feature ≠ name := by
  have hacyclic : unpaired.Acyclic := by
    apply acyclic_of_rank fun name => ["X"].idxOf (String.ofList name.text)
    · decide +kernel
    · decide +kernel
  obtain ⟨s, hs⟩ := exists_settle_iff.2 ⟨by decide +kernel, hacyclic⟩
  have hperm := perm_derivations hs
  have hderived : s.derived = [⟨"Z", rfl⟩] := (represents_settlement hs).derived
  refine ⟨s, hs, ?_, ?_, ?_⟩
  · refine ⟨⟨⟨"Y", rfl⟩, ⟨"X", "defined(X)", [⟨"X", rfl⟩]⟩, 3⟩, hperm.mem_iff.2 ?_, ?_⟩
    · exact List.mem_cons_self
    · rw [hderived]
      decide
  · rw [(hperm.map _).nodup_iff]
    decide
  · refine ⟨⟨"Z", rfl⟩, hderived ▸ List.mem_singleton_self _, fun d hd => ?_⟩
    have hfeatures : ∀ d ∈ unpaired.derivations, d.feature ≠ ⟨"Z", rfl⟩ := by decide
    exact hfeatures d (hperm.subset hd)

end RuleSet

end FeatureGuard

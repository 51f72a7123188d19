import FeatureGuard.Artifact.Compile
import FeatureGuard.Proofs.Definitions.Reordering
import FeatureGuard.Proofs.Preprocessor.Implication
import FeatureGuard.Proofs.Preprocessor.Requirement

/-!
The lines of a document in another order. The files that are generated differ in the order of their
blocks, but not in what they mean: going once through the rules ends with the same macros and warns
of the same features, and the sources complain about the same requirements and list the same
features.
-/

namespace FeatureGuard

namespace Plan

/-- The sections of the header that hold the rules. -/
def ruleSections (p : Plan) : List Directive :=
  Directive.below "Handle implications" p.header ++
    Directive.below "Warn when derived switches are specified manually" p.header

/-- The sections of the source. -/
def checkSections (p : Plan) : List Directive :=
  Directive.below "Handle requirements" p.source ++ Directive.below "Feature list" p.source

/-- A pass over the rules of the header. -/
def settled (files : Files) (start : Macros) (p : Plan) : Pass :=
  Pass.run files { macros := start } p.ruleSections

/-- A pass over the source with the macros that the rules have led to. -/
def checked (files : Files) (start : Macros) (p : Plan) : Pass :=
  Pass.run files { macros := (p.settled files start).macros } p.checkSections

/-- From the same macros, two plans lead to the same macros and to the same warnings, errors and
entries of the table, perhaps in another order. -/
structure Alike (files : Files) (start : Macros) (p p' : Plan) : Prop where
  macros : (p.settled files start).macros = (p'.settled files start).macros
  warnings : (p.settled files start).warnings.Perm (p'.settled files start).warnings
  complaints : (p.checked files start).complaints.Perm (p'.checked files start).complaints
  listed : (p.checked files start).listed.Perm (p'.checked files start).listed

end Plan

theorem settleText_eq_ok_iff {t : Text} {s : Settlement} :
    settleText t = .ok s ↔ ∃ r, Document.read t = .ok r ∧ r.settle = .ok s := by
  rw [settleText]
  cases Document.read t with
  | error errors => simp [Except.mapError, bind, Except.bind]
  | ok r => cases h : r.settle <;> simp [Except.mapError, bind, Except.bind, settleRules, h]

theorem exists_compile_iff {t : Text} {o : Options} :
    (∃ a, compile t o = .ok a) ↔ ∃ s, settleText t = .ok s := by
  rw [compile]
  cases settleText t <;> simp [Except.map]

theorem RuleSet.requirements_settled {r : RuleSet} {s : Settlement} (h : r.settle = .ok s) :
    s.requirements = r.requirements := by
  obtain ⟨-, order, -, rfl⟩ := settle_eq_ok_iff.1 h
  rfl

namespace RuleSet.Reordered

variable {r r' : RuleSet} {s s' : Settlement}

theorem closed_of_closed (h : r.Reordered r') {names : Set Text} (hr : r.Closed names) :
    r'.Closed names := by
  intro i hi hantecedent
  obtain ⟨j, hj, ha, hc⟩ := h.symm.exists_implication hi
  rw [← ha] at hantecedent
  rw [← hc]
  exact hr j hj hantecedent

/-- Going once through the implications defines the same in either order. -/
theorem foldl_imply_eq (h : r.Reordered r') (hs : r.settle = .ok s) (hs' : r'.settle = .ok s')
    (m : Macros) : s.implications.foldl Macros.imply m = s'.implications.foldl Macros.imply m := by
  have hclosed : ∀ names, r.Closed names ↔ r'.Closed names :=
    fun _ => ⟨h.closed_of_closed, h.symm.closed_of_closed⟩
  have hleast := isLeast_foldl_imply hs m
  simp only [hclosed] at hleast
  exact SetLike.coe_injective (hleast.unique (isLeast_foldl_imply hs' m))

theorem perm_settled_derivations (h : r.Reordered r') (hs : r.settle = .ok s)
    (hs' : r'.settle = .ok s') :
    (s.derivations.map Derivation.unplaced).Perm (s'.derivations.map Derivation.unplaced) :=
  ((perm_derivations hs).map _).trans
    (h.derivations.trans ((perm_derivations hs').symm.map _))

theorem perm_settled_features (h : r.Reordered r') (hs : r.settle = .ok s)
    (hs' : r'.settle = .ok s') : s.features.Perm s'.features := by
  obtain ⟨-, order, -, rfl⟩ := settle_eq_ok_iff.1 hs
  obtain ⟨-, order', -, rfl⟩ := settle_eq_ok_iff.1 hs'
  exact ((h.perm_declaredAs _).append (h.perm_declaredAs _)).append (h.perm_declaredAs _)

end RuleSet.Reordered

/-- Which features derivations decide is a matter of the derivations, not of their order. -/
theorem Derivation.Decide.of_perm {derivations derivations' : List Derivation}
    (h : (derivations.map unplaced).Perm (derivations'.map unplaced)) {given names : Set Text}
    (hnames : Decide derivations given names) : Decide derivations' given names := by
  have hsub : ∀ {l l' : List Derivation} {x}, (l.map unplaced).Perm (l'.map unplaced) →
      (∃ d ∈ l, d.feature.text = x ∧ d.condition.HoldsRendered names) →
        ∃ d ∈ l', d.feature.text = x ∧ d.condition.HoldsRendered names := by
    rintro l l' x hperm ⟨d, hd, htext, hholds⟩
    obtain ⟨e, he, heq⟩ := RuleSet.Reordered.exists_unplaced_eq hperm hd
    obtain ⟨hfeature, hcondition, -⟩ := Derivation.mk.inj heq
    exact ⟨e, he, hfeature ▸ htext, hcondition ▸ hholds⟩
  exact fun x => (hnames x).trans (or_congr_right ⟨hsub h, hsub h.symm⟩)

namespace Document

variable {t t' : Text} {r r' : RuleSet} {s s' : Settlement} {files : Files} {start : Macros}

/-! ### Going through the sections -/

theorem derives_settled (hread : read t = .ok r) (hsettle : r.settle = .ok s) (o : Options) :
    Pass.Derives s.derivations { macros := s.implications.foldl Macros.imply start }
      ((Plan.ofSettlement s o).settled files start) := by
  let entered : Pass := { macros := s.implications.foldl Macros.imply start }
  have hblocks : entered.Derives s.derivations (Pass.run files entered (Plan.derivationBlocks s)) :=
    derives_run_derivationBlocks hread hsettle rfl
  rwa [Plan.settled, Plan.ruleSections, Plan.below_implications, Plan.below_derivations, Pass.run_append,
    Pass.run_append, Pass.run_implicationBlocks rfl, Pass.run_closing hblocks.skipped]

theorem run_checkSections (hread : read t = .ok r) (hsettle : r.settle = .ok s) (o : Options) :
    Pass.run files { macros := start } (Plan.ofSettlement s o).checkSections =
      { macros := start
        complaints := r.requirements.filterMap (Requirement.complaint? start)
        listed := s.features.filter fun n => n.text ∈ start } := by
  have hrequirements := RuleSet.requirements_settled hsettle
  have htexts : ∀ q ∈ s.requirements, ∃ e, Condition.ofText e = .ok q.condition := by
    rw [hrequirements]
    exact fun q hq => exists_text_of_requirement hread hq
  rw [Plan.checkSections, Plan.below_requirements, Plan.below_nameTable, Pass.run_append,
    Plan.requirementBlocks, Pass.run_requirements rfl htexts, Pass.run_nameTable rfl,
    hrequirements]
  rfl

/-! ### Two orders -/

theorem settled_alike (h : r.Reordered r') (hread : read t = .ok r)
    (hread' : read t' = .ok r') (hs : r.settle = .ok s) (hs' : r'.settle = .ok s') (o : Options) :
    let final := (Plan.ofSettlement s o).settled files start
    let final' := (Plan.ofSettlement s' o).settled files start
    final.macros = final'.macros ∧ final.warnings.Perm final'.warnings := by
  intro final final'
  have hfinal : Pass.Derives s.derivations _ final := derives_settled hread hs o
  have hfinal' : Pass.Derives s'.derivations _ final' := derives_settled hread' hs' o
  rw [← h.foldl_imply_eq hs hs'] at hfinal'
  have hperm := h.perm_settled_derivations hs hs'
  constructor
  · -- both sets of macros are decided by the same derivations, which leave no choice
    obtain ⟨hself, horder⟩ := RuleSet.pairwise_derivations hs
    have hdecide' := Derivation.Decide.of_perm hperm.symm hfinal'.macros
    exact SetLike.coe_injective
      (Derivation.Decide.unique hself horder hfinal.macros hdecide')
  · rw [hfinal.warnings, hfinal'.warnings]
    exact (RuleSet.Reordered.perm_map hperm Derivation.feature rfl).filter _

theorem alike (h : r.Reordered r') (hread : read t = .ok r) (hread' : read t' = .ok r')
    (hs : r.settle = .ok s) (hs' : r'.settle = .ok s') (o : Options) (files : Files)
    (start : Macros) :
    Plan.Alike files start (Plan.ofSettlement s o) (Plan.ofSettlement s' o) := by
  obtain ⟨hmacros, hwarnings⟩ := settled_alike h hread hread' hs hs' o
  refine ⟨hmacros, hwarnings, ?_, ?_⟩
  · rw [Plan.checked, Plan.checked, ← hmacros, run_checkSections hread hs,
      run_checkSections hread' hs']
    exact RuleSet.Reordered.perm_filterMap h.requirements _ rfl
  · rw [Plan.checked, Plan.checked, ← hmacros, run_checkSections hread hs,
      run_checkSections hread' hs']
    exact (h.perm_settled_features hs hs').filter _

theorem exists_compile_of_perm (hlines : (Text.lines t).Perm (Text.lines t'))
    (hplain : ∀ line ∈ Text.lines t, ¬("/*" : Text) <:+: line) {o : Options}
    (h : ∃ a, compile t o = .ok a) : ∃ a, compile t' o = .ok a := by
  rw [exists_compile_iff] at h ⊢
  obtain ⟨s, hs⟩ := h
  obtain ⟨r, hread, hsettle⟩ := settleText_eq_ok_iff.1 hs
  obtain ⟨r', hread', hreordered⟩ := exists_read_of_perm hlines hplain hread
  obtain ⟨s', hsettle'⟩ := hreordered.exists_settle ⟨s, hsettle⟩
  exact ⟨s', settleText_eq_ok_iff.2 ⟨r', hread', hsettle'⟩⟩

/-- Documents with the same lines are both accepted or both refused, and what is generated from
them has the same effect. -/
theorem compile_alike_of_perm_lines (hlines : (Text.lines t).Perm (Text.lines t'))
    (hplain : ∀ line ∈ Text.lines t, ¬("/*" : Text) <:+: line) (o : Options) :
    ((∃ a, compile t o = .ok a) ↔ ∃ a, compile t' o = .ok a) ∧
      ∀ s s', settleText t = .ok s → settleText t' = .ok s' → ∀ (files : Files) (start : Macros),
        Plan.Alike files start (Plan.ofSettlement s o) (Plan.ofSettlement s' o) := by
  have hplain' : ∀ line ∈ Text.lines t', ¬("/*" : Text) <:+: line :=
    fun line hline => hplain line (hlines.symm.subset hline)
  refine ⟨⟨exists_compile_of_perm hlines hplain, exists_compile_of_perm hlines.symm hplain'⟩, ?_⟩
  intro s s' hs hs'
  obtain ⟨r, hread, hsettle⟩ := settleText_eq_ok_iff.1 hs
  obtain ⟨r', hread', hsettle'⟩ := settleText_eq_ok_iff.1 hs'
  obtain ⟨r'', hread'', hreordered⟩ := exists_read_of_perm hlines hplain hread
  cases hread'.symm.trans hread''
  exact alike hreordered hread hread' hsettle hsettle' o

/-- The lines of the small document, the other way round. -/
def reversedSpecimen : Text :=
  "D equals C and not E\nA implies B\nB implies C\nC\nB\nA\nexternal E"

theorem compile_alike_of_reversedSpecimen :
    (Text.lines specimen).Perm (Text.lines reversedSpecimen) ∧
      (∀ line ∈ Text.lines specimen, ¬("/*" : Text) <:+: line) ∧
      ∃ s s', settleText specimen = .ok s ∧ settleText reversedSpecimen = .ok s' ∧
        ∀ files start, Plan.Alike files start (Plan.ofSettlement s {}) (Plan.ofSettlement s' {}) := by
  have hlines : (Text.lines specimen).Perm (Text.lines reversedSpecimen) := by decide +kernel
  have hplain : ∀ line ∈ Text.lines specimen, ¬("/*" : Text) <:+: line := by decide +kernel
  obtain ⟨hiff, halike⟩ := compile_alike_of_perm_lines hlines hplain {}
  rw [exists_compile_iff, exists_compile_iff] at hiff
  obtain ⟨s, hs⟩ := RuleSet.exists_settle_specimen
  have hsettled : settleText specimen = .ok s :=
    settleText_eq_ok_iff.2 ⟨RuleSet.specimen, read_specimen, hs⟩
  obtain ⟨s', hsettled'⟩ := hiff.1 ⟨s, hsettled⟩
  exact ⟨hlines, hplain, s, s', hsettled, hsettled', halike s s' hsettled hsettled'⟩

end Document

end FeatureGuard

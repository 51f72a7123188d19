import FeatureGuard.Proofs.Artifact.Header
import FeatureGuard.Proofs.Definitions.Representation
import FeatureGuard.Proofs.Preprocessor.Pass

/-!
Derived features. Going once through the derivations of a settlement defines the derived features
whose conditions hold at the end: when the condition of a derivation is looked at, everything that
it refers to is decided for good.
-/

namespace FeatureGuard

namespace Condition

/-- What the preprocessor makes of a condition: it can read it, and the formula that it reads is
about the names that the condition refers to. -/
structure Readable (c : Condition) (f : Formula Text) : Prop where
  read : Preprocessor.readCondition c.rendered = some f
  congr : ∀ S T : Set Text, (∀ n ∈ c.references, n.text ∈ S ↔ n.text ∈ T) →
    (f.Holds (· ∈ S) ↔ f.Holds (· ∈ T))

/-- Whether the rendered text of a condition is true where certain macros are defined. -/
def HoldsRendered (c : Condition) (macros : Set Text) : Prop :=
  ∃ f, c.Readable f ∧ f.Holds (· ∈ macros)

theorem Readable.holdsRendered_iff {c : Condition} {f : Formula Text} (h : c.Readable f)
    {macros : Set Text} : c.HoldsRendered macros ↔ f.Holds (· ∈ macros) := by
  constructor
  · rintro ⟨g, hg, hholds⟩
    cases h.read.symm.trans hg.read
    exact hholds
  · exact fun hholds => ⟨f, h, hholds⟩

theorem HoldsRendered.congr {c : Condition} {S T : Set Text}
    (hnames : ∀ n ∈ c.references, n.text ∈ S ↔ n.text ∈ T) :
    c.HoldsRendered S ↔ c.HoldsRendered T :=
  exists_congr fun _ => and_congr_right fun hf => hf.congr S T hnames

theorem exists_readable {t : Text} {c : Condition} (h : ofText t = .ok c) :
    (∃ f, c.Readable f) ∧ ∀ macros, c.HoldsRendered macros ↔ HoldsIn t macros := by
  obtain ⟨f, hread, hmeaning⟩ := exists_readCondition h
  have hreadable : c.Readable f := by
    refine ⟨hread, fun S T hnames => ?_⟩
    rw [hmeaning, hmeaning]
    exact holdsIn_congr h hnames
  refine ⟨⟨f, hreadable⟩, fun macros => ?_⟩
  rw [hreadable.holdsRendered_iff, hmeaning]

end Condition

/-- Names that consist of given ones and of the features whose conditions hold among the names. -/
def Derivation.Decide (derivations : List Derivation) (given names : Set Text) : Prop :=
  ∀ x, x ∈ names ↔
    x ∈ given ∨ ∃ d ∈ derivations, d.feature.text = x ∧ d.condition.HoldsRendered names

/-- Derivations in the right order leave no choice. -/
theorem Derivation.Decide.unique {derivations : List Derivation} {given S T : Set Text}
    (hself : ∀ d ∈ derivations, d.feature ∉ d.condition.references)
    (horder : derivations.Pairwise fun d e => e.feature ∉ d.condition.references)
    (hS : Decide derivations given S) (hT : Decide derivations given T) : S = T := by
  induction derivations generalizing given with
  | nil =>
      ext x
      rw [hS x, hT x]
      simp
  | cons d derivations ih =>
      obtain ⟨hd, hself⟩ := List.forall_mem_cons.1 hself
      obtain ⟨hlater, horder⟩ := List.pairwise_cons.1 horder
      -- the condition of the first derivation only looks at names that are given
      have hfirst : ∀ {names}, Decide (d :: derivations) given names →
          (d.condition.HoldsRendered names ↔ d.condition.HoldsRendered given) := by
        intro names h
        refine Condition.HoldsRendered.congr fun n hn => ?_
        rw [h n.text]
        refine or_iff_left ?_
        rintro ⟨e, he, htext, -⟩
        rw [← Name.text_injective htext] at hn
        rcases List.mem_cons.1 he with rfl | he
        · exact hd hn
        · exact hlater e he hn
      have hrest : ∀ {names}, Decide (d :: derivations) given names → Decide derivations
          {x | x ∈ given ∨ d.feature.text = x ∧ d.condition.HoldsRendered given} names := by
        intro names h x
        rw [h x, List.exists_mem_cons_iff, hfirst h, ← or_assoc]
        rfl
      exact ih hself horder (hrest hS) (hrest hT)

namespace Pass

variable {files : Files} {p : Pass}

/-! ### The block of a derivation -/

/-- What has become of a pass after the blocks of certain derivations. -/
structure Derives (derivations : List Derivation) (p final : Pass) : Prop where
  macros : ∀ x, x ∈ final.macros ↔ x ∈ p.macros ∨
    ∃ d ∈ derivations, d.feature.text = x ∧ d.condition.HoldsRendered final.macros
  warnings : final.warnings =
    p.warnings ++ (derivations.map Derivation.feature).filter fun n => n.text ∈ p.macros
  complaints : final.complaints = p.complaints
  skipped : final.skipped = 0

/-- The block looks at the condition before the feature is defined. -/
theorem execute_derivation (hp : p.skipped = 0) {d : Derivation} {f : Formula Text}
    (hf : d.condition.Readable f) :
    execute files p (.derivation d.feature d.condition.human d.condition.rendered) =
      if d.feature.text ∈ p.macros then { p with warnings := p.warnings ++ [d.feature] }
      else if f.Holds (· ∈ p.macros) then { p with macros := p.macros.define d.feature.text }
      else p := by
  show (if p.skipped = 0 then _ else p) = _
  rw [if_pos hp]
  show (if _ then _ else p.whenHolds d.condition.rendered _) = _
  rw [whenHolds_eq hf.read]

theorem mem_macros_execute_derivation (hp : p.skipped = 0) {d : Derivation} {f : Formula Text}
    (hf : d.condition.Readable f) {x : Text} :
    x ∈ (execute files p
        (.derivation d.feature d.condition.human d.condition.rendered)).macros ↔
      x ∈ p.macros ∨ d.feature.text = x ∧ f.Holds (· ∈ p.macros) := by
  rw [execute_derivation hp hf]
  split
  · rename_i hdefined
    refine ⟨Or.inl, ?_⟩
    rintro (hx | ⟨rfl, -⟩)
    · exact hx
    · exact hdefined
  split
  · rename_i hholds
    rw [Macros.mem_define, and_iff_left hholds, or_comm, eq_comm]
  · rename_i hholds
    rw [or_iff_left fun h => hholds h.2]

/-- Apart from the macros, the block only adds a warning where the feature is defined already. -/
theorem rest_execute_derivation (hp : p.skipped = 0) {d : Derivation} {f : Formula Text}
    (hf : d.condition.Readable f) {next : Pass}
    (hnext : execute files p
      (.derivation d.feature d.condition.human d.condition.rendered) = next) :
    next.warnings = p.warnings ++ [d.feature].filter (fun n => n.text ∈ p.macros) ∧
      next.complaints = p.complaints ∧ next.skipped = 0 := by
  rw [execute_derivation hp hf] at hnext
  subst hnext
  split
  · rename_i hdefined
    exact ⟨by simp [hdefined], rfl, hp⟩
  rename_i hfree
  split
  · exact ⟨by simp [hfree], rfl, hp⟩
  · exact ⟨by simp [hfree], rfl, hp⟩

/-! ### All blocks -/

/-- In the right order, every condition is looked at when the names that it refers to are decided
for good. -/
theorem derives_run {derivations : List Derivation} (hp : p.skipped = 0)
    (hreadable : ∀ d ∈ derivations, ∃ f, d.condition.Readable f)
    (hself : ∀ d ∈ derivations, d.feature ∉ d.condition.references)
    (horder : derivations.Pairwise fun d e => e.feature ∉ d.condition.references)
    (hnodup : (derivations.map Derivation.feature).Nodup) :
    Derives derivations p (run files p (derivations.map fun d =>
      .derivation d.feature d.condition.human d.condition.rendered)) := by
  induction derivations generalizing p with
  | nil => exact ⟨by simp [run], by simp [run], rfl, hp⟩
  | cons d derivations ih =>
      obtain ⟨⟨f, hf⟩, hreadable⟩ := List.forall_mem_cons.1 hreadable
      obtain ⟨hd, hself⟩ := List.forall_mem_cons.1 hself
      obtain ⟨hlater, horder⟩ := List.pairwise_cons.1 horder
      obtain ⟨hfresh, hnodup⟩ := List.nodup_cons.1 hnodup
      rw [List.map_cons, run_cons]
      have hblock : ∀ x, x ∈ (execute files p
          (.derivation d.feature d.condition.human d.condition.rendered)).macros ↔
            x ∈ p.macros ∨ d.feature.text = x ∧ f.Holds (· ∈ p.macros) :=
        fun x => mem_macros_execute_derivation hp hf
      generalize hnext : execute files p _ = next at hblock ⊢
      obtain ⟨hwarnings, hcomplaints, hskipped⟩ := rest_execute_derivation hp hf hnext
      have hrest := ih hskipped hreadable hself horder hnodup
      generalize run files next _ = final at hrest ⊢
      -- neither this derivation nor a later one decides what the condition refers to
      have hdecided : ∀ n ∈ d.condition.references, n.text ∈ p.macros ↔ n.text ∈ final.macros := by
        intro n hn
        rw [hrest.macros, hblock]
        refine ⟨fun h => Or.inl (Or.inl h), ?_⟩
        rintro ((h | ⟨heq, -⟩) | ⟨e, he, heq, -⟩)
        · exact h
        · exact absurd (Name.text_injective heq ▸ hn) hd
        · exact absurd (Name.text_injective heq ▸ hn) (hlater e he)
      have hholds : f.Holds (· ∈ p.macros) ↔ d.condition.HoldsRendered final.macros :=
        (hf.congr p.macros final.macros hdecided).trans hf.holdsRendered_iff.symm
      refine ⟨fun x => ?_, ?_, hrest.complaints.trans hcomplaints, hrest.skipped⟩
      · rw [hrest.macros, hblock, hholds, or_assoc, List.exists_mem_cons_iff]
      · have hfilter : (derivations.map Derivation.feature).filter
              (fun n => n.text ∈ next.macros) =
            (derivations.map Derivation.feature).filter fun n => n.text ∈ p.macros := by
          -- no later derivation is for the feature that may have been defined just now
          refine List.filter_congr fun n hn => ?_
          rw [decide_eq_decide, hblock]
          refine or_iff_left fun h => hfresh ?_
          rwa [Name.text_injective h.1]
        rw [hrest.warnings, hwarnings, hfilter, List.append_assoc, ← List.filter_append]
        rfl

theorem run_closing (hp : p.skipped = 0) (o : Options) :
    run files p (Plan.closing o) = p := by
  have hdeclaration : execute files p (.tableDeclaration o.table o.count) = p := if_pos hp
  rw [Plan.closing, run_cons, hdeclaration]
  show { p with skipped := p.skipped - 1 } = p
  cases p
  cases hp
  rfl

end Pass

namespace Document

variable {t : Text} {r : RuleSet} {s : Settlement}

theorem derived_eq (hread : read t = .ok r) (hsettle : r.settle = .ok s) :
    s.derived = r.derivations.map Derivation.feature := by
  obtain ⟨-, order, -, rfl⟩ := RuleSet.settle_eq_ok_iff.1 hsettle
  exact declaredAs_derived hread

theorem nodup_derived (hread : read t = .ok r) (hsettle : r.settle = .ok s) :
    s.derived.Nodup := by
  rw [derived_eq hread hsettle, ← declaredAs_derived hread]
  exact RuleSet.nodup_declaredAs (RuleSet.consistent_of_settle_eq_ok hsettle) .derived

theorem perm_derived (hread : read t = .ok r) (hsettle : r.settle = .ok s) :
    (s.derivations.map Derivation.feature).Perm s.derived := by
  rw [derived_eq hread hsettle]
  exact (RuleSet.perm_derivations hsettle).map _

theorem derives_run_derivationBlocks (hread : read t = .ok r) (hsettle : r.settle = .ok s)
    {files : Files} {p : Pass} (hp : p.skipped = 0) :
    p.Derives s.derivations (Pass.run files p (Plan.derivationBlocks s)) := by
  obtain ⟨hself, horder⟩ := RuleSet.pairwise_derivations hsettle
  refine Pass.derives_run hp ?_ hself horder ?_
  · intro d hd
    obtain ⟨e, -, hcondition⟩ := exists_equates hread ((RuleSet.perm_derivations hsettle).subset hd)
    exact (Condition.exists_readable hcondition).1
  · exact (perm_derived hread hsettle).nodup_iff.2 (nodup_derived hread hsettle)

/-- The derivations decide the features by the equations of the document. -/
theorem exists_derivation_iff (hread : read t = .ok r) (hsettle : r.settle = .ok s)
    {macros : Set Text} {x : Text} :
    (∃ d ∈ s.derivations, d.feature.text = x ∧ d.condition.HoldsRendered macros) ↔
      ∃ feature e, Equates t feature e ∧ feature.text = x ∧ Condition.HoldsIn e macros := by
  have hperm := RuleSet.perm_derivations hsettle
  constructor
  · rintro ⟨d, hd, rfl, hholds⟩
    obtain ⟨e, hequates, hcondition⟩ := exists_equates hread (hperm.subset hd)
    have hmeaning := (Condition.exists_readable hcondition).2 macros
    exact ⟨d.feature, e, hequates, rfl, hmeaning.1 hholds⟩
  · rintro ⟨feature, e, hequates, rfl, hholds⟩
    obtain ⟨d, hd, rfl, hcondition⟩ := exists_derivation_of_equates hread hequates
    have hmeaning := (Condition.exists_readable hcondition).2 macros
    exact ⟨d, hperm.symm.subset hd, rfl, hmeaning.2 hholds⟩

/-- A feature has at most one equation. -/
theorem Equates.unique (hread : read t = .ok r) (hsettle : r.settle = .ok s) {feature : Name}
    {e e' : Text} (h : Equates t feature e) (h' : Equates t feature e') {macros : Set Text} :
    Condition.HoldsIn e macros ↔ Condition.HoldsIn e' macros := by
  obtain ⟨d, hd, rfl, hcondition⟩ := exists_derivation_of_equates hread h
  obtain ⟨d', hd', heq, hcondition'⟩ := exists_derivation_of_equates hread h'
  have hnodup : (r.derivations.map Derivation.feature).Nodup := by
    rw [← derived_eq hread hsettle]
    exact nodup_derived hread hsettle
  obtain rfl := List.inj_on_of_nodup_map hnodup hd' hd heq
  have hmeaning := (Condition.exists_readable hcondition).2 macros
  exact hmeaning.symm.trans ((Condition.exists_readable hcondition').2 macros)

/-- Going once through the derivations of the header defines a derived feature exactly where its
equation holds in the end, unless it was defined before; then there is one warning. -/
theorem run_derivations_section (hread : read t = .ok r) (hsettle : r.settle = .ok s)
    (o : Options) (files : Files) (start : Macros) :
    let final := Pass.run files { macros := start }
      (Directive.below "Warn when derived switches are specified manually"
        (Plan.ofSettlement s o).header)
    (∀ feature e, Equates t feature e →
      (feature.text ∈ final.macros ↔
        feature.text ∈ start ∨ Condition.HoldsIn e final.macros)) ∧
    (∀ x ∈ start, x ∈ final.macros) ∧
    (∀ x ∈ final.macros, x ∉ start → ∃ feature ∈ s.derived, feature.text = x) ∧
    final.warnings.Nodup ∧
    (∀ feature, feature ∈ final.warnings ↔ feature ∈ s.derived ∧ feature.text ∈ start) ∧
    final.complaints = [] := by
  intro final
  have hrun : Pass.Derives s.derivations { macros := start } final := by
    have hblocks : Pass.Derives s.derivations { macros := start }
        (Pass.run files { macros := start } (Plan.derivationBlocks s)) :=
      derives_run_derivationBlocks hread hsettle rfl
    simp only [final]
    rwa [Plan.below_derivations, Pass.run_append, Pass.run_closing hblocks.skipped]
  have hperm := perm_derived hread hsettle
  refine ⟨?_, ?_, ?_, ?_, ?_, hrun.complaints⟩
  · intro feature e hequates
    rw [hrun.macros, exists_derivation_iff hread hsettle]
    refine or_congr_right ⟨?_, fun h => ⟨feature, e, hequates, rfl, h⟩⟩
    rintro ⟨other, e', hequates', htext, hholds⟩
    rw [Name.text_injective htext] at hequates'
    exact (hequates.unique hread hsettle hequates').2 hholds
  · exact fun x hx => (hrun.macros x).2 (Or.inl hx)
  · intro x hx hstart
    obtain ⟨d, hd, htext, -⟩ := ((hrun.macros x).1 hx).resolve_left hstart
    exact ⟨d.feature, hperm.subset (List.mem_map_of_mem hd), htext⟩
  · rw [hrun.warnings]
    exact (hperm.nodup_iff.2 (nodup_derived hread hsettle)).filter _
  · intro feature
    rw [hrun.warnings, List.nil_append, List.mem_filter, hperm.mem_iff, decide_eq_true_eq]

/-! ### A small document -/

/-- The derived feature `D` equals `C and not E`. Where only `C` is defined before, `D` is defined;
where `D` itself is, it stays, and there is a warning. -/
theorem run_derivations_specimen :
    ∃ s, read specimen = .ok RuleSet.specimen ∧ RuleSet.specimen.settle = .ok s ∧
      let run := fun start : Macros => Pass.run (fun _ => []) { macros := start }
        (Directive.below "Warn when derived switches are specified manually"
          (Plan.ofSettlement s {}).header)
      let free := run ⟨(· = "C")⟩
      let manual := run ⟨(· ∈ (["D", "E"] : List Text))⟩
      free.warnings = [] ∧ (∀ x, x ∈ free.macros ↔ x = "C" ∨ x = "D") ∧
        manual.warnings = [⟨"D", rfl⟩] ∧ ∀ x, x ∈ manual.macros ↔ x = "D" ∨ x = "E" := by
  obtain ⟨s, hs⟩ := RuleSet.exists_settle_specimen
  refine ⟨s, read_specimen, hs, ?_⟩
  intro run free manual
  let c : Name := ⟨"C", rfl⟩
  let d : Name := ⟨"D", rfl⟩
  let e : Name := ⟨"E", rfl⟩
  have hderived : ∀ feature, feature ∈ s.derived ↔ feature = d := by
    rw [derived_eq read_specimen hs]
    exact fun feature => List.mem_singleton
  have hequates : Equates specimen d "C and not E" := by
    refine ⟨7, "D equals C and not E", "equals C and not E", ?_, ?_, ?_⟩ <;> decide +kernel
  have hstates : Condition.States "C and not E" (.and (.atom c) (.not (.atom e))) :=
    Condition.formula?_eq_some_iff.1 (by decide +kernel)
  -- features that are not derived are as they were, which decides the equation
  have hmacros : ∀ start x, x ∈ (run start).macros ↔
      x ∈ start ∨ x = d.text ∧ c.text ∈ start ∧ e.text ∉ start := by
    intro start x
    obtain ⟨hdefined, hkept, hnew, -⟩ :=
      run_derivations_section read_specimen hs {} (fun _ => []) start
    have hother : ∀ y, y ≠ d.text → (y ∈ (run start).macros ↔ y ∈ start) := by
      refine fun y hy => ⟨fun hmem => by_contra fun hstart => hy ?_, hkept y⟩
      obtain ⟨feature, hfeature, rfl⟩ := hnew y hmem hstart
      rw [(hderived feature).1 hfeature]
    by_cases hx : x = d.text
    · subst hx
      have hholds := hdefined d _ hequates
      rw [hstates.holdsIn_iff] at hholds
      rw [hholds]
      simp only [Formula.Holds, SetLike.mem_coe]
      rw [hother c.text (by decide), hother e.text (by decide)]
      simp
    · rw [hother x hx]
      simp [hx]
  have hwarnings : ∀ start, (∀ feature, feature ∈ (run start).warnings ↔
      feature = d ∧ d.text ∈ start) ∧ (run start).warnings.Nodup := by
    intro start
    obtain ⟨-, -, -, hnodup, hmem, -⟩ :=
      run_derivations_section read_specimen hs {} (fun _ => []) start
    refine ⟨fun feature => ?_, hnodup⟩
    rw [hmem, hderived]
    exact and_congr_right fun h => by rw [h]
  refine ⟨?_, fun x => ?_, ?_, fun x => ?_⟩
  · refine List.eq_nil_iff_forall_not_mem.2 fun feature hmem => ?_
    exact absurd (((hwarnings ⟨(· = "C")⟩).1 feature).1 hmem).2 (by decide)
  · have hstart : ∀ y, y ∈ (⟨(· = "C")⟩ : Macros) ↔ y = ("C" : Text) :=
      fun y => decide_eq_true_iff
    rw [hmacros, hstart, hstart, hstart]
    refine or_congr_right (and_iff_left ⟨rfl, ?_⟩)
    decide
  · obtain ⟨hmem, hnodup⟩ := hwarnings ⟨(· ∈ (["D", "E"] : List Text))⟩
    have hall : ∀ feature, feature ∈ manual.warnings ↔ feature ∈ [d] := by
      intro feature
      rw [hmem, List.mem_singleton]
      exact and_iff_left (by decide)
    exact List.perm_singleton.1 ((List.perm_ext_iff_of_nodup hnodup (List.nodup_singleton d)).2 hall)
  · have hstart : ∀ y, y ∈ (⟨(· ∈ (["D", "E"] : List Text))⟩ : Macros) ↔
        y = ("D" : Text) ∨ y = ("E" : Text) := fun y => decide_eq_true_iff.trans List.mem_pair
    rw [hmacros, hstart]
    refine or_iff_left fun h => absurd h.2.2 ?_
    exact not_not_intro ((hstart e.text).2 (.inr rfl))

end Document

end FeatureGuard

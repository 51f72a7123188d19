import FeatureGuard.Proofs.Preprocessor.Header

/-!
External features. From the point where the header includes the definitions of the build system for
the second time, no directive defines or undefines an external feature. The build system alone
decides which of them are defined, whatever the user and the macros from before ask for.
-/

namespace FeatureGuard

/-- Whether going through a directive can make a difference to a macro. -/
def Directive.Assigns (x : Text) : Directive → Prop
  | guardBegin guard => guard = x
  | inclusion _ => True
  | undefine feature => feature.text = x
  | implication _ consequent => consequent.text = x
  | derivation feature _ _ => feature.text = x
  | _ => False

namespace Pass

variable {files : Files} {p : Pass} {x : Text}

/-! ### What a directive leaves as it is -/

theorem mem_macros_define {name : Text} (h : name ≠ x) :
    x ∈ ({ p with macros := p.macros.define name } : Pass).macros ↔ x ∈ p.macros :=
  Macros.mem_define.trans (or_iff_right h.symm)

theorem mem_macros_whenHolds {condition : Text} {next : Pass}
    (h : x ∈ next.macros ↔ x ∈ p.macros) :
    x ∈ (p.whenHolds condition next).macros ↔ x ∈ p.macros := by
  rw [whenHolds]
  split
  · exact Iff.rfl
  · split
    · exact h
    · exact Iff.rfl

theorem mem_macros_perform {d : Directive} (h : ¬d.Assigns x) :
    x ∈ (p.perform files d).macros ↔ x ∈ p.macros := by
  cases d with
  | inclusion path => exact absurd trivial h
  | undefine feature => exact Macros.mem_undefine.trans (and_iff_right (Ne.symm h))
  | implication antecedent consequent =>
      rw [perform]
      split
      · exact mem_macros_define h
      · exact Iff.rfl
  | derivation feature human rendered =>
      rw [perform]
      split
      · exact Iff.rfl
      · exact mem_macros_whenHolds (mem_macros_define h)
  | requirement feature human rendered => exact mem_macros_whenHolds Iff.rfl
  | tableEntry feature =>
      rw [perform]
      split
      · exact Iff.rfl
      · exact Iff.rfl
  | _ => exact Iff.rfl

theorem mem_macros_execute {d : Directive} (h : ¬d.Assigns x) :
    x ∈ (execute files p d).macros ↔ x ∈ p.macros := by
  unfold execute
  split
  · split
    · exact mem_macros_define h
    · exact Iff.rfl
  · exact Iff.rfl
  · split
    · exact mem_macros_perform h
    · exact Iff.rfl

/-- A macro that no directive assigns is as it was at the end of a run. -/
theorem mem_macros_run {directives : List Directive} (h : ∀ d ∈ directives, ¬d.Assigns x) :
    x ∈ (run files p directives).macros ↔ x ∈ p.macros := by
  induction directives generalizing p with
  | nil => exact Iff.rfl
  | cons d directives ih =>
      obtain ⟨hd, hrest⟩ := List.forall_mem_cons.1 h
      rw [run_cons, ih hrest, mem_macros_execute hd]

end Pass

namespace Plan

/-- The header below the definitions of the build system. -/
def rules (s : Settlement) (o : Options) : List Directive :=
  .heading "Handle implications" :: (implicationBlocks s ++
    .heading "Warn when derived switches are specified manually" ::
      (derivationBlocks s ++ closing o))

theorem header_eq_opening_append_rules (s : Settlement) (o : Options) :
    (ofSettlement s o).header = opening s o ++ rules s o :=
  header_ofSettlement s o

/-- The rules only assign what an implication switches on or a derivation is for. -/
theorem assigns_of_mem_rules {s : Settlement} {o : Options} {d : Directive} {x : Text}
    (hd : d ∈ rules s o) (hx : d.Assigns x) :
    (∃ i ∈ s.implications, i.consequent.text = x) ∨
      ∃ e ∈ s.derivations, e.feature.text = x := by
  rcases List.mem_cons.1 hd with rfl | hd
  · cases hx
  rcases List.mem_append.1 hd with hd | hd
  · obtain ⟨i, hi, rfl⟩ := List.mem_map.1 hd
    exact Or.inl ⟨i, hi, hx⟩
  rcases List.mem_cons.1 hd with rfl | hd
  · cases hx
  rcases List.mem_append.1 hd with hd | hd
  · obtain ⟨e, he, rfl⟩ := List.mem_map.1 hd
    exact Or.inr ⟨e, he, hx⟩
  · rcases List.mem_pair.1 hd with rfl | rfl
    · cases hx
    · cases hx

end Plan

namespace Document

variable {t : Text} {r : RuleSet} {s : Settlement}

/-- No rule of a document is about switching on an external feature. -/
theorem not_assigns_external (hread : read t = .ok r) (hsettle : r.settle = .ok s) (o : Options)
    {n : Name} (hn : n ∈ r.declaredAs .external) :
    ∀ d ∈ Plan.rules s o, ¬d.Assigns n.text := by
  have hconsistent := RuleSet.consistent_of_settle_eq_ok hsettle
  intro d hd hassigns
  rcases Plan.assigns_of_mem_rules hd hassigns with ⟨i, hi, htext⟩ | ⟨e, he, htext⟩
  · have himplied := (hconsistent.consequents i (RuleSet.mem_of_mem_implications hsettle hi)).1
    rw [Name.text_injective htext] at himplied
    exact himplied hn
  · -- the feature would be declared twice, once as derived and once as external
    have hderived : n ∈ r.declaredAs .derived := by
      rw [declaredAs_derived hread, ← Name.text_injective htext]
      exact List.mem_map_of_mem ((RuleSet.perm_derivations hsettle).subset he)
    rw [← RuleSet.kind?_eq_some_iff hconsistent.unique] at hn hderived
    cases hn.symm.trans hderived

/-- In front of the rules, the external features that are defined are those that the build system
defines, whatever the lines are that the user has. -/
theorem mem_macros_run_opening_external (hsettle : r.settle = .ok s) {o : Options} {files : Files}
    {build : List Text} (hbuild : files o.buildConfig = build.map .define) {start : Macros}
    (hguard : o.guard ∉ start) {n : Name} (hn : n ∈ r.declaredAs .external) :
    n.text ∈ (Pass.run files { macros := start } (Plan.opening s o)).macros ↔ n.text ∈ build := by
  obtain ⟨-, order, -, rfl⟩ := RuleSet.settle_eq_ok_iff.1 hsettle
  -- the build system has the last word: its lines come again behind those that remove the externals
  rw [Pass.run_opening_lines hguard, hbuild]
  show n.text ∈ (build.map .define).foldl ConfigLine.run _ ↔ _
  rw [Pass.mem_foldl_define, Pass.mem_foldl_undefine, or_iff_left]
  rintro ⟨-, hremoved⟩
  exact hremoved ⟨n, hn, rfl⟩

theorem mem_macros_run_header_external (hread : read t = .ok r) (hsettle : r.settle = .ok s)
    {o : Options} {files : Files} {build : List Text}
    (hbuild : files o.buildConfig = build.map .define) {start : Macros} (hguard : o.guard ∉ start)
    {n : Name} (hn : n ∈ r.declaredAs .external) :
    n.text ∈ (Pass.run files { macros := start } (Plan.ofSettlement s o).header).macros ↔
      n.text ∈ build := by
  rw [Plan.header_eq_opening_append_rules, Pass.run_append,
    Pass.mem_macros_run (not_assigns_external hread hsettle o hn),
    mem_macros_run_opening_external hsettle hbuild hguard hn]

/-- The header leaves an external feature defined exactly where the build system defines it. So two
runs with the same build system agree on the external features, even where the user or the macros
from before ask for something else. -/
theorem externals_follow_build_system (hread : read t = .ok r) (hsettle : r.settle = .ok s)
    (o : Options) {files : Files} {build : List Text}
    (hbuild : files o.buildConfig = build.map .define) {start : Macros}
    (hguard : o.guard ∉ start) :
    let header := (Plan.ofSettlement s o).header
    let final := (Pass.run files { macros := start } header).macros
    (∀ d ∈ r.declarations, d.kind = .external → (d.name.text ∈ final ↔ d.name.text ∈ build)) ∧
      ∀ (others : Files) (before : Macros), others o.buildConfig = files o.buildConfig →
        o.guard ∉ before → ∀ d ∈ r.declarations, d.kind = .external →
          (d.name.text ∈ (Pass.run others { macros := before } header).macros ↔
            d.name.text ∈ final) := by
  intro header final
  have hexternal : ∀ d ∈ r.declarations, d.kind = .external → d.name ∈ r.declaredAs .external :=
    fun d hd hkind => RuleSet.mem_declaredAs.2 ⟨d, hd, hkind, rfl⟩
  have hfinal : ∀ d ∈ r.declarations, d.kind = .external →
      (d.name.text ∈ final ↔ d.name.text ∈ build) := fun d hd hkind =>
    mem_macros_run_header_external hread hsettle hbuild hguard (hexternal d hd hkind)
  -- the other run has the same build system, and nothing else matters
  refine ⟨hfinal, fun others before hsame hbefore d hd hkind => ?_⟩
  rw [hfinal d hd hkind]
  exact mem_macros_run_header_external hread hsettle (hsame.trans hbuild) hbefore
    (hexternal d hd hkind)

/-- A user who asks for an external feature that the build system does not define, and one who asks
for nothing: it is not defined in either run. -/
theorem externals_follow_build_system_specimen :
    let files : Files := fun path => if path.system then [.define "A"] else [.define "E"]
    let others : Files := fun path => if path.system then [.define "A"] else [.undefine "A"]
    let start : Macros := ⟨(· = "E")⟩
    let before : Macros := ⟨fun _ => false⟩
    ∃ s, read specimen = .ok RuleSet.specimen ∧ RuleSet.specimen.settle = .ok s ∧
      files ({} : Options).buildConfig = (["A"] : List Text).map .define ∧
        ({} : Options).guard ∉ start ∧
          let header := (Plan.ofSettlement s {}).header
          ("E" : Text) ∉ (Pass.run files { macros := start } header).macros ∧
            ("E" : Text) ∉ (Pass.run others { macros := before } header).macros := by
  intro files others start before
  have hbuild : files ({} : Options).buildConfig = (["A"] : List Text).map .define := by decide
  have hguard : ({} : Options).guard ∉ start := by decide
  have hsame : others ({} : Options).buildConfig = files ({} : Options).buildConfig := by decide
  have hbefore : ({} : Options).guard ∉ before := by decide
  obtain ⟨s, hs⟩ := RuleSet.exists_settle_specimen
  obtain ⟨hfinal, hagree⟩ := externals_follow_build_system read_specimen hs {} hbuild hguard
  have hdeclared : (⟨⟨"E", rfl⟩, .external, 1⟩ : Declaration) ∈ RuleSet.specimen.declarations :=
    List.mem_cons_self
  have hundefined := (hfinal _ hdeclared rfl).not.2 (by decide)
  refine ⟨s, read_specimen, hs, hbuild, hguard, hundefined, ?_⟩
  exact (hagree others before hsame hbefore _ hdeclared rfl).not.2 hundefined

end Document

end FeatureGuard

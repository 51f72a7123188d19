import FeatureGuard.Proofs.Preprocessor.Rendering

/-!
Both files as texts. Whatever the definitions are, going line by line through the text of the header
or of the source does what going through its directives does.
-/

namespace FeatureGuard

open Preprocessor

/-! ### Stamps -/

theorem inert_ofNat (n : Nat) : Inert (Text.ofNat n) := by
  intro c hc
  have hdigit : c.isDigit = true := Nat.isDigit_of_mem_toDigits (by decide) (by decide) hc
  refine isInert_of_isSpelling (isSpelling_of_isWordChar ?_)
  rw [isWordChar, Char.isAlphanum, hdigit, Bool.or_true, Bool.true_or]

theorem inert_padded (width n : Nat) : Inert (Text.padded width n) := by
  refine Inert.append (fun c hc => ?_) (inert_ofNat n)
  rw [List.eq_of_mem_replicate hc]
  decide

theorem inert_getD {ts : List Text} (h : ∀ t ∈ ts, Inert t) (i : Nat) : Inert (ts.getD i []) := by
  rw [List.getD_eq_getElem?_getD]
  cases hi : ts[i]? with
  | none => exact List.forall_mem_nil _
  | some t => exact h t (List.mem_of_getElem? hi)

namespace Instant

theorem inert_dayText (day : Nat) : Inert (dayText day) := by
  rw [dayText]
  split
  · exact Inert.append (a := [' ']) (by decide) (inert_ofNat day)
  · exact inert_ofNat day

theorem inert_yearText (year : Int) : Inert (yearText year) := by
  cases year with
  | ofNat year =>
      rw [yearText]
      split
      · exact inert_padded 4 year
      · exact Inert.append (a := ['+']) (by decide) (inert_ofNat year)
  | negSucc year => exact Inert.append (a := ['-']) (by decide) (inert_padded 4 (year + 1))

theorem inert_clockText (second : Nat) : Inert (clockText second) :=
  ((((inert_padded 2 _).append (by decide)).append (inert_padded 2 _)).append (by decide)).append
    (inert_padded 2 _)

theorem inert_stamp (i : Instant) : Inert i.stamp := by
  have hweekday : ∀ t ∈ weekdays, Inert t := by decide
  have hmonth : ∀ t ∈ months, Inert t := by decide
  have hblank : Inert (" " : Text) := by decide
  exact ((((((((inert_getD hweekday _).append hblank).append (inert_getD hmonth _)).append
    hblank).append (inert_dayText _)).append hblank).append (inert_clockText _)).append
      hblank).append (inert_yearText _)

end Instant

/-! ### What is inserted into the files -/

/-- Nothing that the options insert into a file can be mistaken for a part of it. -/
structure Options.SelfContained (o : Options) : Prop where
  generator : Inert o.generator
  definitions : Inert o.definitions
  guard : isMacro o.guard = true
  buildConfig : (Directive.inclusion o.buildConfig).SelfContained
  userConfig : ∀ path ∈ o.userConfig, (Directive.inclusion path).SelfContained
  configHeader : (Directive.inclusion o.configHeader).SelfContained
  table : isMacro o.table = true
  count : isMacro o.count = true

theorem Options.selfContained_default (instant : Option Instant) :
    ({ instant } : Options).SelfContained := by
  have hpaths : ∀ path ∈ ["<cmake_config.hpp>", "myconfig-final.hpp", "config.hpp"].map
      (IncludePath.ofText ∘ String.toList),
        Inert path.path ∧ '>' ∉ path.path ∧ '"' ∉ path.path := by
    decide +kernel
  have hgenerator : Inert ("featurec" : Text) := by decide
  have hdefinitions : Inert ("features.def" : Text) := by decide
  have hmacros : ∀ t ∈ (["FEATURECONFIG_HPP", "FEATURES", "NUM_FEATURES"].map String.toList),
      isMacro t = true := by
    decide
  exact {
    generator := hgenerator
    definitions := hdefinitions
    guard := hmacros _ (by simp)
    buildConfig := hpaths _ (by simp)
    userConfig := by
      intro path hpath
      cases hpath
      exact hpaths _ (by simp)
    configHeader := hpaths _ (by simp)
    table := hmacros _ (by simp)
    count := hmacros _ (by simp) }

namespace Directive

/-- What is known of the directives of both files, apart from the lines of the include guard. -/
structure Sound (d : Directive) : Prop where
  selfContained : d.SelfContained
  readable : d.Readable
  unguarded : d.isGuard = false

theorem sound_heading {title : Text} (h : Inert title) : (heading title).Sound := ⟨h, trivial, rfl⟩

theorem sound_inclusion {path : IncludePath} (h : (inclusion path).SelfContained) :
    (inclusion path).Sound := ⟨h, trivial, rfl⟩

theorem sound_derivation {n : Name} {c : Condition} {e : Text} (h : Condition.ofText e = .ok c) :
    (derivation n c.human c.rendered).Sound := by
  obtain ⟨f, hf, -⟩ := Condition.exists_readCondition h
  exact ⟨Condition.spelling_of_ofText h, ⟨f, hf⟩, rfl⟩

theorem sound_requirement {n : Name} {c : Condition} {e : Text} (h : Condition.ofText e = .ok c) :
    (requirement n c.human c.rendered).Sound := by
  obtain ⟨f, -, hf⟩ := Condition.exists_readCondition_violation h n
  exact ⟨Condition.spelling_of_ofText h, ⟨_, hf⟩, rfl⟩

end Directive

namespace Plan

variable {t : Text} {r : RuleSet} {s : Settlement} {o : Options}

theorem sound_banner (ho : o.SelfContained) : (banner o).Sound := by
  refine ⟨⟨ho.generator, ?_, ho.definitions⟩, trivial, rfl⟩
  intro t ht
  obtain ⟨i, -, rfl⟩ := Option.map_eq_some_iff.1 ht
  exact i.inert_stamp

/-- What stands between the lines of the include guard. -/
def guarded (s : Settlement) (o : Options) : List Directive :=
  (.inclusion o.buildConfig :: o.userConfig.toList.map .inclusion) ++
    (.heading "Guards for externals" :: s.externals.map .undefine) ++
    [.heading "Definitions from the build system", .inclusion o.buildConfig] ++
    (.heading "Handle implications" :: implicationBlocks s) ++
    (.heading "Warn when derived switches are specified manually" :: derivationBlocks s) ++
    [.tableDeclaration o.table o.count]

theorem header_eq_guarded (s : Settlement) (o : Options) : (ofSettlement s o).header =
    [banner o] ++ [.guardBegin o.guard] ++ guarded s o ++ [.guardEnd o.guard] := by
  simp [ofSettlement, headerOf, guarded, implicationBlocks, derivationBlocks]

theorem sound_guarded (hread : Document.read t = .ok r) (hsettle : r.settle = .ok s)
    (ho : o.SelfContained) : ∀ d ∈ guarded s o, d.Sound := by
  have hbuild := Directive.sound_inclusion ho.buildConfig
  have huser : ∀ d ∈ o.userConfig.toList.map Directive.inclusion, d.Sound := by
    rw [List.forall_mem_map]
    exact fun path hpath => Directive.sound_inclusion (ho.userConfig path (Option.mem_toList.1 hpath))
  have hexternals : ∀ d ∈ s.externals.map Directive.undefine, d.Sound := by
    rw [List.forall_mem_map]
    exact fun n _ => ⟨trivial, trivial, rfl⟩
  have himplications : ∀ d ∈ implicationBlocks s, d.Sound := by
    rw [implicationBlocks, List.forall_mem_map]
    exact fun i _ => ⟨trivial, trivial, rfl⟩
  have hderivations : ∀ d ∈ derivationBlocks s, d.Sound := by
    rw [derivationBlocks, List.forall_mem_map]
    intro d hd
    obtain ⟨e, -, he⟩ :=
      Document.exists_equates hread ((RuleSet.perm_derivations hsettle).subset hd)
    exact Directive.sound_derivation he
  have htable : (Directive.tableDeclaration o.table o.count).Sound :=
    ⟨⟨ho.table, ho.count⟩, trivial, rfl⟩
  simp only [guarded, List.forall_mem_append, List.forall_mem_cons]
  refine ⟨⟨⟨⟨⟨⟨hbuild, huser⟩, ?_, hexternals⟩, ?_, hbuild, ?_⟩, ?_, himplications⟩, ?_,
    hderivations⟩, htable, ?_⟩
  · exact Directive.sound_heading (by decide)
  · exact Directive.sound_heading (by decide)
  · exact List.forall_mem_nil _
  · exact Directive.sound_heading (by decide)
  · exact Directive.sound_heading (by decide +kernel)
  · exact List.forall_mem_nil _

theorem sound_source (hread : Document.read t = .ok r) (hsettle : r.settle = .ok s)
    (ho : o.SelfContained) : ∀ d ∈ (ofSettlement s o).source, d.Sound := by
  have hconfig := Directive.sound_inclusion ho.configHeader
  have hrequirements : ∀ d ∈ requirementBlocks s, d.Sound := by
    rw [requirementBlocks, List.forall_mem_map]
    intro q hq
    obtain ⟨-, order, -, rfl⟩ := RuleSet.settle_eq_ok_iff.1 hsettle
    obtain ⟨e, he⟩ := Document.exists_text_of_requirement hread hq
    exact Directive.sound_requirement he
  have hentries : ∀ d ∈ s.features.map Directive.tableEntry, d.Sound := by
    rw [List.forall_mem_map]
    exact fun n _ => ⟨trivial, trivial, rfl⟩
  have hbegin : (Directive.tableBegin o.table).Sound := ⟨ho.table, trivial, rfl⟩
  have hend : (Directive.tableEnd o.table o.count).Sound := ⟨⟨ho.table, ho.count⟩, trivial, rfl⟩
  rw [source_ofSettlement]
  simp only [nameTable, List.forall_mem_append, List.forall_mem_cons]
  refine ⟨⟨sound_banner ho, hconfig, ?_⟩, ?_, hrequirements, ?_, hbegin, hentries, hend, ?_⟩
  · exact List.forall_mem_nil _
  · exact Directive.sound_heading (by decide)
  · exact Directive.sound_heading (by decide)
  · exact List.forall_mem_nil _

end Plan

/-! ### Going through the text of a file -/

namespace Directive

variable {files : Files} {m : Macros}

theorem scanText_render {directives : List Directive} (h : ∀ d ∈ directives, d.SelfContained)
    {o : Scan} (hrun : Scan.run files { macros := m } (directives.flatMap script) = some o)
    (hbranches : o.branches = []) : scanText files m (render directives) = some o := by
  rw [scanText, readLines_render h, Option.bind_some, hrun, Option.filter_some, hbranches]
  rfl

theorem exists_scanText {directives : List Directive} (h : ∀ d ∈ directives, d.Sound) :
    ∃ o, scanText files m (render directives) = some o ∧
      (Pass.run files { macros := m } directives).Agrees o := by
  have hstart : Pass.Agrees { macros := m } { macros := m } := ⟨rfl, rfl, rfl, rfl⟩
  obtain ⟨o, hrun, hbranches, hagrees⟩ := exists_run_scripts files
    (fun d hd => (h d hd).unguarded) (fun d hd => (h d hd).readable) (iff_of_true rfl rfl) hstart
  exact ⟨o, scanText_render (fun d hd => (h d hd).selfContained) hrun hbranches, hagrees⟩

/-- The lines that begin an include guard: what follows counts where its macro is not defined. -/
theorem exists_run_guardBegin (files : Files) {p : Pass} {o : Scan} (h : p.Agrees o) (hp : p.skipped = 0)
    (ho : o.branches = []) (guard : Text) : ∃ next branch,
      Scan.run files o (guardBegin guard).script = some next ∧ next.branches = [branch] ∧
        (next.counts = true ↔ (p.execute files (.guardBegin guard)).skipped = 0) ∧
          (p.execute files (.guardBegin guard)).Agrees next := by
  have hcounts : o.counts = true := by
    rw [Scan.counts, ho]
    rfl
  have hopening : o.step files (.ifndef guard) =
      some (o.enter (.ofBool (guard ∉ o.macros))) := by
    rw [Scan.step, hcounts, if_pos rfl]
  rw [script, Scan.run_cons hopening, h.macros]
  -- the plan counts the guards that it skips, the text remembers how its branch was entered
  by_cases hguard : guard ∈ p.macros
  · have hexecute : p.execute files (.guardBegin guard) = { p with skipped := 1 } := by
      rw [Pass.execute, hp]
      exact if_neg (not_and_not_right.2 fun _ => hguard)
    rw [hexecute, decide_eq_false (not_not_intro hguard)]
    refine ⟨o.enter .waiting, .waiting, rfl, congrArg _ ho, ?_, ?_⟩
    · exact iff_of_false Bool.false_ne_true one_ne_zero
    · exact ⟨h.macros, h.warnings, h.errors, h.entries⟩
  · have hexecute : p.execute files (.guardBegin guard) =
        { p with macros := p.macros.define guard } := if_pos ⟨hp, hguard⟩
    rw [hexecute, decide_eq_true hguard]
    refine ⟨{ o.enter .taken with macros := o.macros.define guard }, .taken, rfl, congrArg _ ho, ?_, ?_⟩
    · exact iff_of_true rfl hp
    · exact ⟨congrArg (Macros.define · guard) h.macros, h.warnings, h.errors, h.entries⟩

theorem exists_scanText_guarded {before body : List Directive} {guard : Text}
    (hbefore : ∀ d ∈ before, d.Sound) (hbody : ∀ d ∈ body, d.Sound)
    (hguard : isMacro guard = true) :
    ∃ o, scanText files m (render (before ++ [guardBegin guard] ++ body ++ [guardEnd guard])) =
        some o ∧
      (Pass.run files { macros := m }
        (before ++ [guardBegin guard] ++ body ++ [guardEnd guard])).Agrees o := by
  have hstart : Pass.Agrees { macros := m } { macros := m } := ⟨rfl, rfl, rfl, rfl⟩
  -- three stretches, each of which starts where the one before it has ended
  obtain ⟨first, hfirst, hfirstBranches, hfirstAgrees⟩ := exists_run_scripts files
    (fun d hd => (hbefore d hd).unguarded) (fun d hd => (hbefore d hd).readable)
    (iff_of_true rfl rfl) hstart
  obtain ⟨second, branch, hsecond, hsecondBranches, hcounts, hsecondAgrees⟩ :=
    exists_run_guardBegin files hfirstAgrees
      (Pass.skipped_run fun d hd => (hbefore d hd).unguarded) hfirstBranches guard
  obtain ⟨third, hthird, hthirdBranches, hthirdAgrees⟩ := exists_run_scripts files
    (fun d hd => (hbody d hd).unguarded) (fun d hd => (hbody d hd).readable) hcounts hsecondAgrees
  have hend : third.step files .endif = some { third with branches := [] } := by
    rw [Scan.step, hthirdBranches, hsecondBranches]
  refine ⟨{ third with branches := [] }, scanText_render ?_ ?_ rfl, ?_⟩
  · simp only [List.forall_mem_append, List.forall_mem_singleton]
    exact ⟨⟨⟨fun d hd => (hbefore d hd).selfContained, hguard⟩,
      fun d hd => (hbody d hd).selfContained⟩, hguard⟩
  · simp only [List.flatMap_append, List.flatMap_singleton, Scan.run_append, hfirst, hsecond,
      hthird, Option.bind_some]
    rw [script, Scan.run_cons hend]
    rfl
  · simp only [Pass.run_append]
    exact ⟨hthirdAgrees.macros, hthirdAgrees.warnings, hthirdAgrees.errors, hthirdAgrees.entries⟩

end Directive

namespace Directive

/-- The texts of a directive that are taken from the definitions. -/
def quoted : Directive → List Text
  | undefine n | tableEntry n => [n.text]
  | implication antecedent consequent => [antecedent.text, consequent.text]
  | derivation n human rendered | requirement n human rendered => [n.text, human, rendered]
  | _ => []

theorem Sound.isSpelling_of_mem_quoted {d : Directive} (h : d.Sound) :
    ∀ t ∈ d.quoted, ∀ c ∈ t, Condition.isSpelling c = true := by
  have hname : ∀ n : Name, ∀ c ∈ n.text, Condition.isSpelling c = true :=
    fun n c hc => isSpelling_of_isWordChar (isWordChar_of_mem_name hc)
  have hself := h.selfContained
  cases d with
  | derivation n human rendered =>
      exact List.forall_mem_cons.2 ⟨hname n, List.forall_mem_cons.2 ⟨hself.1.characters,
        List.forall_mem_singleton.2 hself.2.characters⟩⟩
  | requirement n human rendered =>
      exact List.forall_mem_cons.2 ⟨hname n, List.forall_mem_cons.2 ⟨hself.1.characters,
        List.forall_mem_singleton.2 hself.2.characters⟩⟩
  | implication a c =>
      exact List.forall_mem_cons.2 ⟨hname a, List.forall_mem_singleton.2 (hname c)⟩
  | undefine n => exact List.forall_mem_singleton.2 (hname n)
  | tableEntry n => exact List.forall_mem_singleton.2 (hname n)
  | _ => exact List.forall_mem_nil _

end Directive

/-- A text means what directives mean: going through its lines always ends with a result, which is
that of going through the directives, and its lines are those of the directives, whatever is taken
from the definitions into them. -/
structure Means (t : Text) (directives : List Directive) : Prop where
  scan : ∀ (files : Files) (start : Macros), ∃ o, scanText files start t = some o ∧
    (Pass.run files { macros := start } directives).Agrees o
  lines : readLines t = some (directives.flatMap Directive.script)
  quoted : ∀ d ∈ directives, ∀ u ∈ d.quoted, ∀ c ∈ u, Condition.isSpelling c = true

namespace Plan

variable {t : Text} {r : RuleSet} {s : Settlement} {o : Options}

theorem means_source (hread : Document.read t = .ok r) (hsettle : r.settle = .ok s)
    (ho : o.SelfContained) :
    Means (ofSettlement s o).render.source (ofSettlement s o).source := by
  have hsound := sound_source hread hsettle ho
  exact {
    scan := fun _ _ => Directive.exists_scanText hsound
    lines := Directive.readLines_render fun d hd => (hsound d hd).selfContained
    quoted := fun d hd => (hsound d hd).isSpelling_of_mem_quoted }

theorem means_header (hread : Document.read t = .ok r) (hsettle : r.settle = .ok s)
    (ho : o.SelfContained) :
    Means (ofSettlement s o).render.header (ofSettlement s o).header := by
  have hbanner : ∀ d ∈ [banner o], d.Sound := List.forall_mem_singleton.2 (sound_banner ho)
  have hguarded := sound_guarded hread hsettle ho
  have hself : ∀ d ∈ (ofSettlement s o).header, d.SelfContained := by
    simp only [header_eq_guarded, List.forall_mem_append, List.forall_mem_singleton]
    exact ⟨⟨⟨(sound_banner ho).selfContained, ho.guard⟩,
      fun d hd => (hguarded d hd).selfContained⟩, ho.guard⟩
  have hquoted : ∀ d ∈ (ofSettlement s o).header, ∀ u ∈ d.quoted, ∀ c ∈ u,
      Condition.isSpelling c = true := by
    simp only [header_eq_guarded, List.forall_mem_append, List.forall_mem_singleton]
    exact ⟨⟨⟨(sound_banner ho).isSpelling_of_mem_quoted, List.forall_mem_nil _⟩,
      fun d hd => (hguarded d hd).isSpelling_of_mem_quoted⟩, List.forall_mem_nil _⟩
  refine ⟨fun files start => ?_, Directive.readLines_render hself, hquoted⟩
  show ∃ o', scanText files start (Directive.render (ofSettlement s o).header) = some o' ∧ _
  rw [header_eq_guarded]
  exact Directive.exists_scanText_guarded hbanner hguarded ho.guard

end Plan

namespace Document

variable {t : Text} {r : RuleSet} {s : Settlement}

/-- Both files mean what their directives mean, whatever the definitions are. -/
theorem render_means_directives (hread : read t = .ok r) (hsettle : r.settle = .ok s)
    (instant : Option Instant) :
    let plan := Plan.ofSettlement s { instant }
    Means plan.render.header plan.header ∧ Means plan.render.source plan.source :=
  ⟨Plan.means_header hread hsettle (Options.selfContained_default instant),
    Plan.means_source hread hsettle (Options.selfContained_default instant)⟩

theorem render_means_directives_specimen : ∃ s, read specimen = .ok RuleSet.specimen ∧
    RuleSet.specimen.settle = .ok s ∧
      let plan := Plan.ofSettlement s { instant := some ⟨0⟩ }
      Means plan.render.header plan.header ∧ Means plan.render.source plan.source := by
  obtain ⟨s, hs⟩ := RuleSet.exists_settle_specimen
  exact ⟨s, read_specimen, hs, render_means_directives read_specimen hs (some ⟨0⟩)⟩

end Document

end FeatureGuard

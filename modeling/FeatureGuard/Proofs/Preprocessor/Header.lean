import FeatureGuard.Proofs.Preprocessor.Derivation
import FeatureGuard.Proofs.Preprocessor.Implication

/-!
The whole header. After one pass over it, the macros that are defined are those that the build
system, the user and the include guard define, except external features that the build system does
not define, together with what follows from them by the rules of the definitions.
-/

namespace FeatureGuard

variable {files : Files}

/-- The macros that the rules start from: what was defined before and what the user and the build
system define, except for external features, which only the build system defines. -/
def RuleSet.seeds (r : RuleSet) (before build user : Set Text) : Set Text :=
  ((before ∪ build ∪ user) \ {x | ∃ n ∈ r.declaredAs .external, n.text = x}) ∪ build

namespace Pass

/-! ### In front of the implications -/

theorem mem_foldl_undefine {names : List Name} {m : Macros} {x : Text} :
    x ∈ names.foldl (fun m n => m.undefine n.text) m ↔ x ∈ m ∧ ¬∃ n ∈ names, n.text = x := by
  induction names generalizing m with
  | nil => simp
  | cons n names ih =>
      rw [List.foldl_cons, ih, Macros.mem_undefine, List.exists_mem_cons_iff, not_or, eq_comm]
      constructor
      · rintro ⟨⟨hne, hx⟩, hrest⟩
        exact ⟨hx, hne, hrest⟩
      · rintro ⟨hx, hne, hrest⟩
        exact ⟨⟨hne, hx⟩, hrest⟩

theorem run_heading {p : Pass} (hp : p.skipped = 0) (title : Text) (rest : List Directive) :
    run files p (.heading title :: rest) = run files p rest := by
  rw [run_cons]
  exact congrArg (run files · rest) (if_pos hp)

theorem run_inclusions (paths : List IncludePath) (m : Macros) :
    run files { macros := m } (paths.map .inclusion) =
      { macros := (paths.flatMap files).foldl ConfigLine.run m } := by
  induction paths generalizing m with
  | nil => rfl
  | cons path paths ih =>
      rw [List.map_cons, run_cons, List.flatMap_cons, List.foldl_append]
      exact ih _

theorem run_undefines (names : List Name) (m : Macros) :
    run files { macros := m } (names.map .undefine) =
      { macros := names.foldl (fun m n => m.undefine n.text) m } := by
  induction names generalizing m with
  | nil => rfl
  | cons n names ih =>
      rw [List.map_cons, run_cons]
      exact ih _

/-- What is known of the files that a header includes: they define the macros that the build system
and the user ask for, and do nothing else. -/
structure Provides (files : Files) (o : Options) (build user : List Text) : Prop where
  build : files o.buildConfig = build.map .define
  user : o.userConfig.toList.flatMap files = user.map .define

/-- What a header includes does to the macros, whatever the files consist of. -/
theorem run_opening_lines {o : Options} {start : Macros} (hguard : o.guard ∉ start)
    (s : Settlement) :
    run files { macros := start } (Plan.opening s o) =
      { macros := (files o.buildConfig).foldl ConfigLine.run
          (s.externals.foldl (fun m n => m.undefine n.text)
            ((o.userConfig.toList.flatMap files).foldl ConfigLine.run
              ((files o.buildConfig).foldl ConfigLine.run (start.define o.guard)))) } := by
  have hbegin : run files { macros := start }
      [Plan.banner o, .guardBegin o.guard, .inclusion o.buildConfig] =
        { macros := (files o.buildConfig).foldl ConfigLine.run (start.define o.guard) } := by
    have hopens : execute files { macros := start } (.guardBegin o.guard) =
        { macros := start.define o.guard } := if_pos ⟨rfl, hguard⟩
    rw [run_cons, run_cons]
    show run files (execute files { macros := start } (.guardBegin o.guard)) _ = _
    rw [hopens]
    rfl
  have hexternals : ∀ m : Macros, run files { macros := m }
      (.heading "Guards for externals" :: s.externals.map .undefine) =
        { macros := s.externals.foldl (fun m n => m.undefine n.text) m } := by
    intro m
    rw [run_heading rfl, run_undefines]
  rw [Plan.opening, run_append, run_append, run_append, hbegin, run_inclusions, hexternals,
    run_heading rfl]
  rfl

theorem run_opening {o : Options} {build user : List Text} (h : Provides files o build user)
    {start : Macros} (hguard : o.guard ∉ start) (s : Settlement) :
    run files { macros := start } (Plan.opening s o) =
      { macros := (build.map .define).foldl ConfigLine.run
          (s.externals.foldl (fun m n => m.undefine n.text)
            ((user.map .define).foldl ConfigLine.run
              ((build.map .define).foldl ConfigLine.run (start.define o.guard)))) } := by
  rw [run_opening_lines hguard, h.build, h.user]

/-- The macros that are defined in front of the implications. -/
theorem mem_macros_run_opening {o : Options} {build user : List Text}
    (h : Provides files o build user) {start : Macros} (hguard : o.guard ∉ start) {r : RuleSet}
    {s : Settlement} (hs : r.settle = .ok s) :
    ((run files { macros := start } (Plan.opening s o)).macros : Set Text) =
      r.seeds (insert o.guard (start : Set Text)) {x | x ∈ build} {x | x ∈ user} := by
  obtain ⟨-, order, -, rfl⟩ := RuleSet.settle_eq_ok_iff.1 hs
  rw [run_opening h hguard]
  ext x
  show x ∈ (build.map .define).foldl ConfigLine.run _ ↔ _
  rw [mem_foldl_define, mem_foldl_undefine, mem_foldl_define, mem_foldl_define, Macros.mem_define]
  simp only [RuleSet.seeds, Set.mem_union, Set.mem_sdiff, Set.mem_insert_iff, Set.mem_ofPred_eq,
    SetLike.mem_coe]
  rw [or_comm]
  refine or_congr_left (and_congr_left' ?_)
  rw [or_comm, or_comm (a := x ∈ build)]

theorem run_header {s : Settlement} {o : Options} {p : Pass} {m : Macros}
    (h : run files p (Plan.opening s o) = { macros := m }) :
    run files p (Plan.ofSettlement s o).header =
      run files (run files { macros := s.implications.foldl Macros.imply m }
        (Plan.derivationBlocks s)) (Plan.closing o) := by
  rw [Plan.header_ofSettlement, run_append, h, run_heading rfl, run_append,
    run_implicationBlocks rfl, run_heading rfl, run_append]

end Pass

namespace RuleSet

/-- A name that follows from others is one of them or switched on by an implication. -/
theorem exists_implication_of_mem {r : RuleSet} {seeds implied : Set Text}
    (h : IsLeast {names : Set Text | seeds ⊆ names ∧ r.Closed names} implied) {x : Text}
    (hx : x ∈ implied) :
    x ∈ seeds ∨ ∃ i ∈ r.implications, i.consequent.text = x ∧ i.antecedent.text ∈ implied := by
  -- the names that have an origin are closed under the implications, too
  have hsub : implied ⊆ {x | x ∈ implied ∧ (x ∈ seeds ∨
      ∃ i ∈ r.implications, i.consequent.text = x ∧ i.antecedent.text ∈ implied)} := by
    refine h.2 ⟨fun y hy => ⟨h.1.1 hy, Or.inl hy⟩, ?_⟩
    rintro i hi ⟨hantecedent, -⟩
    exact ⟨h.1.2 i hi hantecedent, Or.inr ⟨i, hi, rfl, hantecedent⟩⟩
  exact (hsub hx).2

end RuleSet

namespace Document

variable {t : Text} {r : RuleSet} {s : Settlement}

/-- Names that consist of given ones and of the features that equal something that holds. -/
def Decides (t : Text) (given names : Set Text) : Prop :=
  ∀ x, x ∈ names ↔ x ∈ given ∨
    ∃ feature e, Equates t feature e ∧ feature.text = x ∧ Condition.HoldsIn e names

theorem decides_iff (hread : read t = .ok r) (hsettle : r.settle = .ok s)
    {given names : Set Text} :
    Decides t given names ↔ Derivation.Decide s.derivations given names :=
  forall_congr' fun _ => by rw [exists_derivation_iff hread hsettle]

/-- What the rules of a document make of names: the least ones that satisfy every implication, and
each derived feature whose equation holds. -/
def Settles (t : Text) (r : RuleSet) (seeds names : Set Text) : Prop :=
  ∃ implied, IsLeast {names : Set Text | seeds ⊆ names ∧ r.Closed names} implied ∧
    Decides t implied names

theorem Settles.unique (hread : read t = .ok r) (hsettle : r.settle = .ok s)
    {seeds S T : Set Text} (hS : Settles t r seeds S) (hT : Settles t r seeds T) : S = T := by
  obtain ⟨implied, hleast, hS⟩ := hS
  obtain ⟨implied', hleast', hT⟩ := hT
  obtain rfl := hleast.unique hleast'
  obtain ⟨hself, horder⟩ := RuleSet.pairwise_derivations hsettle
  rw [decides_iff hread hsettle] at hS hT
  exact hS.unique hself horder hT

theorem Settles.subset {seeds names : Set Text} (h : Settles t r seeds names) :
    seeds ⊆ names := by
  obtain ⟨implied, hleast, hdecides⟩ := h
  exact fun x hx => (hdecides x).2 (Or.inl (hleast.1.1 hx))

/-- Nothing is defined that is neither given nor switched on by a rule. -/
theorem Settles.origin {seeds names : Set Text} (h : Settles t r seeds names) {x : Text}
    (hx : x ∈ names) :
    x ∈ seeds ∨ (∃ i ∈ r.implications, i.consequent.text = x ∧ i.antecedent.text ∈ names) ∨
      ∃ feature e, Equates t feature e ∧ feature.text = x ∧ Condition.HoldsIn e names := by
  obtain ⟨implied, hleast, hdecides⟩ := h
  rcases (hdecides x).1 hx with himplied | hderived
  · rcases RuleSet.exists_implication_of_mem hleast himplied with hseed | ⟨i, hi, rfl, ha⟩
    · exact Or.inl hseed
    · exact Or.inr (Or.inl ⟨i, hi, rfl, (hdecides _).2 (Or.inl ha)⟩)
  · exact Or.inr (Or.inr hderived)

theorem settles_run_header (hread : read t = .ok r) (hsettle : r.settle = .ok s) {o : Options}
    {build user : List Text} (hfiles : Pass.Provides files o build user) {start : Macros}
    (hguard : o.guard ∉ start) :
    Settles t r (r.seeds (insert o.guard (start : Set Text)) {x | x ∈ build} {x | x ∈ user})
      (Pass.run files { macros := start } (Plan.ofSettlement s o).header).macros := by
  have hopening := Pass.run_opening hfiles hguard s
  have hseeds := Pass.mem_macros_run_opening hfiles hguard hsettle
  generalize hm : List.foldl ConfigLine.run _ _ = m at hopening
  rw [hopening] at hseeds
  have hblocks : Pass.Derives s.derivations { macros := s.implications.foldl Macros.imply m }
      (Pass.run files { macros := s.implications.foldl Macros.imply m }
        (Plan.derivationBlocks s)) := derives_run_derivationBlocks hread hsettle rfl
  have hleast := RuleSet.isLeast_foldl_imply hsettle m
  rw [hseeds] at hleast
  refine ⟨_, hleast, (decides_iff hread hsettle).2 ?_⟩
  rw [Pass.run_header hopening, Pass.run_closing hblocks.skipped]
  exact hblocks.macros

/-- The include guard is a macro like any other: where it bears the name of a feature, the header
defines that feature although nothing asks for it. -/
theorem guard_defines_feature :
    ¬∀ (t : Text) (r : RuleSet) (s : Settlement) (o : Options) (files : Files)
      (build user : List Text) (start : Macros), read t = .ok r → r.settle = .ok s →
      Pass.Provides files o build user → o.guard ∉ start →
      ∃ names, Settles t r (r.seeds start {x | x ∈ build} {x | x ∈ user}) names ∧
        ∀ feature, r.Declared feature → (feature.text ∈ names ↔ feature.text ∈
          (Pass.run files { macros := start } (Plan.ofSettlement s o).header).macros) := by
  intro h
  let a : Name := ⟨"A", rfl⟩
  let r : RuleSet := { declarations := [⟨a, .basic, 1⟩] }
  let o : Options := { guard := "A" }
  let start : Macros := ⟨fun _ => false⟩
  have hread : read "A\n" = .ok r := by decide +kernel
  have hacyclic : r.Acyclic :=
    RuleSet.acyclic_of_rank (fun _ => 0) (fun i hi => by cases hi) (fun d hd => by cases hd)
  obtain ⟨s, hsettle⟩ := RuleSet.exists_settle_iff.2 ⟨by decide +kernel, hacyclic⟩
  have hfiles : Pass.Provides (fun _ => []) o [] [] := ⟨rfl, rfl⟩
  have hguard : o.guard ∉ start := Bool.false_ne_true
  have hdefined : a.text ∈
      (Pass.run (fun _ => []) { macros := start } (Plan.ofSettlement s o).header).macros := by
    refine (settles_run_header hread hsettle hfiles hguard).subset (Or.inl ⟨?_, ?_⟩)
    · exact Or.inl (Or.inl (Set.mem_insert _ _))
    · rintro ⟨n, hn, -⟩
      cases hn
  obtain ⟨names, hsettles, hiff⟩ := h _ r s o _ [] [] start hread hsettle hfiles hguard
  have hmem := (hiff a ⟨_, List.mem_singleton.2 rfl, rfl⟩).2 hdefined
  rcases hsettles.origin hmem with (⟨((hx | hx) | hx), -⟩ | hx) | ⟨i, hi, -⟩ | ⟨D, e, hequates, -⟩
  · exact Bool.false_ne_true hx
  · cases hx
  · cases hx
  · cases hx
  · cases hi
  · obtain ⟨d, hd, -⟩ := exists_derivation_of_equates hread hequates
    cases hd

/-- One pass over the header defines what the rules make of the macros that the build system, the
user and the include guard define, and nothing else. -/
theorem header_settles (hread : read t = .ok r) (hsettle : r.settle = .ok s) (o : Options)
    {build user : List Text} (hfiles : Pass.Provides files o build user) {start : Macros}
    (hguard : o.guard ∉ start) :
    let final : Set Text :=
      (Pass.run files { macros := start } (Plan.ofSettlement s o).header).macros
    let seeds := r.seeds (insert o.guard (start : Set Text)) {x | x ∈ build} {x | x ∈ user}
    Settles t r seeds final ∧ (∀ names, Settles t r seeds names → names = final) ∧
      ∀ x ∈ final, x ∈ start ∨ x = o.guard ∨ x ∈ build ∨ x ∈ user ∨
        (∃ i ∈ r.implications, i.consequent.text = x ∧ i.antecedent.text ∈ final) ∨
          ∃ feature e, Equates t feature e ∧ feature.text = x ∧ Condition.HoldsIn e final := by
  intro final seeds
  have hfinal : Settles t r seeds final := settles_run_header hread hsettle hfiles hguard
  refine ⟨hfinal, fun names hnames => hnames.unique hread hsettle hfinal, fun x hx => ?_⟩
  rcases hfinal.origin hx with hseed | himplied | hderived
  · rcases hseed with ⟨((rfl | hstart) | hbuild) | huser, -⟩ | hbuild
    · exact Or.inr (Or.inl rfl)
    · exact Or.inl hstart
    · exact Or.inr (Or.inr (Or.inl hbuild))
    · exact Or.inr (Or.inr (Or.inr (Or.inl huser)))
    · exact Or.inr (Or.inr (Or.inl hbuild))
  · exact Or.inr (Or.inr (Or.inr (Or.inr (Or.inl himplied))))
  · exact Or.inr (Or.inr (Or.inr (Or.inr (Or.inr hderived))))

theorem header_settles_specimen :
    let files : Files := fun path => if path.system then [.define "E"] else [.define "A"]
    let build : List Text := ["E"]
    let user : List Text := ["A"]
    let start : Macros := ⟨(· = "B")⟩
    ∃ s, read specimen = .ok RuleSet.specimen ∧ RuleSet.specimen.settle = .ok s ∧
      Pass.Provides files {} build user ∧ ({} : Options).guard ∉ start ∧
        Settles specimen RuleSet.specimen
          (RuleSet.specimen.seeds (insert ({} : Options).guard (start : Set Text))
            {x | x ∈ build} {x | x ∈ user})
          (Pass.run files { macros := start } (Plan.ofSettlement s {}).header).macros := by
  intro files build user start
  have hfiles : Pass.Provides files {} build user := ⟨by decide, by decide⟩
  have hguard : ({} : Options).guard ∉ start := by decide
  obtain ⟨s, hs⟩ := RuleSet.exists_settle_specimen
  obtain ⟨hsettles, -⟩ := header_settles read_specimen hs {} hfiles hguard
  exact ⟨s, read_specimen, hs, hfiles, hguard, hsettles⟩

end Document

end FeatureGuard

import FeatureGuard.Proofs.Definitions.Line
import FeatureGuard.Proofs.Preprocessor.Artifacts
import FeatureGuard.Proofs.Preprocessor.Reordering

/-!
What the source reports. Going line by line through the text of its two sections raises one error
for every line of the document that requires something that does not hold, and leaves the compiler
one entry of the table for every line that declares a feature that is defined.
-/

namespace FeatureGuard

open Preprocessor

/-! ### Requirements that are not met -/

/-- A requirement is not met where its feature is defined and the text of its condition is not
true. -/
def Unmet (m : Macros) (q : Name × Text) : Prop :=
  q.1.text ∈ m ∧ ¬Condition.HoldsIn q.2 (m : Set Text)

instance (m : Macros) : DecidablePred (Unmet m) :=
  fun q => inferInstanceAs (Decidable (q.1.text ∈ m ∧ ¬Condition.HoldsIn q.2 (m : Set Text)))

/-- The error names the feature and the text of its condition, with single blanks between the
words. -/
def ReportsUnmet (q : Name × Text) (error : Text) : Prop :=
  ∃ human, Text.Squeezed q.2 human ∧ error = q.1.unmetError human

theorem reportsUnmet_iff {q : Name × Text} {error : Text} :
    ReportsUnmet q error ↔ error = q.1.unmetError (Condition.normalized q.2) := by
  simp only [ReportsUnmet, Text.squeezed_iff, exists_eq_left, Condition.normalized]

/-- A requirement complains exactly where the text that it comes from does not hold. -/
theorem Requirement.complaint?_bind_message? {q : Requirement} {e : Text}
    (h : Condition.ofText e = .ok q.condition) (m : Macros) :
    (q.complaint? m).bind Complaint.message? =
      if Unmet m (q.feature, e) then some (q.feature.unmetError (Condition.normalized e))
      else none := by
  have hholds : q.condition.isTrue m = false ↔ ¬Condition.HoldsIn e (m : Set Text) := by
    obtain ⟨⟨f, hf⟩, hmeaning⟩ := Condition.exists_readable h
    rw [← hmeaning, hf.holdsRendered_iff, ← Bool.not_eq_true, hf.isTrue_iff]
    rfl
  have hhuman : q.condition.human = Condition.normalized e := by
    obtain ⟨tokens, -, -, hcondition⟩ := Condition.ofText_eq_ok_iff.1 h
    rw [hcondition]
  have hunmet : q.feature.text ∈ m ∧ q.condition.isTrue m = false ↔ Unmet m (q.feature, e) :=
    and_congr_right fun _ => hholds
  rw [complaint?]
  by_cases h : Unmet m (q.feature, e)
  · rw [if_pos h, if_pos (hunmet.2 h), hhuman]
    rfl
  · rw [if_neg h, if_neg (mt hunmet.1 h)]
    rfl

/-- All complaints that have a message are found in the errors of the text, and nothing else. -/
theorem Pass.Agrees.errors_eq {p : Pass} {o : Scan} (h : p.Agrees o) :
    o.errors = p.complaints.filterMap Complaint.message? := by
  have herrors := congrArg (List.filterMap id) h.errors
  rwa [List.filterMap_map, List.filterMap_map, Function.id_comp, Function.id_comp,
    List.filterMap_some] at herrors

namespace Document

variable {t : Text} {r : RuleSet} {s : Settlement}

/-- The requirements of a document complain about what its lines require and does not hold, line by
line. -/
theorem forall₂_complaint? (hread : read t = .ok r) (m : Macros) :
    List.Forall₂ ReportsUnmet ((requirements t).filter (Unmet m ·))
      ((r.requirements.filterMap (Requirement.complaint? m)).filterMap Complaint.message?) := by
  rw [List.filterMap_filterMap]
  have hpairs := forall₂_requirements hread
  generalize r.requirements = rules at hpairs
  generalize requirements t = texts at hpairs
  induction hpairs with
  | nil => exact .nil
  | @cons q p rules texts hq _ ih =>
      obtain ⟨n, e⟩ := p
      obtain ⟨rfl, hcondition⟩ := hq
      rw [List.filterMap_cons, Requirement.complaint?_bind_message? hcondition]
      by_cases hunmet : Unmet m (q.feature, e)
      · rw [if_pos hunmet, List.filter_cons_of_pos (by simpa using hunmet)]
        exact .cons (reportsUnmet_iff.2 rfl) ih
      · rw [if_neg hunmet, List.filter_cons_of_neg (by simpa using hunmet)]
        exact ih

/-- Going through the requirements of the source raises one error for each line `R requires e` with
`R` defined and `e` false, in the order of the lines, and no other error. It names `R` and the text
of `e` with single blanks. -/
theorem errors_of_requirements (hread : read t = .ok r) (hsettle : r.settle = .ok s) (o : Options)
    (files : Files) (start : Macros) :
    ∃ final, scanText files start (Directive.render
        (Directive.below "Handle requirements" (Plan.ofSettlement s o).source)) = some final ∧
      List.Forall₂ ReportsUnmet ((requirements t).filter (Unmet start ·)) final.errors ∧
      final.macros = start ∧ final.warnings = [] := by
  have hsettled := RuleSet.requirements_settled hsettle
  have htexts : ∀ q ∈ s.requirements, ∃ e, Condition.ofText e = .ok q.condition := by
    rw [hsettled]
    exact fun q hq => exists_text_of_requirement hread hq
  have hsound : ∀ d ∈ Plan.requirementBlocks s, d.Sound := by
    rw [Plan.requirementBlocks, List.forall_mem_map]
    intro q hq
    obtain ⟨e, he⟩ := htexts q hq
    exact Directive.sound_requirement he
  rw [Plan.below_requirements]
  obtain ⟨final, hscan, hagrees⟩ : ∃ final,
      scanText files start (Directive.render (Plan.requirementBlocks s)) = some final ∧
        (Pass.run files { macros := start } (Plan.requirementBlocks s)).Agrees final :=
    Directive.exists_scanText hsound
  rw [Plan.requirementBlocks, Pass.run_requirements rfl htexts, hsettled] at hagrees
  refine ⟨final, hscan, ?_, hagrees.macros, hagrees.warnings⟩
  rw [hagrees.errors_eq]
  exact forall₂_complaint? hread start

/-- A document in which two features require something. -/
def demanding : Text :=
  "A\nB\nC\nA requires  not   B\tor C  and B // in any order\nC requires A"

theorem exists_settle_demanding :
    ∃ r s, read demanding = .ok r ∧ r.settle = .ok s := by
  let a : Name := ⟨"A", rfl⟩
  let b : Name := ⟨"B", rfl⟩
  let c : Name := ⟨"C", rfl⟩
  let r : RuleSet :=
    { declarations := [⟨a, .basic, 1⟩, ⟨b, .basic, 2⟩, ⟨c, .basic, 3⟩]
      requirements := [
        ⟨a, ⟨"not B or C and B", "!defined(B) || defined(C) && defined(B)", [b, c]⟩, 4⟩,
        ⟨c, ⟨"A", "defined(A)", [a]⟩, 5⟩] }
  have hread : read demanding = .ok r := by decide +kernel
  have hacyclic : r.Acyclic :=
    RuleSet.acyclic_of_rank (fun _ => 0) (List.forall_mem_nil _) (List.forall_mem_nil _)
  obtain ⟨s, hs⟩ := RuleSet.exists_settle_iff.2 ⟨by decide +kernel, hacyclic⟩
  exact ⟨r, s, hread, hs⟩

/-- Where `A` and `B` are defined, `A` requires something that does not hold, and `C` is free. -/
theorem errors_of_demanding : ∃ r s final, read demanding = .ok r ∧ r.settle = .ok s ∧
    scanText (fun _ => []) ⟨(· ∈ (["A", "B"] : List Text))⟩ (Directive.render
      (Directive.below "Handle requirements" (Plan.ofSettlement s {}).source)) = some final ∧
    final.errors = [("Feature A requires not B or C and B" : Text)] := by
  obtain ⟨r, s, hread, hs⟩ := exists_settle_demanding
  obtain ⟨final, hscan, herrors, -⟩ :=
    errors_of_requirements hread hs {} (fun _ => []) ⟨(· ∈ (["A", "B"] : List Text))⟩
  have hunmet : (requirements demanding).filter (Unmet ⟨(· ∈ (["A", "B"] : List Text))⟩ ·) =
      ([(⟨"A", rfl⟩, "not   B\tor C  and B")] : List (Name × Text)) := by decide +kernel
  refine ⟨r, s, final, hread, hs, hscan, ?_⟩
  rw [hunmet] at herrors
  obtain ⟨error, rest, herror, hrest, hall⟩ := List.forall₂_cons_left_iff.1 herrors
  rw [hall, List.forall₂_nil_left_iff.1 hrest, reportsUnmet_iff.1 herror]
  decide +kernel

/-! ### The table of names -/

/-- The features that the lines of a document declare, external ones first and derived ones last. -/
def features (t : Text) : List Name :=
  declared t .external ++ declared t .basic ++ declared t .derived

theorem features_settlement (hread : read t = .ok r) (hsettle : r.settle = .ok s) :
    s.features = features t := by
  rw [RuleSet.features_settled hsettle, declaredAs_eq hread, declaredAs_eq hread,
    declaredAs_eq hread, features]

theorem mem_features {n : Name} : n ∈ features t ↔
    ∃ content ∈ contents t, ∃ kind, Statement.declaration? content = some (n, kind) := by
  have hmem : ∀ kind, n ∈ declared t kind ↔
      ∃ content ∈ contents t, Statement.declaration? content = some (n, kind) := by
    intro kind
    simp [declared]
  simp only [features, List.mem_append, hmem]
  constructor
  · rintro ((⟨content, h⟩ | ⟨content, h⟩) | ⟨content, h⟩)
    all_goals exact ⟨content, h.1, _, h.2⟩
  · rintro ⟨content, hmem, kind, h⟩
    cases kind with
    | external => exact .inl (.inl ⟨content, hmem, h⟩)
    | basic => exact .inl (.inr ⟨content, hmem, h⟩)
    | derived => exact .inr ⟨content, hmem, h⟩

theorem run_table (hread : read t = .ok r) (hsettle : r.settle = .ok s) (o : Options)
    (files : Files) (start : Macros) :
    Pass.run files { macros := start }
        (Directive.below "Feature list" (Plan.ofSettlement s o).source) =
      { macros := start, listed := (features t).filter fun n => n.text ∈ start } := by
  rw [Plan.below_nameTable, Pass.run_nameTable rfl, features_settlement hread hsettle]
  rfl

/-- The active entries of the table are the features that are defined among those that some line
declares, each once, external ones first and derived ones last, in the order of the lines. In the
text they are the only lines of the section that hold an entry. -/
theorem table_lists_features (hread : read t = .ok r) (hsettle : r.settle = .ok s) (o : Options)
    (files : Files) (start : Macros) :
    let table := Directive.below "Feature list" (Plan.ofSettlement s o).source
    let listed := (Pass.run files { macros := start } table).listed
    listed = (features t).filter (fun n => n.text ∈ start) ∧ listed.Nodup ∧
    (∀ n, n ∈ listed ↔ n.text ∈ start ∧
      ∃ content ∈ contents t, ∃ kind, Statement.declaration? content = some (n, kind)) ∧
    (isMacro o.table = true → isMacro o.count = true →
      ∃ final, scanText files start (Directive.render table) = some final ∧
        final.code.filterMap entry? = listed.map Name.text ∧ final.macros = start) := by
  intro table listed
  have hrun := run_table hread hsettle o files start
  have hlisted : listed = (features t).filter fun n => n.text ∈ start := congrArg Pass.listed hrun
  refine ⟨hlisted, ?_, ?_, ?_⟩
  · rw [hlisted, ← features_settlement hread hsettle]
    exact (RuleSet.nodup_features hsettle).filter _
  · intro n
    rw [hlisted, List.mem_filter, decide_eq_true_iff, mem_features, and_comm]
  · intro htable hcount
    have hsound : ∀ d ∈ table, d.Sound := by
      simp only [table, Plan.below_nameTable, Plan.nameTable, List.forall_mem_append,
        List.forall_mem_cons, List.forall_mem_map]
      exact ⟨⟨htable, trivial, rfl⟩, fun n _ => ⟨trivial, trivial, rfl⟩,
        ⟨⟨htable, hcount⟩, trivial, rfl⟩, List.forall_mem_nil _⟩
    obtain ⟨final, hscan, hagrees⟩ : ∃ final,
        scanText files start (Directive.render table) = some final ∧
          (Pass.run files { macros := start } table).Agrees final :=
      Directive.exists_scanText hsound
    refine ⟨final, hscan, hagrees.entries, ?_⟩
    rw [hagrees.macros]
    exact congrArg Pass.macros hrun

/-- Where `B`, `E` and some other macro are defined, the table lists `E` and then `B`. -/
theorem table_lists_specimen : ∃ s final, read specimen = .ok RuleSet.specimen ∧
    RuleSet.specimen.settle = .ok s ∧
    scanText (fun _ => []) ⟨(· ∈ (["B", "E", "Z"] : List Text))⟩ (Directive.render
      (Directive.below "Feature list" (Plan.ofSettlement s {}).source)) = some final ∧
    final.code.filterMap entry? = [("E" : Text), ("B" : Text)] := by
  obtain ⟨s, hs⟩ := RuleSet.exists_settle_specimen
  obtain ⟨hlisted, -, -, htext⟩ := table_lists_features read_specimen hs {} (fun _ => [])
    ⟨(· ∈ (["B", "E", "Z"] : List Text))⟩
  obtain ⟨final, hscan, hentries, -⟩ := htext (by decide) (by decide)
  refine ⟨s, final, read_specimen, hs, hscan, hentries.trans ?_⟩
  rw [hlisted]
  decide +kernel

end Document

end FeatureGuard

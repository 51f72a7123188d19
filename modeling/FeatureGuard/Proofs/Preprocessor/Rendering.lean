import FeatureGuard.Proofs.Preprocessor.Requirement
import FeatureGuard.Proofs.Preprocessor.Scan
import FeatureGuard.Proofs.Preprocessor.Script

/-!
Rendered files. Going through the lines of a rendered file does what going through its directives
does: each directive is simulated by the lines that its text is read as, whether they count or not.
-/

namespace FeatureGuard

open Preprocessor

variable {files : Files}

namespace Preprocessor.Scan

variable {o : Scan}

theorem run_append (first second : List Line) :
    run files o (first ++ second) = (run files o first).bind fun o => run files o second :=
  List.foldlM_append

theorem run_cons {line : Line} {next : Scan} (h : o.step files line = some next)
    (lines : List Line) : run files o (line :: lines) = run files next lines := by
  rw [run, List.foldlM_cons, h]
  rfl

/-! ### Conditionals -/

/-- What a line does that is no part of a conditional has nothing to do with the conditionals
around it. -/
theorem perform_enter (line : Line) (branch : Branch) :
    (o.enter branch).perform files line = (o.perform files line).map (·.enter branch) := by
  cases line <;> rfl

theorem step_ifHolds (h : o.counts = true) {condition : Text} {f : Formula Text}
    (hf : readCondition condition = some f) :
    o.step files (.ifHolds condition) = some (o.enter (.ofBool (f.Holds (· ∈ o.macros)))) := by
  rw [step, h, if_pos rfl, evaluate, hf]
  rfl

theorem step_ifdef (h : o.counts = true) (name : Text) :
    o.step files (.ifdef name) = some (o.enter (.ofBool (name ∈ o.macros))) := by
  rw [step, h, if_pos rfl]

/-- A line that is no part of a conditional. -/
def IsSingle (line : Line) : Prop :=
  ∀ (files : Files) (o : Scan), o.step files line = if o.counts then o.perform files line else some o

theorem step_single (h : o.counts = true) {line : Line} (hline : IsSingle line) :
    o.step files line = o.perform files line := by
  rw [hline, h, if_pos rfl]

theorem run_single_skipped (h : o.counts = false) {lines : List Line}
    (hlines : ∀ line ∈ lines, IsSingle line) : run files o lines = some o := by
  induction lines with
  | nil => rfl
  | cons line lines ih =>
      obtain ⟨hline, hlines⟩ := List.forall_mem_cons.1 hlines
      have hstep : o.step files line = some o := by
        rw [hline, h]
        rfl
      rw [run_cons hstep]
      exact ih hlines

/-- The last branch of a conditional, with a single line. -/
theorem run_branch {line : Line} {holds : Bool} {next : Scan} (hline : IsSingle line)
    (hnext : o.perform files line = some next) :
    run files (o.enter (.ofBool holds)) [line, .endif] = some (if holds then next else o) := by
  simp only [run, List.foldlM_cons, List.foldlM_nil, hline files, perform_enter, hnext,
    Option.bind_eq_bind]
  cases holds with
  | true => rfl
  | false => rfl

/-- A conditional with a single line, where no line counts. -/
theorem run_conditional_skipped {opening line : Line}
    (hopening : o.step files opening = some (o.enter .closed)) (hline : IsSingle line) :
    run files o [opening, line, .endif] = some o := by
  rw [run_cons hopening, run_cons (hline files _)]
  rfl

end Preprocessor.Scan

/-! ### What the two passes have seen -/

/-- The message of an error line. A condition that cannot be read has none: there, the pass over
lines ends without a result. -/
def Complaint.message? : Complaint → Option Text
  | unmet feature human => some (feature.unmetError human)
  | malformed _ => none

/-- A pass over directives and one over lines have come to the same. -/
structure Pass.Agrees (p : Pass) (o : Scan) : Prop where
  macros : o.macros = p.macros
  warnings : o.warnings = p.warnings.map Name.manualWarning
  errors : o.errors.map some = p.complaints.map Complaint.message?
  entries : o.code.filterMap entry? = p.listed.map Name.text

namespace Directive

/-- The conditions of a directive can be read. -/
def Readable : Directive → Prop
  | derivation _ _ rendered => ∃ f, readCondition rendered = some f
  | requirement feature _ rendered => ∃ f, readCondition (Pass.violation feature rendered) = some f
  | _ => True

def isGuard : Directive → Bool
  | guardBegin _ | guardEnd _ => true
  | _ => false

/-- Where lines do not count, the lines of a directive change nothing. -/
theorem run_script_skipped {d : Directive} (hd : d.isGuard = false) {o : Scan}
    (h : o.counts = false) : Scan.run files o d.script = some o := by
  have hifdef : ∀ name, o.step files (.ifdef name) = some (o.enter .closed) := by
    intro name
    rw [Scan.step, h]
    rfl
  have hifHolds : ∀ condition, o.step files (.ifHolds condition) = some (o.enter .closed) := by
    intro condition
    rw [Scan.step, h]
    rfl
  -- a block that is entered here is closed for good, so that none of its branches counts either
  cases d with
  | guardBegin guard => cases hd
  | guardEnd guard => cases hd
  | banner generator stamp definitions => rfl
  | heading title => rfl
  | undefine feature => exact Scan.run_conditional_skipped (hifHolds _) fun _ _ => rfl
  | implication antecedent consequent =>
      exact Scan.run_conditional_skipped (hifHolds _) fun _ _ => rfl
  | requirement feature human rendered =>
      exact Scan.run_conditional_skipped (hifHolds _) fun _ _ => rfl
  | tableEntry feature => exact Scan.run_conditional_skipped (hifdef _) fun _ _ => rfl
  | derivation feature human rendered =>
      rw [script, Scan.run_cons (hifdef _)]
      rfl
  | inclusion path =>
      exact Scan.run_single_skipped h (List.forall_mem_singleton.2 fun _ _ => rfl)
  | tableBegin table =>
      exact Scan.run_single_skipped h (List.forall_mem_singleton.2 fun _ _ => rfl)
  | tableDeclaration table count =>
      exact Scan.run_single_skipped h
        (List.forall_mem_cons.2 ⟨fun _ _ => rfl, List.forall_mem_singleton.2 fun _ _ => rfl⟩)
  | tableEnd table count =>
      exact Scan.run_single_skipped h
        (List.forall_mem_cons.2 ⟨fun _ _ => rfl, List.forall_mem_singleton.2 fun _ _ => rfl⟩)

end Directive

/-! ### Conditions of the blocks -/

theorem Macros.undefine_eq_self {m : Macros} {name : Text} (h : name ∉ m) :
    m.undefine name = m := by
  refine SetLike.ext fun x => ?_
  rw [mem_undefine, and_iff_right_iff_imp]
  rintro hx rfl
  exact h hx

theorem readCondition_defined (n : Name) :
    readCondition ("defined(" ++ n.text ++ ")") = some (.atom n.text) := by
  have hspells : Spells .sum (List.map Token.symbol [.name n]) (.atom n) :=
    .product (.unit .operand)
  exact readCondition_render hspells

theorem readCondition_implication (a c : Name) :
    readCondition ("defined(" ++ a.text ++ ") && !defined(" ++ c.text ++ ")") =
      some (.and (.atom a.text) (.not (.atom c.text))) := by
  have htext : Token.render [.name a, .and, .not, .name c] =
      ("defined(" ++ a.text ++ ") && !defined(" ++ c.text ++ ")" : Text) := by
    have hname : Token.spaced (.name a) .and = true := by simp [Token.spaced]
    have hand : Token.spaced .and .not = true := by simp [Token.spaced]
    have hnot : Token.spaced .not (.name c) = false := by simp [Token.spaced]
    have hmiddle : (") && !defined(" : Text) =
        [')'] ++ ([' '] ++ (['&', '&'] ++ ([' '] ++ (['!'] ++ ("defined(" : Text))))) := rfl
    rw [Token.render, Token.render, Token.render, Token.render, hname, hand, hnot, hmiddle]
    show ("defined(" : Text) ++ a.text ++ [')'] ++ [' '] ++
      (['&', '&'] ++ [' '] ++ (['!'] ++ [] ++ (("defined(" : Text) ++ c.text ++ [')']))) =
        ("defined(" : Text) ++ a.text ++ _ ++ c.text ++ [')']
    simp only [List.append_assoc, List.nil_append]
  have hspells : Spells .sum (List.map Token.symbol [.name a, .and, .not, .name c])
      (.and (.atom a) (.not (.atom c))) := .product (.and (.unit .operand) (.not .operand))
  rw [← htext]
  exact readCondition_render hspells

/-- The last branch of a conditional does what is done under a condition. -/
theorem exists_run_branch {line : Line} {condition : Prop} [Decidable condition] {p q : Pass}
    {o next : Scan} (hline : Scan.IsSingle line) (hnext : o.perform files line = some next)
    (hbranches : next.branches = o.branches) (h : p.Agrees o) (hq : q.Agrees next) :
    ∃ final, Scan.run files (o.enter (.ofBool condition)) [line, .endif] = some final ∧
      final.branches = o.branches ∧ (if condition then q else p).Agrees final := by
  refine ⟨_, Scan.run_branch hline hnext, ?_⟩
  by_cases hcondition : condition
  · rw [if_pos hcondition, if_pos (decide_eq_true hcondition)]
    exact ⟨hbranches, hq⟩
  · rw [if_neg hcondition, if_neg (by rwa [decide_eq_true_iff])]
    exact ⟨rfl, h⟩

namespace Directive

variable {p : Pass} {o : Scan}

theorem exists_run_undefine (h : p.Agrees o) (ho : o.counts = true) (n : Name) :
    ∃ next, Scan.run files o (undefine n).script = some next ∧ next.branches = o.branches ∧
      (p.perform files (.undefine n)).Agrees next := by
  have hperform : p.perform files (.undefine n) = if n.text ∈ o.macros then
      { p with macros := p.macros.undefine n.text } else p := by
    rw [Pass.perform, h.macros]
    split
    · rfl
    · rename_i hn
      rw [Macros.undefine_eq_self hn]
  rw [hperform, script, Scan.run_cons (Scan.step_ifHolds ho (readCondition_defined n))]
  refine exists_run_branch (fun _ _ => rfl) rfl rfl h ⟨?_, h.warnings, h.errors, h.entries⟩
  rw [h.macros]

theorem exists_run_implication (h : p.Agrees o) (ho : o.counts = true) (a c : Name) :
    ∃ next, Scan.run files o (implication a c).script = some next ∧ next.branches = o.branches ∧
      (p.perform files (.implication a c)).Agrees next := by
  rw [Pass.perform, ← h.macros, script,
    Scan.run_cons (Scan.step_ifHolds ho (readCondition_implication a c))]
  exact exists_run_branch (fun _ _ => rfl) rfl rfl h ⟨rfl, h.warnings, h.errors, h.entries⟩

/-- The condition of a derivation is looked at only where the feature is not defined. -/
theorem exists_run_derivation (h : p.Agrees o) (ho : o.counts = true) {n : Name}
    {human rendered : Text} {f : Formula Text} (hf : readCondition rendered = some f) :
    ∃ next, Scan.run files o (derivation n human rendered).script = some next ∧
      next.branches = o.branches ∧ (p.perform files (.derivation n human rendered)).Agrees next := by
  rw [Pass.perform, Pass.whenHolds_eq hf, ← h.macros, script,
    Scan.run_cons (Scan.step_ifdef ho n.text)]
  -- the first branch warns where the feature is defined; the second one asks for the condition
  by_cases hn : n.text ∈ o.macros
  · rw [if_pos hn, decide_eq_true hn]
    refine ⟨{ o with warnings := o.warnings ++ [n.manualWarning] }, rfl, rfl,
      ⟨rfl, ?_, h.errors, h.entries⟩⟩
    simp [h.warnings]
  · have helif : (o.enter .waiting).step files (.elifHolds rendered) =
        some (o.enter (.ofBool (f.Holds (· ∈ o.macros)))) := by
      show ((o.enter .waiting).evaluate rendered).map _ = _
      rw [Scan.evaluate, hf]
      rfl
    rw [if_neg hn, decide_eq_false hn]
    show ∃ next, Scan.run files (o.enter .waiting) _ = some next ∧ _
    have hskipped : (o.enter .waiting).step files (.warning n.manualWarning) =
        some (o.enter .waiting) := rfl
    rw [Scan.run_cons hskipped, Scan.run_cons helif]
    exact exists_run_branch (fun _ _ => rfl) rfl rfl h ⟨rfl, h.warnings, h.errors, h.entries⟩

theorem exists_run_requirement (h : p.Agrees o) (ho : o.counts = true) {n : Name}
    {human rendered : Text} {f : Formula Text}
    (hf : readCondition (Pass.violation n rendered) = some f) :
    ∃ next, Scan.run files o (requirement n human rendered).script = some next ∧
      next.branches = o.branches ∧ (p.perform files (.requirement n human rendered)).Agrees next := by
  rw [Pass.perform, Pass.whenHolds_eq hf, ← h.macros, script,
    Scan.run_cons (Scan.step_ifHolds ho hf)]
  refine exists_run_branch (fun _ _ => rfl) rfl rfl h ⟨h.macros, h.warnings, ?_, h.entries⟩
  simp [Pass.complain, h.errors, Complaint.message?]

theorem exists_run_tableEntry (h : p.Agrees o) (ho : o.counts = true) (n : Name) :
    ∃ next, Scan.run files o (tableEntry n).script = some next ∧ next.branches = o.branches ∧
      (p.perform files (.tableEntry n)).Agrees next := by
  have hentry : entry? n.entryLine = some n.text := entry?_append n.text
  rw [Pass.perform, ← h.macros, script, Scan.run_cons (Scan.step_ifdef ho n.text)]
  refine exists_run_branch (fun _ _ => rfl) rfl rfl h ⟨rfl, h.warnings, h.errors, ?_⟩
  simp [h.entries, hentry]

/-- Lines for the compiler that are no entries of the table. -/
theorem exists_run_code (h : p.Agrees o) (ho : o.counts = true) {texts : List Text}
    (htexts : ∀ t ∈ texts, entry? t = none) :
    ∃ next, Scan.run files o (texts.map .code) = some next ∧ next.branches = o.branches ∧
      p.Agrees next := by
  induction texts generalizing o with
  | nil => exact ⟨o, rfl, rfl, h⟩
  | cons t texts ih =>
      obtain ⟨ht, htexts⟩ := List.forall_mem_cons.1 htexts
      have hagrees : p.Agrees { o with code := o.code ++ [t] } :=
        ⟨h.macros, h.warnings, h.errors, by simp [h.entries, ht]⟩
      rw [List.map_cons, Scan.run_cons (Scan.step_single ho fun _ _ => rfl)]
      exact ih hagrees ho htexts

/-- Where lines count, the lines of a directive do what the directive does. -/
theorem exists_run_script (files : Files) {d : Directive} (hd : d.isGuard = false) (hread : d.Readable)
    (hp : p.skipped = 0) (h : p.Agrees o) (ho : o.counts = true) :
    ∃ next, Scan.run files o d.script = some next ∧ next.branches = o.branches ∧
      (p.execute files d).Agrees next := by
  have hexecute : p.execute files d = p.perform files d := by
    cases d with
    | guardBegin guard => cases hd
    | guardEnd guard => cases hd
    | _ => exact if_pos hp
  rw [hexecute]
  cases d with
  | guardBegin guard => cases hd
  | guardEnd guard => cases hd
  | banner generator stamp definitions => exact ⟨o, rfl, rfl, h⟩
  | heading title => exact ⟨o, rfl, rfl, h⟩
  | inclusion path =>
      refine ⟨{ o with macros := (files path).foldl ConfigLine.run o.macros }, ?_, rfl,
        ⟨?_, h.warnings, h.errors, h.entries⟩⟩
      · rw [script, Scan.run_cons (Scan.step_single ho fun _ _ => rfl)]
        rfl
      · rw [Pass.perform, h.macros]
  | undefine n => exact exists_run_undefine h ho n
  | implication a c => exact exists_run_implication h ho a c
  | derivation n human rendered =>
      obtain ⟨f, hf⟩ := hread
      exact exists_run_derivation h ho hf
  | requirement n human rendered =>
      obtain ⟨f, hf⟩ := hread
      exact exists_run_requirement h ho hf
  | tableEntry n => exact exists_run_tableEntry h ho n
  | tableBegin table => exact exists_run_code h ho (List.forall_mem_singleton.2 rfl)
  | tableDeclaration table count =>
      exact exists_run_code h ho
        (List.forall_mem_cons.2 ⟨rfl, List.forall_mem_singleton.2 rfl⟩)
  | tableEnd table count =>
      exact exists_run_code h ho
        (List.forall_mem_cons.2 ⟨rfl, List.forall_mem_singleton.2 rfl⟩)

end Directive

/-! ### Lists of directives -/

namespace Pass

variable {p : Pass} {d : Directive}

theorem skipped_whenHolds {condition : Text} {next : Pass} (h : next.skipped = p.skipped) :
    (p.whenHolds condition next).skipped = p.skipped := by
  rw [whenHolds]
  split
  · rfl
  · split
    · exact h
    · rfl

theorem skipped_execute (hd : d.isGuard = false) : (p.execute files d).skipped = p.skipped := by
  have hperform : (p.perform files d).skipped = p.skipped := by
    cases d with
    | implication a c =>
        rw [perform]
        split <;> rfl
    | derivation n human rendered =>
        rw [perform]
        split
        · rfl
        · exact skipped_whenHolds rfl
    | requirement n human rendered => exact skipped_whenHolds rfl
    | tableEntry n =>
        rw [perform]
        split <;> rfl
    | _ => rfl
  have hexecute : p.execute files d = if p.skipped = 0 then p.perform files d else p := by
    cases d with
    | guardBegin guard => cases hd
    | guardEnd guard => cases hd
    | _ => rfl
  rw [hexecute]
  split
  · exact hperform
  · rfl

theorem skipped_run {directives : List Directive} (h : ∀ d ∈ directives, d.isGuard = false) :
    (p.run files directives).skipped = p.skipped := by
  induction directives generalizing p with
  | nil => rfl
  | cons d directives ih =>
      obtain ⟨hd, hrest⟩ := List.forall_mem_cons.1 h
      rw [run_cons, ih hrest, skipped_execute hd]

theorem execute_of_skipped (hd : d.isGuard = false) (hp : p.skipped ≠ 0) :
    p.execute files d = p := by
  cases d with
  | guardBegin guard => cases hd
  | guardEnd guard => cases hd
  | _ => exact if_neg hp

end Pass

/-- Directives between which no include guard begins or ends, whether their lines count or not. -/
theorem Directive.exists_run_scripts (files : Files) {directives : List Directive}
    (hguard : ∀ d ∈ directives, d.isGuard = false) (hread : ∀ d ∈ directives, d.Readable)
    {p : Pass} {o : Scan} (hcounts : o.counts = true ↔ p.skipped = 0) (h : p.Agrees o) :
    ∃ next, Scan.run files o (directives.flatMap script) = some next ∧
      next.branches = o.branches ∧ (p.run files directives).Agrees next := by
  induction directives generalizing p o with
  | nil => exact ⟨o, rfl, rfl, h⟩
  | cons d directives ih =>
      obtain ⟨hd, hguard⟩ := List.forall_mem_cons.1 hguard
      obtain ⟨hdread, hread⟩ := List.forall_mem_cons.1 hread
      -- no directive in between changes whether lines count, so one case holds for all that follow
      rw [Pass.run_cons, List.flatMap_cons, Scan.run_append]
      by_cases hp : p.skipped = 0
      · obtain ⟨next, hnext, hbranches, hagrees⟩ :=
          exists_run_script files hd hdread hp h (hcounts.2 hp)
        have hnextCounts : next.counts = true ↔ (p.execute files d).skipped = 0 := by
          rw [Scan.counts, hbranches, Pass.skipped_execute hd]
          exact hcounts
        obtain ⟨final, hfinal, hfinalBranches, hfinalAgrees⟩ := ih hguard hread hnextCounts hagrees
        rw [hnext]
        exact ⟨final, hfinal, hfinalBranches.trans hbranches, hfinalAgrees⟩
      · have ho : o.counts = false := Bool.eq_false_iff.2 (mt hcounts.1 hp)
        rw [Pass.execute_of_skipped hd hp, run_script_skipped hd ho]
        exact ih hguard hread hcounts h

end FeatureGuard

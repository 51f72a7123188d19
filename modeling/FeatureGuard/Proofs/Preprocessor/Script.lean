import FeatureGuard.Artifact.Directive
import FeatureGuard.Proofs.Preprocessor.Line
import FeatureGuard.Proofs.Preprocessor.Pass

/-!
The text of a directive as the preprocessor reads it. As long as the texts that are inserted into a
directive hold no character that means anything to the preprocessor outside of a line, its text is
read as the same lines wherever it stands, and what follows it is read as if it stood alone.
-/

namespace FeatureGuard

namespace Preprocessor

/-! ### Inert texts -/

/-- Characters that neither end a line nor continue it, nor begin a comment or a literal. -/
def isOrdinary (c : Char) : Bool := c ∉ ['\n', '\\', '/', '"', '\'']

/-- Ordinary characters that cannot end a comment either. -/
def isInert (c : Char) : Bool := isOrdinary c && c ≠ '*'

def Ordinary (t : Text) : Prop := ∀ c ∈ t, isOrdinary c = true

def Inert (t : Text) : Prop := ∀ c ∈ t, isInert c = true

instance (t : Text) : Decidable (Ordinary t) := List.decidableBAll (fun c => isOrdinary c = true) t

instance (t : Text) : Decidable (Inert t) := List.decidableBAll (fun c => isInert c = true) t

theorem Ordinary.append {a b : Text} (ha : Ordinary a) (hb : Ordinary b) : Ordinary (a ++ b) :=
  List.forall_mem_append.2 ⟨ha, hb⟩

theorem Ordinary.not_mem {t : Text} (h : Ordinary t) {c : Char} (hc : isOrdinary c = false) :
    c ∉ t :=
  fun hmem => Bool.noConfusion ((h c hmem).symm.trans hc)

theorem Ordinary.isPlain {t : Text} (h : Ordinary t) : ∀ c ∈ t, isPlain c = true := by
  intro c hc
  have hordinary := h c hc
  simp only [isOrdinary, List.mem_cons, not_or, decide_eq_true_eq] at hordinary
  simp [Preprocessor.isPlain, hordinary]

theorem Inert.append {a b : Text} (ha : Inert a) (hb : Inert b) : Inert (a ++ b) :=
  List.forall_mem_append.2 ⟨ha, hb⟩

theorem Inert.ordinary {t : Text} (h : Inert t) : Ordinary t :=
  fun c hc => (Bool.and_eq_true_iff.1 (h c hc)).1

theorem Inert.not_mem {t : Text} (h : Inert t) {c : Char} (hc : isInert c = false) : c ∉ t :=
  fun hmem => Bool.noConfusion ((h c hmem).symm.trans hc)

theorem ne_of_inert {t : Text} (h : Inert t) : ∀ c ∈ t, c ≠ '"' ∧ c ≠ '\\' ∧ c ≠ '\n' := by
  intro c hc
  refine ⟨?_, ?_, ?_⟩
  all_goals
    rintro rfl
    exact absurd hc (h.not_mem rfl)

theorem isInert_of_isSpelling {c : Char} (h : Condition.isSpelling c = true) :
    isInert c = true := by
  have hall : ['\n', '\\', '/', '"', '\'', '*'].all (!Condition.isSpelling ·) = true := by decide
  have hmem : c ∉ ['\n', '\\', '/', '"', '\'', '*'] := by
    intro hc
    have hnot := List.all_eq_true.1 hall c hc
    rw [h] at hnot
    cases hnot
  simp only [List.mem_cons, not_or] at hmem
  simp [isInert, isOrdinary, hmem]

theorem inert_of_spelling {t : Text} (h : Condition.Spelling t) : Inert t :=
  fun c hc => isInert_of_isSpelling (h.characters c hc)

theorem inert_of_isMacro {t : Text} (h : isMacro t = true) : Inert t :=
  fun c hc => isInert_of_isSpelling (isSpelling_of_isWordChar (isWordChar_of_isMacro h c hc))

theorem inert_name (n : Name) : Inert n.text := inert_of_isMacro (isMacro_name n)

/-! ### Texts that are read on their own -/

/-- The text consists of whole lines that are read as given ones, and no comment reaches beyond
it. -/
structure Reads (t : Text) (lines : List Line) : Prop where
  backslash : '\\' ∉ t
  kept : ∃ kept : List Text, uncomment .code t = (kept.flatMap (· ++ ['\n']), .code) ∧
    (∀ line ∈ kept, '\n' ∉ line) ∧ kept.filterMap Line.ofText? = lines

namespace Reads

theorem nil : Reads [] [] := ⟨List.not_mem_nil, [], rfl, fun _ h => (List.not_mem_nil h).elim, rfl⟩

theorem append {a b : Text} {first second : List Line} (ha : Reads a first) (hb : Reads b second) :
    Reads (a ++ b) (first ++ second) := by
  obtain ⟨hbackslash, kept, hkept, hfeed, rfl⟩ := ha
  obtain ⟨hbackslash', kept', hkept', hfeed', rfl⟩ := hb
  refine ⟨fun h => (List.mem_append.1 h).elim hbackslash hbackslash', kept ++ kept', ?_, ?_, ?_⟩
  · rw [uncomment_append hkept hkept', List.flatMap_append]
  · exact List.forall_mem_append.2 ⟨hfeed, hfeed'⟩
  · exact List.filterMap_append

theorem flatMap {α : Type} {text : α → Text} {script : α → List Line} {items : List α}
    (h : ∀ a ∈ items, Reads (text a) (script a)) :
    Reads (items.flatMap text) (items.flatMap script) := by
  induction items with
  | nil => exact nil
  | cons a items ih =>
      obtain ⟨ha, hitems⟩ := List.forall_mem_cons.1 h
      exact ha.append (ih hitems)

theorem readLines_eq {t : Text} {lines : List Line} (h : Reads t lines) :
    readLines t = some lines := by
  obtain ⟨hbackslash, kept, hkept, hfeed, rfl⟩ := h
  rw [readLines, splice_eq_self hbackslash, withoutComments, hkept]
  show some ((List.splitOnP _ _).filterMap Line.ofText?) = _
  rw [splitOnP_flatMap hfeed, List.filterMap_append]
  exact congrArg some (List.append_nil _)

/-- A single line. -/
theorem line {t kept : Text} (hbackslash : '\\' ∉ t) (hkept : uncomment .code t = (kept, .code))
    (hfeed : '\n' ∉ kept) : Reads (t ++ ['\n']) (Line.ofText? kept).toList := by
  refine ⟨?_, [kept], ?_, List.forall_mem_singleton.2 hfeed, ?_⟩
  · rw [List.mem_append, not_or]
    exact ⟨hbackslash, by decide⟩
  · rw [uncomment_append hkept (show uncomment .code ['\n'] = (['\n'], .code) from rfl),
      List.flatMap_singleton]
  · cases h : Line.ofText? kept <;> simp [h]

/-- A line of which nothing is left. -/
theorem skip {t : Text} {ts : List Text} {lines : List Line} (ht : Reads (t ++ ['\n']) [])
    (hts : Reads (ts.flatMap (· ++ ['\n'])) lines) :
    Reads ((t :: ts).flatMap (· ++ ['\n'])) lines := ht.append hts

theorem cons {t : Text} {ts : List Text} {line : Line} {lines : List Line}
    (ht : Reads (t ++ ['\n']) [line]) (hts : Reads (ts.flatMap (· ++ ['\n'])) lines) :
    Reads ((t :: ts).flatMap (· ++ ['\n'])) (line :: lines) := ht.append hts

theorem blank : Reads ([] ++ ['\n']) [] := line List.not_mem_nil rfl List.not_mem_nil

/-- A directive of which everything is kept. -/
theorem ofKeyword (keyword rest : Text) (hkeyword : isMacro keyword = true)
    (hbackslash : '\\' ∉ rest) (hfeed : '\n' ∉ rest)
    (hkept : uncomment .code rest = (rest, .code)) (htrimmed : rest.Trimmed) (hne : rest ≠ [])
    {line : Line} (hline : Line.ofKeyword? keyword rest = some line) :
    Reads ('#' :: (keyword ++ ' ' :: rest) ++ ['\n']) [line] := by
  have hinert : Inert (['#'] ++ keyword ++ [' ']) :=
    (Inert.append (by decide) (inert_of_isMacro hkeyword)).append (by decide)
  have htext : '#' :: (keyword ++ ' ' :: rest) = ['#'] ++ keyword ++ [' '] ++ rest := by simp
  have hall := uncomment_append (uncomment_plain hinert.ordinary.isPlain) hkept
  rw [← htext] at hall
  have hout : ∀ c, isInert c = false → c ∉ rest → c ∉ '#' :: (keyword ++ ' ' :: rest) := by
    intro c hc hrest
    rw [htext, List.mem_append, not_or]
    exact ⟨hinert.not_mem hc, hrest⟩
  have hreads := Reads.line (hout '\\' rfl hbackslash) hall (hout '\n' rfl hfeed)
  rwa [Line.ofText?_directive hkeyword htrimmed hne hline] at hreads

/-- A directive whose text is inert. -/
theorem directive (keyword rest : Text) (hkeyword : isMacro keyword = true) (hinert : Inert rest)
    (htrimmed : rest.Trimmed) (hne : rest ≠ []) {line : Line}
    (hline : Line.ofKeyword? keyword rest = some line) :
    Reads ('#' :: (keyword ++ ' ' :: rest) ++ ['\n']) [line] :=
  ofKeyword keyword rest hkeyword (hinert.not_mem rfl) (hinert.not_mem rfl)
    (uncomment_plain hinert.ordinary.isPlain) htrimmed hne hline

/-- A directive about a macro. -/
theorem ofMacro (keyword : Text) {name : Text} (hname : isMacro name = true)
    (hkeyword : isMacro keyword = true) {line : Line}
    (hline : Line.ofKeyword? keyword name = some line) :
    Reads ('#' :: (keyword ++ ' ' :: name) ++ ['\n']) [line] :=
  directive keyword name hkeyword (inert_of_isMacro hname) (trimmed_of_isMacro hname)
    (ne_nil_of_isMacro hname) hline

theorem ifdef {name : Text} (h : isMacro name = true) :
    Reads (("#ifdef " ++ name : Text) ++ ['\n']) [.ifdef name] :=
  ofMacro "ifdef" h rfl (congrArg (Option.map Line.ifdef) (macro?_eq h))

theorem ifndef {name : Text} (h : isMacro name = true) :
    Reads (("#ifndef " ++ name : Text) ++ ['\n']) [.ifndef name] :=
  ofMacro "ifndef" h rfl (congrArg (Option.map Line.ifndef) (macro?_eq h))

theorem undef {name : Text} (h : isMacro name = true) :
    Reads (("#undef " ++ name : Text) ++ ['\n']) [.undef name] :=
  ofMacro "undef" h rfl (congrArg (Option.map Line.undef) (macro?_eq h))

theorem define {name : Text} (h : isMacro name = true) :
    Reads (("#define " ++ name : Text) ++ ['\n']) [.define name] := by
  refine ofMacro "define" h rfl ?_
  have hword : macro? (name.takeWhile isWordChar) = some name := by
    rw [takeWhile_isWordChar h, macro?_eq h]
  exact congrArg (Option.map Line.define) hword

theorem endif : Reads (("#endif" : Text) ++ ['\n']) [.endif] :=
  line (by decide) (uncomment_plain (Ordinary.isPlain (by decide))) (by decide)

/-- A line that is left to the compiler. -/
theorem code {t : Text} {c : Char} (hbackslash : '\\' ∉ t) (hfeed : '\n' ∉ t)
    (hkept : uncomment .code t = (t, .code)) (htrimmed : t.Trimmed) (hhead : t.head? = some c)
    (hc : c ≠ '#') : Reads (t ++ ['\n']) [.code t] := by
  have hreads := line hbackslash hkept hfeed
  rwa [Line.ofText?_code htrimmed hhead hc] at hreads

theorem ordinary {t : Text} {c : Char} (h : Ordinary t) (htrimmed : t.Trimmed)
    (hhead : t.head? = some c) (hc : c ≠ '#') : Reads (t ++ ['\n']) [.code t] :=
  code (h.not_mem rfl) (h.not_mem rfl) (uncomment_plain h.isPlain) htrimmed hhead hc

theorem lineComment (t : Text) (h : Inert t) : Reads ('/' :: '/' :: t ++ ['\n']) [] := by
  refine ⟨?_, [[' ']], uncomment_lineComment (h.not_mem rfl), by decide, by decide⟩
  simp only [List.cons_append, List.mem_cons, List.mem_append, not_or]
  exact ⟨by decide, by decide, h.not_mem rfl, by decide, List.not_mem_nil⟩

end Reads

end Preprocessor

open Preprocessor

/-! ### Directives -/

/-- What is said where a derived feature is defined already. -/
def Name.manualWarning (n : Name) : Text :=
  n.text ++ " is a derived switch and should not be set manually!"

/-- What is said where a feature is defined and its requirement does not hold. -/
def Name.unmetError (n : Name) (human : Text) : Text :=
  "Feature " ++ n.text ++ " requires " ++ human

/-- The line of the table of names that holds a feature. -/
def Name.entryLine (n : Name) : Text := "\"" ++ n.text ++ "\","

namespace Directive

/-- The lines of a directive that are neither blank nor comments. -/
def script : Directive → List Line
  | banner .. | heading _ => []
  | guardBegin guard => [.ifndef guard, .define guard]
  | guardEnd _ => [.endif]
  | inclusion path => [.inclusion path]
  | undefine feature =>
    [.ifHolds ("defined(" ++ feature.text ++ ")"), .undef feature.text, .endif]
  | implication antecedent consequent =>
    [.ifHolds ("defined(" ++ antecedent.text ++ ") && !defined(" ++ consequent.text ++ ")"),
      .define consequent.text, .endif]
  | derivation feature _ rendered =>
    [.ifdef feature.text, .warning feature.manualWarning, .elifHolds rendered,
      .define feature.text, .endif]
  | requirement feature human rendered =>
    [.ifHolds (Pass.violation feature rendered), .error (feature.unmetError human), .endif]
  | tableDeclaration table count =>
    [.code ("extern const char* " ++ table ++ "[];"), .code ("extern const int " ++ count ++ ";")]
  | tableBegin table => [.code ("const char* " ++ table ++ "[] = \x7b")]
  | tableEntry feature => [.ifdef feature.text, .code feature.entryLine, .endif]
  | tableEnd table count =>
    [.code "\x7d;", .code ("const int " ++ count ++ " = sizeof(" ++ table ++ ")/sizeof(char*);")]

/-- Nothing that is inserted into the directive can be mistaken for a part of it. -/
def SelfContained : Directive → Prop
  | banner generator stamp definitions =>
    Inert generator ∧ (∀ t ∈ stamp, Inert t) ∧ Inert definitions
  | guardBegin guard => isMacro guard = true
  | guardEnd guard => isMacro guard = true
  | heading title => Inert title
  | inclusion path => Inert path.path ∧ isPath path.path
  | derivation _ human rendered | requirement _ human rendered =>
    Condition.Spelling human ∧ Condition.Spelling rendered
  | tableDeclaration table count | tableEnd table count =>
    isMacro table = true ∧ isMacro count = true
  | tableBegin table => isMacro table = true
  | undefine _ | implication .. | tableEntry _ => True

theorem reads_undefine (n : Name) : Reads (undefine n).text (undefine n).script := by
  have hn := inert_name n
  have hcomment : Inert (" " ++ n.text ++ " is external") :=
    (Inert.append (by decide) hn).append (by decide)
  have hcondition : Inert ("defined(" ++ n.text ++ ")") :=
    (Inert.append (by decide) hn).append (by decide)
  refine .skip .blank (.skip (.lineComment _ hcomment) (.cons ?_
    (.cons (.undef (isMacro_name n)) (.cons .endif .nil))))
  exact .directive "if" ("defined(" ++ n.text ++ ")") rfl hcondition
    (.of_ends rfl rfl rfl rfl) (by simp) rfl

theorem reads_implication (a c : Name) :
    Reads (implication a c).text (implication a c).script := by
  have ha := inert_name a
  have hc := inert_name c
  have hcomment : Inert (" " ++ a.text ++ " implies " ++ c.text) :=
    ((Inert.append (by decide) ha).append (by decide)).append hc
  have hcondition : Inert ("defined(" ++ a.text ++ ") && !defined(" ++ c.text ++ ")") :=
    (((Inert.append (by decide) ha).append (by decide)).append hc).append (by decide)
  refine .skip .blank (.skip (.lineComment _ hcomment) (.cons ?_
    (.cons (.define (isMacro_name c)) (.cons .endif .nil))))
  exact .directive "if" ("defined(" ++ a.text ++ ") && !defined(" ++ c.text ++ ")") rfl hcondition
    (.of_ends rfl rfl rfl rfl) (by simp) rfl

theorem trimmed_manualWarning (n : Name) : n.manualWarning.Trimmed := by
  have hmacro := isMacro_name n
  obtain ⟨c, rest, hn⟩ := List.exists_cons_of_ne_nil (ne_nil_of_isMacro hmacro)
  have hc : Text.isBlank c = false := (trimmed_of_isMacro hmacro).head c (by rw [hn]; rfl)
  exact .of_ends (by rw [hn]; rfl) hc rfl rfl

theorem reads_derivation (n : Name) {human rendered : Text} (hhuman : Condition.Spelling human)
    (hrendered : Condition.Spelling rendered) :
    Reads (derivation n human rendered).text (derivation n human rendered).script := by
  have hn := inert_name n
  have hmacro := isMacro_name n
  have hcomment : Inert (" " ++ n.text ++ " equals " ++ human) :=
    ((Inert.append (by decide) hn).append (by decide)).append (inert_of_spelling hhuman)
  -- what is left to show is about the two lines that hold more than a name
  refine .skip .blank (.skip (.lineComment _ hcomment) (.cons (.ifdef hmacro) (.cons ?_ (.cons ?_
    (.cons (.define hmacro) (.cons .endif .nil))))))
  · exact .directive "warning" n.manualWarning rfl (hn.append (by decide +kernel))
      (trimmed_manualWarning n) (by simp [Name.manualWarning]) rfl
  · exact .directive "elif" rendered rfl (inert_of_spelling hrendered) hrendered.trimmed
      hrendered.ne_nil rfl

theorem reads_requirement (n : Name) {human rendered : Text} (hhuman : Condition.Spelling human)
    (hrendered : Condition.Spelling rendered) :
    Reads (requirement n human rendered).text (requirement n human rendered).script := by
  have hn := inert_name n
  have hrequired := inert_of_spelling hhuman
  have hcomment : Inert (" " ++ n.text ++ " requires " ++ human) :=
    ((Inert.append (by decide) hn).append (by decide)).append hrequired
  have hcondition : Inert ("defined(" ++ n.text ++ ") && !(" ++ rendered ++ ")") :=
    (((Inert.append (by decide) hn).append (by decide)).append
      (inert_of_spelling hrendered)).append (by decide)
  have herror : Inert ("Feature " ++ n.text ++ " requires " ++ human) :=
    ((Inert.append (by decide) hn).append (by decide)).append hrequired
  refine .skip .blank (.skip (.lineComment _ hcomment) (.cons ?_ (.cons ?_ (.cons .endif .nil))))
  · exact .directive "if" ("defined(" ++ n.text ++ ") && !(" ++ rendered ++ ")") rfl hcondition
      (.of_ends rfl rfl rfl rfl) (by simp) rfl
  · exact .directive "error" ("Feature " ++ n.text ++ " requires " ++ human) rfl herror
      (.of_append rfl rfl hhuman.trimmed.last hhuman.ne_nil) (by simp) rfl

theorem reads_guardBegin {guard : Text} (h : isMacro guard = true) :
    Reads (guardBegin guard).text (guardBegin guard).script :=
  .cons (.ifndef h) (.cons (.define h) (.skip .blank .nil))

theorem uncomment_remark {t : Text} (h : '*' ∉ t) :
    uncomment .code ("/* " ++ t ++ " */") = ([' '], .code) := by
  have hcomment : '*' ∉ [' '] ++ t ++ [' '] := by simp [h]
  have htext : ("/* " ++ t ++ " */" : Text) = ['/', '*'] ++ ([' '] ++ t ++ [' ']) ++ ['*', '/'] := by
    simp only [List.append_assoc]
    rfl
  rw [htext]
  exact uncomment_blockComment hcomment

theorem reads_guardEnd {guard : Text} (h : isMacro guard = true) :
    Reads (guardEnd guard).text (guardEnd guard).script := by
  have hguard := inert_of_isMacro h
  have hbackslash : '\\' ∉ ("#endif /* " ++ guard ++ " */" : Text) := by
    simp [hguard.not_mem (c := '\\') rfl]
  have hkept : uncomment .code ("#endif " ++ ("/* " ++ guard ++ " */")) =
      (("#endif " : Text) ++ [' '], .code) :=
    uncomment_append (uncomment_plain (Ordinary.isPlain (by decide)))
      (uncomment_remark (hguard.not_mem rfl))
  exact .skip .blank (.append (.line hbackslash hkept (by decide)) .nil)

theorem reads_heading {title : Text} (h : Inert title) :
    Reads (heading title).text (heading title).script := by
  have hbackslash : '\\' ∉ ("/* " ++ title ++ " */" : Text) := by
    simp [h.not_mem (c := '\\') rfl]
  exact .skip .blank (.skip (.line hbackslash (uncomment_remark (h.not_mem rfl)) (by decide)) .nil)

/-- The lines between the signs that begin and end a banner. -/
def bannerLines (generator : Text) (stamp : Option Text) (definitions : Text) : List Text :=
  ((banner generator stamp definitions).lines.drop 1).dropLast

theorem inert_of_mem_bannerLines {generator definitions : Text} {stamp : Option Text}
    (hgenerator : Inert generator) (hstamp : ∀ t ∈ stamp, Inert t)
    (hdefinitions : Inert definitions) :
    ∀ t ∈ bannerLines generator stamp definitions, Inert t := by
  simp only [bannerLines, lines, List.drop, List.dropLast, List.forall_mem_cons]
  refine ⟨by decide +kernel, by decide, ?_, by decide, by decide +kernel, ?_, by simp⟩
  · refine (Inert.append (by decide) hgenerator).append ?_
    cases stamp with
    | none => exact List.forall_mem_nil _
    | some t => exact Inert.append (by decide) (hstamp t rfl)
  · exact (Inert.append (by decide) hdefinitions).append (by decide)

theorem reads_banner {generator definitions : Text} {stamp : Option Text}
    (hgenerator : Inert generator) (hstamp : ∀ t ∈ stamp, Inert t)
    (hdefinitions : Inert definitions) :
    Reads (banner generator stamp definitions).text [] := by
  have hinert := inert_of_mem_bannerLines hgenerator hstamp hdefinitions
  generalize hlines : bannerLines generator stamp definitions = lines at hinert
  -- between the two signs there are inert lines, hence neither a star nor a backslash
  have hfree : ∀ c, isInert c = false → c ≠ '\n' → c ∉ ['\n'] ++ lines.flatMap (· ++ ['\n']) := by
    intro c hc hfeed
    have hline : ∀ t ∈ lines, c ∉ t := fun t ht => (hinert t ht).not_mem hc
    simpa [hfeed] using hline
  have htext : (banner generator stamp definitions).text =
      ['/', '*'] ++ (['\n'] ++ lines.flatMap (· ++ ['\n'])) ++ ['*', '/'] ++ ['\n'] := by
    have hall : (banner generator stamp definitions).lines =
        ([['/', '*']] : List Text) ++ lines ++ [['*', '/']] := by
      rw [← hlines]
      rfl
    rw [text, hall]
    simp only [List.flatMap_append, List.flatMap_singleton, List.append_assoc]
  rw [htext]
  refine .line ?_ (uncomment_blockComment (hfree '*' rfl (by decide))) (by decide)
  rw [List.mem_append, List.mem_append, not_or, not_or]
  exact ⟨⟨by decide, hfree '\\' rfl (by decide)⟩, by decide⟩

theorem reads_inclusion {path : IncludePath} (hinert : Inert path.path) (hpath : isPath path.path) :
    Reads (inclusion path).text (inclusion path).script := by
  have hline : Line.ofKeyword? "include" path.text = some (.inclusion path) :=
    congrArg (Option.map Line.inclusion) (target?_text hpath)
  obtain ⟨path, system⟩ := path
  cases system with
  | true =>
      have htext : Inert ("<" ++ path ++ ">") := (Inert.append (by decide) hinert).append (by decide)
      exact .cons (.directive "include" ("<" ++ path ++ ">") rfl htext
        (.of_ends rfl rfl rfl rfl) (by simp) hline) .nil
  | false =>
      have hfree : ∀ c, isInert c = false → c ≠ '"' → c ∉ ['"'] ++ path ++ ['"'] := by
        intro c hc hne
        simp [hne, hinert.not_mem hc]
      exact .cons (.ofKeyword "include" (['"'] ++ path ++ ['"']) rfl (hfree _ rfl (by decide))
        (hfree _ rfl (by decide)) (uncomment_literal (ne_of_inert hinert))
        (.of_ends rfl rfl rfl rfl) (by simp) hline) .nil

theorem reads_tableDeclaration {table count : Text} (htable : isMacro table = true)
    (hcount : isMacro count = true) :
    Reads (tableDeclaration table count).text (tableDeclaration table count).script := by
  have hnames : Ordinary ("extern const char* " ++ table ++ "[];") :=
    (Ordinary.append (by decide) (inert_of_isMacro htable).ordinary).append (by decide)
  have hnamesEnds : Text.Trimmed ("extern const char* " ++ table ++ "[];") :=
    .of_ends rfl rfl rfl rfl
  have hnumber : Ordinary ("extern const int " ++ count ++ ";") :=
    (Ordinary.append (by decide) (inert_of_isMacro hcount).ordinary).append (by decide)
  have hnumberEnds : Text.Trimmed ("extern const int " ++ count ++ ";") :=
    .of_ends rfl rfl rfl rfl
  exact .skip .blank (.cons (.ordinary hnames hnamesEnds rfl (by decide))
    (.cons (.ordinary hnumber hnumberEnds rfl (by decide)) .nil))

theorem reads_tableBegin {table : Text} (htable : isMacro table = true) :
    Reads (tableBegin table).text (tableBegin table).script := by
  have hnames : Ordinary ("const char* " ++ table ++ "[] = \x7b") :=
    (Ordinary.append (by decide) (inert_of_isMacro htable).ordinary).append (by decide)
  have hnamesEnds : Text.Trimmed ("const char* " ++ table ++ "[] = \x7b") :=
    .of_ends rfl rfl rfl rfl
  exact .cons (.ordinary hnames hnamesEnds rfl (by decide)) .nil

theorem reads_tableEntry (n : Name) : Reads (tableEntry n).text (tableEntry n).script := by
  have hn := inert_name n
  have hmacro := isMacro_name n
  have hentry : n.entryLine = ['"'] ++ n.text ++ ['"'] ++ [','] := by simp [Name.entryLine]
  have hkept : uncomment .code ([' ', ' '] ++ n.entryLine) = ([' ', ' '] ++ n.entryLine, .code) := by
    rw [hentry]
    exact uncomment_append (uncomment_plain (Ordinary.isPlain (by decide)))
      (uncomment_append (uncomment_literal (ne_of_inert hn))
        (uncomment_plain (Ordinary.isPlain (by decide))))
  have hfree : ∀ c, isInert c = false → c ∉ ([' ', '"', ','] : Text) →
      c ∉ [' ', ' '] ++ n.entryLine := by
    intro c hc hne
    have hname := hn.not_mem hc
    simp_all
  have hread : Line.ofText? ([' ', ' '] ++ n.entryLine) = some (.code n.entryLine) := by
    have hends : n.entryLine.Trimmed := by
      rw [hentry]
      exact .of_ends rfl rfl rfl rfl
    exact (Line.ofText?_cons (by decide) _).trans
      ((Line.ofText?_cons (by decide) _).trans (Line.ofText?_code hends rfl (by decide)))
  have hline := Reads.line (hfree '\\' rfl (by decide)) hkept (hfree '\n' rfl (by decide))
  rw [hread] at hline
  exact .cons (.ifdef hmacro) (.cons hline (.cons .endif .nil))

theorem reads_tableEnd {table count : Text} (htable : isMacro table = true)
    (hcount : isMacro count = true) :
    Reads (tableEnd table count).text (tableEnd table count).script := by
  have hquotient : Ordinary ("const int " ++ count ++ " = sizeof(" ++ table ++ ")") :=
    (((Ordinary.append (by decide) (inert_of_isMacro hcount).ordinary).append (by decide)).append
      (inert_of_isMacro htable).ordinary).append (by decide)
  have htext : ("const int " ++ count ++ " = sizeof(" ++ table ++ ")/sizeof(char*);" : Text) =
      ("const int " ++ count ++ " = sizeof(" ++ table ++ ")") ++ ['/', 's'] ++ "izeof(char*);" := by
    simp only [List.append_assoc]
    rfl
  -- the slash between the two sizes is the only one that is no part of a comment
  have hkept : uncomment .code ("const int " ++ count ++ " = sizeof(" ++ table ++ ")/sizeof(char*);") =
      (("const int " ++ count ++ " = sizeof(" ++ table ++ ")/sizeof(char*);" : Text), Mode.code) := by
    rw [htext]
    exact uncomment_append (uncomment_append (uncomment_plain hquotient.isPlain) rfl)
      (uncomment_plain (Ordinary.isPlain (by decide)))
  have hfree : ∀ c, isOrdinary c = false → c ∉ ['/', 's'] → c ∉ ("izeof(char*);" : Text) →
      c ∉ ("const int " ++ count ++ " = sizeof(" ++ table ++ ")/sizeof(char*);" : Text) := by
    intro c hc hmiddle hend
    rw [htext, List.mem_append, List.mem_append]
    exact not_or.2 ⟨not_or.2 ⟨hquotient.not_mem hc, hmiddle⟩, hend⟩
  have hends : Text.Trimmed ("const int " ++ count ++ " = sizeof(" ++ table ++ ")/sizeof(char*);") :=
    .of_ends rfl rfl rfl rfl
  have hbrace : Reads (("\x7d;" : Text) ++ ['\n']) [.code "\x7d;"] :=
    .ordinary (by decide) (.of_ends (a := ['\x7d']) rfl rfl rfl rfl) rfl (by decide)
  exact .cons hbrace (.skip .blank (.cons (.code (hfree '\\' rfl (by decide) (by decide))
    (hfree '\n' rfl (by decide) (by decide)) hkept hends rfl (by decide)) .nil))

/-- The text of a directive is read as its own lines, wherever it stands. -/
theorem reads_text {d : Directive} (h : d.SelfContained) : Reads d.text d.script := by
  cases d with
  | banner generator stamp definitions => exact reads_banner h.1 h.2.1 h.2.2
  | guardBegin guard => exact reads_guardBegin h
  | guardEnd guard => exact reads_guardEnd h
  | heading title => exact reads_heading h
  | inclusion path => exact reads_inclusion h.1 h.2
  | undefine feature => exact reads_undefine feature
  | implication antecedent consequent => exact reads_implication antecedent consequent
  | derivation feature human rendered => exact reads_derivation feature h.1 h.2
  | requirement feature human rendered => exact reads_requirement feature h.1 h.2
  | tableDeclaration table count => exact reads_tableDeclaration h.1 h.2
  | tableBegin table => exact reads_tableBegin h
  | tableEntry feature => exact reads_tableEntry feature
  | tableEnd table count => exact reads_tableEnd h.1 h.2

theorem readLines_render {directives : List Directive} (h : ∀ d ∈ directives, d.SelfContained) :
    readLines (render directives) = some (directives.flatMap script) :=
  (Reads.flatMap fun d hd => reads_text (h d hd)).readLines_eq

end Directive

end FeatureGuard

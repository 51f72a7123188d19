import FeatureGuard.Proofs.Definitions.Grammar
import FeatureGuard.Proofs.Definitions.Reordering

/-!
Printing rules. The rules of a document are printed as statements again, one on each line and with
single blanks between the words. What is printed is read as the same rules, whatever the document
looked like: its blanks, its comments and the order of its lines are gone.
-/

namespace FeatureGuard

open Condition (isSpelling)

/-! ### Texts on one line -/

/-- The characters of names, conditions and lists. -/
def Text.isPrinted (c : Char) : Bool := isSpelling c || c == ','

/-- What is known of a text that is printed: it has no other characters, and blanks only inside. -/
structure Text.Tidy (t : Text) : Prop where
  ne_nil : t ≠ []
  trimmed : t.Trimmed
  characters : ∀ c ∈ t, isPrinted c = true

namespace Text.Tidy

variable {t : Text}

theorem of_spelling (h : Condition.Spelling t) : t.Tidy where
  ne_nil := h.ne_nil
  trimmed := h.trimmed
  characters c hc := by rw [isPrinted, h.characters c hc, Bool.true_or]

theorem of_word (hne : t ≠ []) (h : ∀ c ∈ t, Token.isWordChar c = true) : t.Tidy :=
  .of_spelling ⟨fun c hc => isSpelling_of_isWordChar (h c hc),
    .of_forall fun c hc => isBlank_of_isWordChar (h c hc), hne⟩

theorem of_name (n : Name) : n.text.Tidy :=
  .of_word (Statement.text_ne_nil n) fun _ hc => Preprocessor.isWordChar_of_mem_name hc

theorem join {gap : Text} (hgap : gap.all isPrinted = true) {ts : List Text} (hne : ts ≠ [])
    (h : ∀ t ∈ ts, t.Tidy) : (Text.join gap ts).Tidy where
  ne_nil := join_ne_nil hne fun t ht => (h t ht).ne_nil
  trimmed := trimmed_join (fun t ht => (h t ht).ne_nil) fun t ht => (h t ht).trimmed
  characters c hc := by
    rcases mem_of_mem_join hc with hc | ⟨t, ht, hc⟩
    · exact List.all_eq_true.1 hgap c hc
    · exact (h t ht).characters c hc

theorem not_mem (h : t.Tidy) {c : Char} (hc : isPrinted c = false) : c ∉ t := fun hmem =>
  Bool.noConfusion ((h.characters c hmem).symm.trans hc)

theorem dropReturn_eq (h : t.Tidy) : dropReturn t = t := by
  refine if_neg fun hreturn => ?_
  have hblank := h.trimmed.last '\r' hreturn
  revert hblank
  decide

/-- A printed text holds no comments. -/
theorem beforeMark_eq (h : t.Tidy) : Comment.beforeMark t = t :=
  Comment.beforeMark_eq_self
    ⟨h.not_mem (by decide), fun hslashes =>
      h.not_mem (c := '/') (by decide) (hslashes.subset (by decide))⟩

theorem not_isInfix (h : t.Tidy) : ¬("/*" : Text) <:+: t := fun hmark =>
  h.not_mem (c := '/') (by decide) (hmark.subset (by decide))

end Text.Tidy

/-- Lines that hold no line feed are the lines of the document that they make. -/
theorem Text.lines_flatMap {texts : List Text} (h : ∀ t ∈ texts, '\n' ∉ t) :
    lines (texts.flatMap (· ++ ['\n'])) = texts.map dropReturn := by
  induction texts with
  | nil => rfl
  | cons t texts ih =>
      obtain ⟨ht, htexts⟩ := List.forall_mem_cons.1 h
      rw [List.flatMap_cons, List.append_assoc, List.singleton_append, lines_append_cons ht,
        ih htexts, List.map_cons]

/-! ### Statements on a line -/

namespace Statement

/-- The words of a statement; what is listed and what is required count as one. -/
def pieces : Statement → List Text
  | external n => ["external", n.text]
  | basic n => [n.text]
  | implies n consequents => [n.text, "implies", Text.join ", " (consequents.map Name.text)]
  | equals n c => [n.text, "equals", c.human]
  | «requires» n c => [n.text, "requires", c.human]

/-- A statement as it is printed. -/
def printed (statement : Statement) : Text := Text.join " " statement.pieces

/-- Whether a statement is one that can be read: an implication has a consequent, and a condition is
what its own spelling is read as. -/
def Legible : Statement → Prop
  | implies _ consequents => consequents ≠ []
  | equals _ c | «requires» _ c => Condition.ofText c.human = .ok c
  | _ => True

variable {statement : Statement}

theorem tidy_pieces (h : statement.Legible) : ∀ t ∈ statement.pieces, t.Tidy := by
  have hkeyword : ∀ t : Text, t ≠ [] → t.all Token.isWordChar = true → t.Tidy :=
    fun t hne hall => .of_word hne (List.all_eq_true.1 hall)
  cases statement with
  | external n =>
      simp only [pieces, List.forall_mem_cons]
      exact ⟨hkeyword _ (by decide) (by decide), .of_name n, List.forall_mem_nil _⟩
  | basic n =>
      simp only [pieces, List.forall_mem_cons]
      exact ⟨.of_name n, List.forall_mem_nil _⟩
  | implies n consequents =>
      have hnames : (Text.join ", " (consequents.map Name.text)).Tidy := by
        refine .join (by decide) (mt List.map_eq_nil_iff.1 h) ?_
        rw [List.forall_mem_map]
        exact fun n _ => .of_name n
      simp only [pieces, List.forall_mem_cons]
      exact ⟨.of_name n, hkeyword _ (by decide) (by decide), hnames, List.forall_mem_nil _⟩
  | equals n c =>
      simp only [pieces, List.forall_mem_cons]
      exact ⟨.of_name n, hkeyword _ (by decide) (by decide),
        .of_spelling (Condition.spelling_of_ofText h).1, List.forall_mem_nil _⟩
  | «requires» n c =>
      simp only [pieces, List.forall_mem_cons]
      exact ⟨.of_name n, hkeyword _ (by decide) (by decide),
        .of_spelling (Condition.spelling_of_ofText h).1, List.forall_mem_nil _⟩

theorem tidy_printed (h : statement.Legible) : statement.printed.Tidy := by
  refine .join (by decide) ?_ (tidy_pieces h)
  cases statement <;> exact List.cons_ne_nil _ _

theorem readNames_join {names : List Name} (h : names ≠ []) :
    readNames (Text.join ", " (names.map Name.text)) = .ok names := by
  have hgap := List.all_eq_true.1 (show (", " : Text).all isSeparator = true by decide)
  refine readNames_eq_ok_iff_fields.2 ⟨h, Text.fields_join (by decide) hgap ?_⟩
  rw [List.forall_mem_map]
  exact fun n _ => fields_name n

/-- A statement that can be read is read from what is printed of it. -/
theorem ofText_printed (h : statement.Legible) : ofText statement.printed = .ok statement := by
  have hblank : Text.Gap " " := Text.gap_of_all (by decide) (by decide)
  rw [ofText_eq_ok_iff]
  cases statement with
  | external n => exact says_external n hblank
  | basic n => exact says_basic n
  | implies n consequents => exact says_implies n hblank hblank (readNames_join h)
  | equals n c => exact says_equals n hblank hblank h
  | «requires» n c => exact says_requires n hblank hblank h

end Statement

/-! ### Documents of printed statements -/

namespace Document

theorem said?_printed {statement : Statement} (h : statement.Legible) :
    said? statement.printed = some statement := by
  have htidy := Statement.tidy_printed h
  have hsome : statement? (0, statement.printed) = some (0, statement) := by
    rw [statement?_eq_some_iff, htidy.trimmed.trim_eq]
    exact ⟨rfl, htidy.ne_nil, Statement.ofText_printed h⟩
  exact congrArg (Option.map Prod.snd) hsome

theorem accepted_of_said? {content : Text} {statement : Statement}
    (h : said? content = some statement) : Accepted content := by
  obtain ⟨⟨line, _⟩, hsome, rfl⟩ := Option.map_eq_some_iff.1 h
  exact fun _ => ⟨_, (statement?_eq_some_iff.1 hsome).2.2⟩

/-- Statements that can be read are the statements of the document that is printed of them. -/
theorem exists_read_printed {l : List Statement} (h : ∀ statement ∈ l, statement.Legible) :
    ∃ placed : List (ℕ × Statement), placed.map Prod.snd = l ∧
      read ((l.map Statement.printed).flatMap (· ++ ['\n'])) = .ok (joined placed) := by
  have htidy : ∀ t ∈ l.map Statement.printed, t.Tidy :=
    List.forall_mem_map.2 fun statement hmem => Statement.tidy_printed (h statement hmem)
  have hlines : Text.lines ((l.map Statement.printed).flatMap (· ++ ['\n'])) =
      l.map Statement.printed := by
    rw [Text.lines_flatMap fun t ht => (htidy t ht).not_mem (by decide)]
    exact (List.map_congr_left fun t ht => (htidy t ht).dropReturn_eq).trans (List.map_id _)
  generalize (l.map Statement.printed).flatMap (· ++ ['\n']) = t at hlines ⊢
  have hplain : ∀ line ∈ Text.lines t, ¬("/*" : Text) <:+: line := by
    rw [hlines]
    exact fun line hline => (htidy line hline).not_isInfix
  obtain ⟨hopened, hcontents⟩ := contents_uncomment hplain
  have hkept : (Text.lines t).map Comment.beforeMark = l.map Statement.printed := by
    rw [hlines]
    exact (List.map_congr_left fun t ht => (htidy t ht).beforeMark_eq).trans (List.map_id _)
  rw [hkept] at hcontents
  have haccepted : ∃ r, read t = .ok r := by
    rw [read_isOk_iff, hcontents, List.forall_mem_map]
    exact ⟨hopened, fun statement hmem => accepted_of_said? (said?_printed (h statement hmem))⟩
  obtain ⟨r, hread⟩ := haccepted
  refine ⟨statements t, ?_, hread.trans (congrArg _ (read_eq_ok hread).2)⟩
  rw [map_snd_statements, hcontents, List.filterMap_map]
  exact (List.filterMap_congr fun statement hmem => said?_printed (h statement hmem)).trans
    List.filterMap_some

end Document

/-! ### The statements of a rule set -/

/-- The statement that declares a feature. A derived feature is declared by its equation. -/
def Declaration.statement? (d : Declaration) : Option Statement :=
  match d.kind with
  | .external => some (.external d.name)
  | .basic => some (.basic d.name)
  | .derived => none

namespace RuleSet

/-- The rules as statements, sort by sort. -/
def statements (r : RuleSet) : List Statement :=
  r.declarations.filterMap Declaration.statement? ++
    r.implications.map (fun i => .implies i.antecedent [i.consequent]) ++
    r.derivations.map (fun d => .equals d.feature d.condition) ++
    r.requirements.map fun q => .requires q.feature q.condition

/-- The rules as a document. -/
def printed (r : RuleSet) : Text := (r.statements.map Statement.printed).flatMap (· ++ ['\n'])

variable (r : RuleSet)

theorem flatMap_none {α β : Type} (l : List α) : l.flatMap (fun _ => ([] : List β)) = [] :=
  List.flatMap_eq_nil_iff.2 fun _ _ => rfl

/-- The rules of one sort that the statements make. -/
theorem flatMap_statements {α : Type} (part : RuleSet → List α) :
    (r.statements.flatMap fun statement => part (statement.rules 0)) =
      ((r.declarations.filter (·.kind ≠ .derived)).flatMap fun d =>
        part { declarations := [d.unplaced] }) ++
      (r.implications.flatMap fun i => part { implications := [i.unplaced] }) ++
      (r.derivations.flatMap fun d => part
        { declarations := [⟨d.feature, .derived, 0⟩], derivations := [d.unplaced] }) ++
      r.requirements.flatMap fun q => part { requirements := [q.unplaced] } := by
  have hdeclarations : ∀ declarations : List Declaration,
      (declarations.filterMap Declaration.statement?).flatMap (fun s => part (s.rules 0)) =
        (declarations.filter (·.kind ≠ .derived)).flatMap fun d =>
          part { declarations := [d.unplaced] } := by
    intro declarations
    induction declarations with
    | nil => rfl
    | cons d declarations ih =>
        obtain ⟨name, kind, line⟩ := d
        cases kind with
        | derived => exact ih
        | external => exact congrArg _ ih
        | basic => exact congrArg _ ih
  rw [statements, List.flatMap_append, List.flatMap_append, List.flatMap_append, List.flatMap_map,
    List.flatMap_map, List.flatMap_map, hdeclarations]
  rfl

theorem implications_statements :
    (r.statements.flatMap fun statement => (statement.rules 0).implications) =
      r.implications.map Implication.unplaced := by
  rw [flatMap_statements r RuleSet.implications]
  simp [flatMap_none, List.map_eq_flatMap]

theorem derivations_statements :
    (r.statements.flatMap fun statement => (statement.rules 0).derivations) =
      r.derivations.map Derivation.unplaced := by
  rw [flatMap_statements r RuleSet.derivations]
  simp [flatMap_none, List.map_eq_flatMap]

theorem requirements_statements :
    (r.statements.flatMap fun statement => (statement.rules 0).requirements) =
      r.requirements.map Requirement.unplaced := by
  rw [flatMap_statements r RuleSet.requirements]
  simp [flatMap_none, List.map_eq_flatMap]

theorem declarations_statements :
    (r.statements.flatMap fun statement => (statement.rules 0).declarations) =
      (r.declarations.filter (·.kind ≠ .derived)).map Declaration.unplaced ++
        r.derivations.map fun d => ⟨d.feature, .derived, 0⟩ := by
  rw [flatMap_statements r RuleSet.declarations]
  simp [flatMap_none, List.map_eq_flatMap]

variable {r} {t : Text}

/-- The statements of a rule set that was read from a document can be read again. -/
theorem legible_statements (h : Document.read t = .ok r) :
    ∀ statement ∈ r.statements, statement.Legible := by
  simp only [statements, List.forall_mem_append, List.forall_mem_map, List.mem_filterMap]
  refine ⟨⟨⟨?_, ?_⟩, ?_⟩, ?_⟩
  · rintro statement ⟨⟨name, kind, line⟩, -, hstatement⟩
    cases kind <;> cases hstatement <;> trivial
  · exact fun i _ => List.cons_ne_nil i.consequent []
  · intro d hd
    obtain ⟨e, -, hcondition⟩ := Document.exists_equates h hd
    exact Condition.ofText_human hcondition
  · intro q hq
    obtain ⟨e, hcondition⟩ := Document.exists_text_of_requirement h hq
    exact Condition.ofText_human hcondition

/-- The declarations that are printed are those of the document, with the derived features last. -/
theorem perm_declarations_statements (h : Document.read t = .ok r) :
    (r.statements.flatMap fun statement => (statement.rules 0).declarations).Perm
      (r.declarations.map Declaration.unplaced) := by
  have hderived : (r.derivations.map fun d => (⟨d.feature, .derived, 0⟩ : Declaration)) =
      (r.declarations.filter (·.kind = .derived)).map Declaration.unplaced := by
    have hnames := congrArg (List.map fun n => (⟨n, .derived, 0⟩ : Declaration))
      (Document.declaredAs_derived h)
    rw [declaredAs, List.map_map, List.map_map] at hnames
    refine hnames.symm.trans (List.map_congr_left fun d hd => ?_)
    have hkind : d.kind = .derived := by simpa using (List.mem_filter.1 hd).2
    rw [Declaration.unplaced, ← hkind]
    rfl
  rw [declarations_statements, hderived, ← List.map_append]
  have hkinds := List.filter_append_perm (fun d => decide (d.kind = .derived)) r.declarations
  simp only [← decide_not] at hkinds
  exact (List.perm_append_comm.trans hkinds).map _

end RuleSet

/-! ### Reading what is printed -/

namespace Document

open Condition (normalized)

/-- What is printed of the rules of a document is read as the same rules, up to the lines and the
order of the declarations. Single blanks between the words of a condition change neither what it is
read as nor, a second time, how it is spelled. -/
theorem read_printed :
    (∀ t r, read t = .ok r → ∃ r', read r.printed = .ok r' ∧
      r'.implications.map Implication.unplaced = r.implications.map Implication.unplaced ∧
      r'.derivations.map Derivation.unplaced = r.derivations.map Derivation.unplaced ∧
      r'.requirements.map Requirement.unplaced = r.requirements.map Requirement.unplaced ∧
      (r'.declarations.map Declaration.unplaced).Perm
        (r.declarations.map Declaration.unplaced)) ∧
    (∀ e, normalized (normalized e) = normalized e ∧
      Condition.ofText (normalized e) = Condition.ofText e) ∧
    ∀ e c, Condition.ofText e = .ok c → c.human = normalized e ∧
      Condition.SinglySpaced c.human := by
  refine ⟨fun t r hread => ?_, fun e => ⟨?_, ?_⟩, fun e c h => ⟨?_, ?_⟩⟩
  · obtain ⟨placed, hplaced, hread'⟩ := exists_read_printed (RuleSet.legible_statements hread)
    refine ⟨joined placed, hread', ?_, ?_, ?_, ?_⟩
    · rw [unplaced_implications_joined, hplaced, RuleSet.implications_statements]
    · rw [unplaced_derivations_joined, hplaced, RuleSet.derivations_statements]
    · rw [unplaced_requirements_joined, hplaced, RuleSet.requirements_statements]
    · rw [unplaced_declarations_joined, hplaced]
      exact RuleSet.perm_declarations_statements hread
  · exact Condition.normalized_normalized e
  · exact Condition.ofText_normalized e
  · exact Condition.human_eq_normalized h
  · exact Condition.singlySpaced_human h

/-- A document with comments, a list of names, and blanks of several sorts. -/
def untidy : Text :=
  "D equals\tnot B&&(A) // x\nB implies A,\u3000B\r\n/* A\n*/ external A\n B #\nB requires D"

theorem read_printed_untidy : ∃ r r', read untidy = .ok r ∧ r.printed =
    "external A\nB\nB implies A\nB implies B\nD equals not B&&(A)\nB requires D\n" ∧
    read r.printed = .ok r' ∧
    r'.derivations.map Derivation.unplaced = r.derivations.map Derivation.unplaced ∧
    (r'.declarations.map Declaration.unplaced).Perm (r.declarations.map Declaration.unplaced) := by
  let condition : Condition :=
    { human := "not B&&(A)"
      rendered := "!defined(B) && (defined(A))"
      references := [⟨"B", rfl⟩, ⟨"A", rfl⟩] }
  let r : RuleSet :=
    { declarations := [⟨⟨"D", rfl⟩, .derived, 1⟩, ⟨⟨"A", rfl⟩, .external, 4⟩,
        ⟨⟨"B", rfl⟩, .basic, 5⟩]
      implications := [⟨⟨"B", rfl⟩, ⟨"A", rfl⟩, 2⟩, ⟨⟨"B", rfl⟩, ⟨"B", rfl⟩, 2⟩]
      derivations := [⟨⟨"D", rfl⟩, condition, 1⟩]
      requirements := [⟨⟨"B", rfl⟩, ⟨"D", "defined(D)", [⟨"D", rfl⟩]⟩, 6⟩] }
  have hread : read untidy = .ok r := by decide +kernel
  obtain ⟨r', hread', -, hderivations, -, hdeclarations⟩ := read_printed.1 untidy r hread
  exact ⟨r, r', hread, by decide +kernel, hread', hderivations, hdeclarations⟩

end Document

end FeatureGuard

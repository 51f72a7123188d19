import FeatureGuard.Proofs.Condition.Rereading
import FeatureGuard.Proofs.Definitions.Concatenation

/-!
The grammar of lines. A line without comments is read exactly when it is blank or one of the five
statements is written on it, with blanks between the words; the rules that are read are those of the
statement that is written.
-/

namespace FeatureGuard

theorem Condition.ne_nil_of_ofText {t : Text} {c : Condition} (h : ofText t = .ok c) : t ≠ [] := by
  rintro rfl
  rw [ofText, Token.scan] at h
  cases h

namespace Statement

open Text (fields)

theorem solid_text (n : Name) : n.text.Solid :=
  ⟨text_ne_nil n, fun _ hc => isBlank_of_isWordChar (Preprocessor.isWordChar_of_mem_name hc)⟩

/-! ### Lists of names -/

/-- The characters that separate the names of a list. -/
def isSeparator (c : Char) : Bool := c == ',' || Text.isBlank c

/-- The text begins with a name, and names follow each other with separators between them, one at
least. There may be separators behind the last name. -/
inductive Lists : Text → List Name → Prop
  | last {n : Name} {trail : Text} : (∀ c ∈ trail, isSeparator c = true) →
      Lists (n.text ++ trail) [n]
  | cons {n : Name} {gap rest : Text} {names : List Name} : gap ≠ [] →
      (∀ c ∈ gap, isSeparator c = true) → Lists rest names →
        Lists (n.text ++ gap ++ rest) (n :: names)

/-- The text lists names, one at least, with any separators in front of the first. -/
def Enumerates (t : Text) (names : List Name) : Prop :=
  ∃ lead list, t = lead ++ list ∧ (∀ c ∈ lead, isSeparator c = true) ∧ Lists list names

theorem isSeparator_of_isBlank {c : Char} (h : Text.isBlank c = true) : isSeparator c = true := by
  rw [isSeparator, h, Bool.or_true]

theorem isSeparator_of_mem_name {n : Name} {c : Char} (hc : c ∈ n.text) :
    isSeparator c = false := by
  rw [isSeparator, (solid_text n).not_blank c hc, Bool.or_false, beq_eq_false_iff_ne]
  rintro rfl
  exact absurd (Preprocessor.isWordChar_of_mem_name hc) (by decide)

theorem fields_name (n : Name) : fields isSeparator n.text = [n.text] :=
  Text.fields_of_forall (text_ne_nil n) fun _ => isSeparator_of_mem_name

theorem Lists.ne_nil {t : Text} {names : List Name} (h : Lists t names) : names ≠ [] := by
  cases h with
  | last _ => exact List.cons_ne_nil _ _
  | cons _ _ _ => exact List.cons_ne_nil _ _

theorem Lists.fields_eq {t : Text} {names : List Name} (h : Lists t names) :
    fields isSeparator t = names.map Name.text := by
  induction h with
  | @last n trail htrail =>
      by_cases hnil : trail = []
      · rw [hnil, List.append_nil, fields_name]
        rfl
      · have hgap := Text.fields_append_gap hnil htrail n.text []
        rw [List.append_nil, fields_name] at hgap
        exact hgap
  | cons hne hgap _ ih =>
      rw [Text.fields_append_gap hne hgap, fields_name, ih]
      rfl

/-- A text whose fields are names lists them. Without fields it has nothing but separators. -/
theorem enumerates_of_fields {t : Text} {names : List Name}
    (h : fields isSeparator t = names.map Name.text) :
    (names = [] ∧ ∀ c ∈ t, isSeparator c = true) ∨ Enumerates t names := by
  induction t using Text.separatorInduction isSeparator generalizing names with
  | single field hfield =>
      by_cases hnil : field = []
      · subst hnil
        exact .inl ⟨List.map_eq_nil_iff.1 h.symm, List.forall_mem_nil _⟩
      · rw [Text.fields_of_forall hnil hfield] at h
        obtain ⟨n, rfl, rfl⟩ := List.map_eq_singleton_iff.1 h.symm
        have hlists := Lists.last (n := n) (List.forall_mem_nil _)
        rw [List.append_nil] at hlists
        exact .inr ⟨[], _, rfl, List.forall_mem_nil _, hlists⟩
  | append field c rest hfield hc ihfield ihrest =>
      rw [Text.fields_append_cons _ _ _ hc] at h
      obtain ⟨front, back, rfl, hfront, hback⟩ := List.map_eq_append_iff.1 h.symm
      by_cases hnil : field = []
      · subst hnil
        obtain rfl := List.map_eq_nil_iff.1 hfront
        refine (ihrest hback.symm).imp ?_ ?_
        · rintro ⟨rfl, hseparators⟩
          exact ⟨rfl, List.forall_mem_cons.2 ⟨hc, hseparators⟩⟩
        · rintro ⟨lead, list, rfl, hlead, hlist⟩
          exact ⟨c :: lead, list, rfl, List.forall_mem_cons.2 ⟨hc, hlead⟩, hlist⟩
      · rw [Text.fields_of_forall hnil hfield] at hfront
        obtain ⟨n, rfl, rfl⟩ := List.map_eq_singleton_iff.1 hfront
        refine .inr ⟨[], _, rfl, List.forall_mem_nil _, ?_⟩
        obtain ⟨rfl, hseparators⟩ | ⟨lead, list, rfl, hlead, hlist⟩ := ihrest hback.symm
        · exact .last (List.forall_mem_cons.2 ⟨hc, hseparators⟩)
        · have hlists := Lists.cons (n := n) (List.cons_ne_nil c lead)
            (List.forall_mem_cons.2 ⟨hc, hlead⟩) hlist
          rw [List.append_assoc] at hlists
          exact hlists

theorem mapM_readName_eq_ok_iff {pieces : List Text} {names : List Name} :
    pieces.mapM readName = .ok names ↔ pieces = names.map Name.text := by
  induction pieces generalizing names with
  | nil =>
      rw [List.mapM_nil, eq_comm (a := []), List.map_eq_nil_iff]
      exact ⟨fun h => (Except.ok.inj h).symm, fun h => h ▸ rfl⟩
  | cons piece pieces ih =>
      rw [List.mapM_cons]
      constructor
      · intro h
        cases hpiece : readName piece with
        | error flaw =>
            rw [hpiece] at h
            cases h
        | ok n =>
            cases hpieces : pieces.mapM readName with
            | error flaw =>
                rw [hpiece, hpieces] at h
                cases h
            | ok others =>
                rw [hpiece, hpieces] at h
                cases h
                rw [readName_eq_ok_iff.1 hpiece, ih.1 hpieces]
                rfl
      · intro h
        obtain ⟨n, others, rfl, hpiece, hpieces⟩ := List.map_eq_cons_iff.1 h.symm
        rw [readName_eq_ok_iff.2 hpiece.symm, ih.2 hpieces.symm]
        rfl

theorem readNames_eq_ok_iff_fields {t : Text} {names : List Name} :
    readNames t = .ok names ↔ names ≠ [] ∧ fields isSeparator t = names.map Name.text := by
  rw [readNames]
  split
  · rename_i hnone
    have hnone : fields isSeparator t = [] := hnone
    rw [hnone, eq_comm (a := []), List.map_eq_nil_iff]
    exact iff_of_false (by rintro ⟨⟩) fun h => h.1 h.2
  · rename_i hsome
    rw [mapM_readName_eq_ok_iff]
    refine ⟨fun h => ⟨?_, h⟩, And.right⟩
    rintro rfl
    exact hsome h

theorem readNames_eq_ok_iff {t : Text} {names : List Name} :
    readNames t = .ok names ↔ Enumerates t names := by
  rw [readNames_eq_ok_iff_fields]
  constructor
  · rintro ⟨hne, hfields⟩
    exact (enumerates_of_fields hfields).resolve_left fun h => hne h.1
  · rintro ⟨lead, list, rfl, hlead, hlist⟩
    rw [Text.fields_append_of_forall hlead]
    exact ⟨hlist.ne_nil, hlist.fields_eq⟩

theorem readNames_trimStart (t : Text) : readNames (Text.trimStart t) = readNames t := by
  have hfields : fields (fun c => c == ',' || Text.isBlank c) (Text.trimStart t) =
      fields (fun c => c == ',' || Text.isBlank c) t :=
    Text.fields_trimStart (fun _ => isSeparator_of_isBlank) t
  rw [readNames, readNames, hfields]

/-! ### Words with blanks between them -/

section Forms

variable {gap gap' : Text} (n : Name)

/-- The first two words of a text, with blanks behind them. -/
theorem splitWord_gaps {head keyword : Text} (hhead : head.Solid) (hgap : gap.Gap)
    (hkeyword : keyword.Solid) (hgap' : gap'.Gap) (e : Text) :
    Text.splitWord (head ++ gap ++ (keyword ++ gap' ++ e)) = (head, keyword ++ gap' ++ e) ∧
      Text.splitWord (keyword ++ gap' ++ e) = (keyword, Text.trimStart e) := by
  refine ⟨?_, Text.splitWord_append hkeyword hgap' e⟩
  rw [Text.splitWord_append hhead hgap, List.append_assoc, hkeyword.trimStart_append]

theorem says_external (hgap : gap.Gap) : Says ("external" ++ gap ++ n.text) (external n) := by
  have hword : Text.Solid "external" := Text.solid_of_all (by decide) (by decide)
  have hsplit := Text.splitWord_append hword hgap n.text
  rw [(solid_text n).trimmed.trimStart_eq] at hsplit
  exact .external hsplit (Text.splitWord_of_solid (solid_text n))

theorem says_basic : Says n.text (basic n) :=
  .basic (Text.splitWord_of_solid (solid_text n)) rfl

theorem says_implies (hgap : gap.Gap) (hgap' : gap'.Gap) {list : Text} {consequents : List Name}
    (h : readNames list = .ok consequents) :
    Says (n.text ++ gap ++ ("implies" ++ gap' ++ list)) (implies n consequents) := by
  have hword : Text.Solid "implies" := Text.solid_of_all (by decide) (by decide)
  obtain ⟨hhead, hkeyword⟩ := splitWord_gaps (solid_text n) hgap hword hgap' list
  refine .implies hhead hkeyword ?_
  rw [readNames_trimStart, h]

variable {e : Text} {c : Condition}

theorem says_equals (hgap : gap.Gap) (hgap' : gap'.Gap) (h : Condition.ofText e = .ok c) :
    Says (n.text ++ gap ++ ("equals" ++ gap' ++ e)) (equals n c) := by
  have hword : Text.Solid "equals" := Text.solid_of_all (by decide) (by decide)
  obtain ⟨hhead, hkeyword⟩ := splitWord_gaps (solid_text n) hgap hword hgap' e
  refine .equals hhead hkeyword ?_
  rw [Condition.ofText_congr (Text.words_trimStart e), h]

theorem says_requires (hgap : gap.Gap) (hgap' : gap'.Gap) (h : Condition.ofText e = .ok c) :
    Says (n.text ++ gap ++ ("requires" ++ gap' ++ e)) («requires» n c) := by
  have hword : Text.Solid "requires" := Text.solid_of_all (by decide) (by decide)
  obtain ⟨hhead, hkeyword⟩ := splitWord_gaps (solid_text n) hgap hword hgap' e
  refine .requires hhead hkeyword ?_
  rw [Condition.ofText_congr (Text.words_trimStart e), h]

end Forms

/-! ### The five statements -/

/-- The five statements as they are written, and the rules that each of them makes on a line. -/
inductive Makes (line : ℕ) : Text → RuleSet → Prop
  | external {gap : Text} (n : Name) : gap.Gap →
      Makes line ("external" ++ gap ++ n.text) { declarations := [⟨n, .external, line⟩] }
  | basic (n : Name) : Makes line n.text { declarations := [⟨n, .basic, line⟩] }
  | implies {gap gap' list : Text} {consequents : List Name} (n : Name) : gap.Gap → gap'.Gap →
      Enumerates list consequents →
      Makes line (n.text ++ gap ++ ("implies" ++ gap' ++ list))
        { implications := consequents.map fun c => ⟨n, c, line⟩ }
  | equals {gap gap' e : Text} {c : Condition} (n : Name) : gap.Gap → gap'.Gap →
      Condition.ofText e = .ok c →
      Makes line (n.text ++ gap ++ ("equals" ++ gap' ++ e))
        { declarations := [⟨n, .derived, line⟩], derivations := [⟨n, c, line⟩] }
  | requires {gap gap' e : Text} {c : Condition} (n : Name) : gap.Gap → gap'.Gap →
      Condition.ofText e = .ok c →
      Makes line (n.text ++ gap ++ ("requires" ++ gap' ++ e)) { requirements := [⟨n, c, line⟩] }

variable {t : Text}

/-- What follows the first two words of a text follows them behind blanks. -/
theorem exists_gaps (h : t.Trimmed) {head keyword rest e : Text}
    (hhead : Text.splitWord t = (head, rest)) (hkeyword : Text.splitWord rest = (keyword, e))
    (hne : keyword ≠ []) (he : e ≠ []) :
    ∃ gap gap', gap.Gap ∧ gap'.Gap ∧ t = head ++ gap ++ (keyword ++ gap' ++ e) := by
  obtain ⟨hrest, ⟨rfl, -⟩ | ⟨-, gap, hgap, rfl⟩⟩ := h.cases_splitWord hhead
  · cases hkeyword
    exact absurd rfl hne
  · obtain ⟨-, ⟨rfl, -⟩ | ⟨-, gap', hgap', rfl⟩⟩ := hrest.cases_splitWord hkeyword
    · exact absurd rfl he
    · exact ⟨gap, gap', hgap, hgap', rfl⟩

theorem makes_of_says (h : t.Trimmed) {statement : Statement} (hform : Says t statement)
    (line : ℕ) : Makes line t (statement.rules line) := by
  cases hform with
  | @external n rest head only =>
      obtain ⟨hrest, ⟨rfl, -⟩ | ⟨-, gap, hgap, rfl⟩⟩ := h.cases_splitWord head
      · exact absurd (congrArg Prod.fst only).symm (text_ne_nil n)
      · obtain ⟨-, ⟨-, rfl⟩ | ⟨hne, -⟩⟩ := hrest.cases_splitWord only
        · exact .external n hgap
        · exact absurd rfl hne
  | @basic n rest head only =>
      obtain ⟨hrest, ⟨-, rfl⟩ | ⟨hne, -⟩⟩ := h.cases_splitWord head
      · exact .basic n
      · exact absurd (hrest.eq_nil_of_splitWord only) hne
  | @implies n rest e names head keyword consequents =>
      have he : e ≠ [] := by
        rintro rfl
        cases consequents
      obtain ⟨gap, gap', hgap, hgap', rfl⟩ := exists_gaps h head keyword (by decide) he
      exact .implies n hgap hgap' (readNames_eq_ok_iff.1 consequents)
  | @equals n rest e c head keyword condition =>
      obtain ⟨gap, gap', hgap, hgap', rfl⟩ :=
        exists_gaps h head keyword (by decide) (Condition.ne_nil_of_ofText condition)
      exact .equals n hgap hgap' condition
  | @«requires» n rest e c head keyword condition =>
      obtain ⟨gap, gap', hgap, hgap', rfl⟩ :=
        exists_gaps h head keyword (by decide) (Condition.ne_nil_of_ofText condition)
      exact .requires n hgap hgap' condition

theorem exists_says_of_makes {line : ℕ} {r : RuleSet} (h : Makes line t r) :
    ∃ statement, Says t statement ∧ r = statement.rules line := by
  cases h with
  | external n hgap => exact ⟨_, says_external n hgap, rfl⟩
  | basic n => exact ⟨_, says_basic n, rfl⟩
  | implies n hgap hgap' hlist =>
      exact ⟨_, says_implies n hgap hgap' (readNames_eq_ok_iff.2 hlist), rfl⟩
  | equals n hgap hgap' condition => exact ⟨_, says_equals n hgap hgap' condition, rfl⟩
  | «requires» n hgap hgap' condition => exact ⟨_, says_requires n hgap hgap' condition, rfl⟩

/-- Apart from blanks at its ends, a text is read as the statement that is written on it. -/
theorem makes_iff (h : t.Trimmed) {line : ℕ} {r : RuleSet} :
    Makes line t r ↔ ∃ statement, ofText t = .ok statement ∧ r = statement.rules line := by
  constructor
  · intro hmakes
    obtain ⟨statement, hform, hrules⟩ := exists_says_of_makes hmakes
    exact ⟨statement, ofText_eq_ok_iff.2 hform, hrules⟩
  · rintro ⟨statement, hstatement, rfl⟩
    exact makes_of_says h (says_of_ofText hstatement) line

end Statement

/-! ### Documents of one line -/

namespace Text

theorem lines_of_not_mem {line : Text} (h : '\n' ∉ line) :
    lines line = [line].filter (· ≠ []) := by
  rw [lines, List.splitOnP_eq_singleton (beq_eq_false_of_not_mem h)]
  rfl

theorem lines_append_cons {line : Text} (h : '\n' ∉ line) (t : Text) :
    lines (line ++ '\n' :: t) = dropReturn line :: lines t := by
  have hne := List.splitOnP_ne_nil (· == '\n') t
  rw [lines, List.splitOnP_append_cons line t (by decide),
    List.splitOnP_eq_singleton (beq_eq_false_of_not_mem h), List.singleton_append,
    List.dropLast_cons_of_ne_nil hne, List.getLast?_cons_of_ne_nil hne]
  rfl

theorem lines_eq_nil_iff {t : Text} : lines t = [] ↔ t = [] := by
  refine ⟨fun h => ?_, fun h => h ▸ rfl⟩
  by_cases hfeed : '\n' ∈ t
  · obtain ⟨line, rest, rfl, hline⟩ := List.eq_append_cons_of_mem hfeed
    rw [lines_append_cons hline] at h
    cases h
  · rw [lines_of_not_mem hfeed, List.filter_eq_nil_iff] at h
    simpa using h t (List.mem_singleton_self t)

/-- What is left of a document of one line at most is a beginning of it that differs only in the end
of the line. -/
theorem lines_of_length_le {t : Text} (h : (lines t).length ≤ 1) :
    t = [] ∨ ∃ line, lines t = [line] ∧ line <+: t ∧ trim line = trim t := by
  by_cases hfeed : '\n' ∈ t
  · obtain ⟨line, rest, rfl, hline⟩ := List.eq_append_cons_of_mem hfeed
    rw [lines_append_cons hline, List.length_cons] at h
    have hrest : rest = [] := by
      rw [← lines_eq_nil_iff, ← List.length_eq_zero_iff]
      omega
    subst hrest
    refine .inr ⟨dropReturn line, lines_append_cons hline [], ?_, ?_⟩
    · obtain heq | heq := dropReturn_cases line
      · rw [heq]
        exact List.prefix_append _ _
      · conv_rhs => rw [heq]
        rw [List.append_assoc]
        exact List.prefix_append _ _
    · rw [trim_concat (by decide)]
      obtain heq | heq := dropReturn_cases line
      · rw [heq]
      · conv_rhs => rw [heq]
        rw [trim_concat (by decide)]
  · by_cases hnil : t = []
    · exact .inl hnil
    · refine .inr ⟨t, ?_, List.prefix_rfl, rfl⟩
      rw [lines_of_not_mem hfeed]
      exact List.filter_cons_of_pos (decide_eq_true hnil)

end Text

theorem RuleSet.append_empty (r : RuleSet) : r ++ {} = r := by
  show mk _ _ _ _ = r
  obtain ⟨declarations, implications, derivations, requirements⟩ := r
  congr 1
  all_goals exact List.append_nil _

theorem Comment.beforeMark_eq_self {t : Text} (h : Unmarked t) : beforeMark t = t := by
  have hkept : ∀ c ∈ t, decide (c ≠ '#') = true := by
    intro c hc
    rw [decide_eq_true_eq]
    rintro rfl
    exact h.sign hc
  simp only [beforeMark]
  rw [(Text.cut_eq_none_iff (by decide)).2 h.slashes]
  exact List.takeWhile_eq_self_iff.2 hkept

namespace Document

open Statement (Makes)

variable {t : Text} {r : RuleSet}

/-- A document of one line that no comment stands on is read as what its line says. -/
theorem read_line (hlength : (Text.lines t).length ≤ 1) (hmarks : Comment.Unmarked t)
    (hblock : ¬("/*" : Text) <:+: t) :
    read t = if Text.trim t = [] then .ok {}
      else match Statement.ofText (Text.trim t) with
        | .ok statement => .ok (statement.rules 1)
        | .error flaw => .error [flaw.onLine 1] := by
  obtain rfl | ⟨line, hlines, hprefix, htrim⟩ := Text.lines_of_length_le hlength
  · rfl
  have hprogress : uncomment t = ⟨2, none, [(1, line)]⟩ := by
    rw [uncomment, hlines, List.foldl_cons, List.foldl_nil, Progress.advance,
      Comment.strip_of_not_isInfix _ fun h => hblock (h.trans hprefix.isInfix),
      Comment.beforeMark_eq_self (hmarks.of_isPrefix hprefix)]
  simp only [read, hprogress, List.reverse_singleton, List.filterMap_cons, List.filterMap_nil,
    readLine_eq, htrim]
  by_cases hnil : Text.trim t = []
  · rw [if_pos hnil, if_pos hnil]
    rfl
  · rw [if_neg hnil, if_neg hnil]
    cases Statement.ofText (Text.trim t) with
    | ok statement => exact congrArg Except.ok (statement.rules 1).append_empty
    | error flaw => rfl

/-- A document of one line that no comment stands on is read exactly when the line is blank or one
of the five statements is written on it. Its rules are those of the statement and no others. -/
theorem read_line_iff_makes (hlength : (Text.lines t).length ≤ 1) (hmarks : Comment.Unmarked t)
    (hblock : ¬("/*" : Text) <:+: t) :
    read t = .ok r ↔ Text.trim t = [] ∧ r = {} ∨ Makes 1 (Text.trim t) r := by
  rw [read_line hlength hmarks hblock, Statement.makes_iff (Text.trimmed_trim t)]
  by_cases hnil : Text.trim t = []
  · rw [if_pos hnil, hnil]
    constructor
    · rintro ⟨⟩
      exact .inl ⟨rfl, rfl⟩
    · rintro (⟨-, rfl⟩ | ⟨_, ⟨⟩, -⟩)
      rfl
  · rw [if_neg hnil]
    cases Statement.ofText (Text.trim t) with
    | ok statement =>
        constructor
        · rintro ⟨⟩
          exact .inr ⟨statement, rfl, rfl⟩
        · rintro (⟨hblank, -⟩ | ⟨_, ⟨⟩, rfl⟩)
          · exact absurd hblank hnil
          · rfl
    | error flaw =>
        refine iff_of_false ?_ ?_
        · rintro ⟨⟩
        · rintro (⟨hblank, -⟩ | ⟨_, ⟨⟩, -⟩)
          exact hnil hblank

/-- A list of names between blanks of several sorts, with commas in front of it and behind it. -/
def listing : Text := "\u2003LB_GPU implies\t,LB, ,GPU,,\r\n"

theorem read_line_listing : (Text.lines listing).length ≤ 1 ∧ Comment.Unmarked listing ∧
    ¬("/*" : Text) <:+: listing ∧ read listing = .ok { implications :=
      [⟨⟨"LB_GPU", rfl⟩, ⟨"LB", rfl⟩, 1⟩, ⟨⟨"LB_GPU", rfl⟩, ⟨"GPU", rfl⟩, 1⟩] } := by
  have hlength : (Text.lines listing).length ≤ 1 := by decide
  have hmarks : Comment.Unmarked listing := ⟨by decide, by decide⟩
  have hblock : ¬("/*" : Text) <:+: listing := by decide
  have hgap := List.all_eq_true.1 (show (", ," : Text).all Statement.isSeparator = true by decide)
  have htrail := List.all_eq_true.1 (show (",," : Text).all Statement.isSeparator = true by decide)
  have hlead := List.all_eq_true.1 (show ("," : Text).all Statement.isSeparator = true by decide)
  have hlist : Statement.Lists "LB, ,GPU,," [⟨"LB", rfl⟩, ⟨"GPU", rfl⟩] :=
    .cons (n := ⟨"LB", rfl⟩) (by decide) hgap (.last (n := ⟨"GPU", rfl⟩) htrail)
  have hblank : Text.Gap " " := Text.gap_of_all (by decide) (by decide)
  have htab : Text.Gap "\t" := Text.gap_of_all (by decide) (by decide)
  refine ⟨hlength, hmarks, hblock, (read_line_iff_makes hlength hmarks hblock).2 (.inr ?_)⟩
  exact .implies ⟨"LB_GPU", rfl⟩ hblank htab ⟨",", _, rfl, hlead, hlist⟩

end Document

end FeatureGuard

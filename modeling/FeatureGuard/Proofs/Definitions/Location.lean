import FeatureGuard.Proofs.Definitions.Exposure
import FeatureGuard.Proofs.Definitions.Grammar

/-!
Where the errors of a document point. An error names an existing line, and its token is a piece of
that line that stands outside the comments, unless the error lies behind the last word. There is one
exception: an operator that is written as a word and stands in the wrong place is shown as its
symbol.
-/

namespace FeatureGuard

/-! ### Pieces of a text -/

namespace Text

/-- A word or a part of one that stands in a text. -/
structure Piece (t piece : Text) : Prop where
  solid : piece.Solid
  isInfix : piece <:+: t

theorem Piece.trans {t r piece : Text} (h : r.Piece piece) (hr : r <:+: t) : t.Piece piece :=
  ⟨h.solid, h.isInfix.trans hr⟩

theorem Solid.not_mem_space {word : Text} (h : word.Solid) : ' ' ∉ word :=
  fun hmem => Bool.noConfusion (h.not_blank ' ' hmem)

theorem trim_isInfix (t : Text) : trim t <:+: t :=
  (trim_isPrefix_trimStart t).isInfix.trans (List.dropWhile_suffix _).isInfix

theorem piece_splitWord {t : Text} (hne : (splitWord t).1 ≠ []) : t.Piece (splitWord t).1 := by
  refine ⟨⟨hne, fun c hc => ?_⟩, ?_⟩
  · have hword := List.all_eq_true.1 List.all_takeWhile c hc
    rwa [Bool.not_eq_true'] at hword
  · exact (List.takeWhile_prefix _).isInfix.trans (List.dropWhile_suffix _).isInfix

theorem splitWord_isInfix (t : Text) : (splitWord t).2 <:+: t :=
  ((List.dropWhile_suffix _).trans
    ((List.dropWhile_suffix _).trans (List.dropWhile_suffix _))).isInfix

theorem isInfix_of_mem_splitOnP {p : Char → Bool} {t piece : Text} (h : piece ∈ t.splitOnP p) :
    piece <:+: t := by
  induction t using separatorInduction p with
  | single field hfield =>
      rw [List.splitOnP_eq_singleton hfield] at h
      obtain rfl := List.mem_singleton.1 h
      exact List.infix_rfl
  | append field c rest hfield hc ihfield ihrest =>
      rw [List.splitOnP_append_cons field rest hc, List.mem_append] at h
      rcases h with h | h
      · exact (ihfield h).trans (List.prefix_append _ _).isInfix
      · exact (ihrest h).trans ((List.suffix_cons c rest).trans (List.suffix_append _ _)).isInfix

theorem piece_of_mem_fields {separator : Char → Bool}
    (hblank : ∀ c, isBlank c = true → separator c = true) {t piece : Text}
    (h : piece ∈ fields separator t) : t.Piece piece := by
  obtain ⟨hmem, hne⟩ := List.mem_filter.1 h
  refine ⟨⟨of_decide_eq_true hne, fun c hc => ?_⟩, isInfix_of_mem_splitOnP hmem⟩
  have hseparator := (mem_of_mem_splitOnP hmem hc).2
  rw [← Bool.not_eq_true]
  exact fun h => Bool.noConfusion (hseparator.symm.trans (hblank c h))

end Text

/-! ### Flaws of a line -/

/-- The words for operators with the symbols that are shown in their places, each with the reason
for which it is. -/
inductive Respelled : Text → Reason → Text → Prop
  | and : Respelled "and" .expectedOperand "&&"
  | or : Respelled "or" .expectedOperand "||"
  | not : Respelled "not" .expectedOperator "!"

/-- The flaw is shown by a piece of the text, it lies behind the text, or it is an operator there
that is written as a word. -/
inductive Flaw.PointsInto (t : Text) : Flaw → Prop
  | piece {reason : Reason} {token : Text} : t.Piece token → PointsInto t ⟨reason, token⟩
  | behind (reason : Reason) : PointsInto t ⟨reason, endOfLine⟩
  | respelled {word symbol : Text} {reason : Reason} : t.Piece word →
      Respelled word reason symbol → PointsInto t ⟨reason, symbol⟩

open Flaw (Only only_ok only_error only_mapM PointsInto)

theorem Flaw.PointsInto.trans {t r : Text} {flaw : Flaw} (h : PointsInto r flaw)
    (hr : r <:+: t) : PointsInto t flaw := by
  cases h with
  | piece hpiece => exact .piece (hpiece.trans hr)
  | behind reason => exact .behind reason
  | respelled hword hsymbol => exact .respelled (hword.trans hr) hsymbol

namespace Token

theorem only_scan (t : Text) : Only (PointsInto t) (scan t) := by
  fun_induction scan t with
  | case1 => exact only_ok []
  | case2 c r _ ih => exact ih.imp fun _ h => h.trans (List.suffix_cons c r).isInfix
  | case3 c r _ _ word token _ ih =>
      refine (ih.imp fun _ h => ?_).bind fun rest _ => only_ok (token :: rest)
      exact h.trans ((List.dropWhile_suffix _).trans (List.suffix_cons c r)).isInfix
  | case4 c r _ hc word _ =>
      have hword : word <+: c :: r := (List.prefix_cons_inj c).2 (List.takeWhile_prefix _)
      have hchars : ∀ d ∈ word, isWordChar d = true :=
        List.forall_mem_cons.2 ⟨hc, List.all_eq_true.1 List.all_takeWhile⟩
      have hsolid : Text.Solid word :=
        ⟨List.cons_ne_nil _ _, fun d hd => isBlank_of_isWordChar (hchars d hd)⟩
      exact only_error (.piece ⟨hsolid, hword.isInfix⟩)
  | case5 c r _ _ token rest hsymbol _ ih =>
      obtain ⟨symbol, -, hsplit⟩ := symbol?_eq_some_iff.1 hsymbol
      refine (ih.imp fun _ h => ?_).bind fun tokens _ => only_ok (token :: tokens)
      rw [hsplit]
      exact h.trans (List.suffix_append symbol rest).isInfix
  | case6 c r hblank _ _ =>
      refine only_error (.piece ⟨⟨List.cons_ne_nil _ _, ?_⟩, (List.prefix_append [c] r).isInfix⟩)
      rw [List.forall_mem_singleton]
      exact Bool.eq_false_iff.2 hblank

/-- What is blamed for a wrong shape of tokens: one of them, or that no other follows. -/
inductive Blamed (tokens : List Token) : Flaw → Prop
  | missing (reason : Reason) : Blamed tokens ⟨reason, endOfLine⟩
  | token {token : Token} {reason : Reason} : token ∈ tokens →
      (token = and ∨ token = or → reason = .expectedOperand) →
        (token = not → reason = .expectedOperator) → Blamed tokens ⟨reason, token.text⟩

theorem only_checkShape {all tokens : List Token} {depth : ℕ} (operand : Bool)
    (hall : ∀ token ∈ tokens, token ∈ all) (hdepth : 0 < depth → opening ∈ all) :
    Only (Blamed all) (checkShape operand depth tokens) := by
  fun_induction checkShape operand depth tokens with
  | case1 => exact only_error (.missing _)
  | case2 _ _ _ ih | case3 _ _ ih | case8 _ _ ih | case9 _ _ ih =>
      exact ih (List.forall_mem_cons.1 hall).2 hdepth
  | case4 depth rest ih =>
      obtain ⟨hopening, hrest⟩ := List.forall_mem_cons.1 hall
      exact ih hrest fun _ => hopening
  | case5 depth token rest _ hnot _ =>
      have hmem := hall token List.mem_cons_self
      exact only_error (.token hmem (fun _ => rfl) fun h => absurd h hnot)
  | case6 => exact only_ok ()
  | case7 depth => exact only_error (.token (hdepth depth.succ_pos) (by simp) (by simp))
  | case10 rest => exact only_error (.token (hall closing List.mem_cons_self) (by simp) (by simp))
  | case11 rest outer ih =>
      exact ih (List.forall_mem_cons.1 hall).2 fun _ => hdepth outer.succ_pos
  | case12 depth token rest hand hor _ _ =>
      have hmem := hall token List.mem_cons_self
      exact only_error (.token hmem (fun h => (h.elim hand hor).elim) fun _ => rfl)

/-- Every token of a text is written on it as a word or as a symbol. -/
theorem Splits.exists_piece {t : Text} {tokens : List Token} (h : Splits t tokens) {token : Token}
    (htoken : token ∈ tokens) :
    ∃ spelling, t.Piece spelling ∧ (IsWord spelling token ∨ IsSymbol spelling token) := by
  induction h with
  | nil => cases htoken
  | @blank c rest _ _ _ ih =>
      obtain ⟨spelling, hpiece, hspells⟩ := ih htoken
      exact ⟨spelling, hpiece.trans (List.suffix_cons c rest).isInfix, hspells⟩
  | @word word first rest _ hword _ _ ih =>
      rcases List.mem_cons.1 htoken with rfl | htoken
      · have hsolid : word.Solid :=
          ⟨hword.ne_nil, fun c hc => isBlank_of_isWordChar (hword.isWordChar c hc)⟩
        exact ⟨word, ⟨hsolid, (List.prefix_append word rest).isInfix⟩, .inl hword⟩
      · obtain ⟨spelling, hpiece, hspells⟩ := ih htoken
        exact ⟨spelling, hpiece.trans (List.suffix_append word rest).isInfix, hspells⟩
  | @symbol symbol first rest _ hsymbol _ ih =>
      rcases List.mem_cons.1 htoken with rfl | htoken
      · have hsolid : symbol.Solid := by
          cases hsymbol <;> exact Text.solid_of_all (by decide) (by decide)
        exact ⟨symbol, ⟨hsolid, (List.prefix_append symbol rest).isInfix⟩, .inr hsymbol⟩
      · obtain ⟨spelling, hpiece, hspells⟩ := ih htoken
        exact ⟨spelling, hpiece.trans (List.suffix_append symbol rest).isInfix, hspells⟩

theorem Blamed.pointsInto {t : Text} {tokens : List Token} {flaw : Flaw} (h : Blamed tokens flaw)
    (hsplits : Splits t tokens) : PointsInto t flaw := by
  cases h with
  | missing reason => exact .behind reason
  | token htoken hoperand hoperator =>
      obtain ⟨spelling, hpiece, hword | hsymbol⟩ := hsplits.exists_piece htoken
      · cases hword with
        | and => exact .respelled hpiece (hoperand (.inl rfl) ▸ .and)
        | or => exact .respelled hpiece (hoperand (.inr rfl) ▸ .or)
        | not => exact .respelled hpiece (hoperator rfl ▸ .not)
        | name n => exact .piece hpiece
      · cases hsymbol <;> exact .piece hpiece

end Token

theorem Condition.only_ofText (t : Text) : Only (PointsInto t) (ofText t) := by
  refine (Token.only_scan t).bind fun tokens htokens => ?_
  split
  · exact only_error (.behind _)
  · have hshape : Only (Token.Blamed tokens) (Token.checkShape true 0 tokens) :=
      Token.only_checkShape true (fun _ h => h) nofun
    have hpoints := hshape.imp fun _ h => h.pointsInto (Token.splits_of_scan htokens)
    exact hpoints.bind fun _ _ => only_ok _

namespace Statement

variable {t r : Text}

theorem only_readName (h : t.Piece r) : Only (PointsInto t) (readName r) := by
  rw [readName]
  split
  · exact only_ok _
  · exact only_error (.piece h)

theorem only_readNames (t : Text) : Only (PointsInto t) (readNames t) := by
  rw [readNames]
  split
  · exact only_error (.behind _)
  · refine only_mapM fun field hfield => only_readName ?_
    exact Text.piece_of_mem_fields (fun _ => isSeparator_of_isBlank) hfield

theorem only_readExternal (h : t.Trimmed) : Only (PointsInto t) (readExternal t) := by
  have hrest := Text.splitWord_isInfix t
  rw [readExternal]
  split
  · exact only_error (.behind _)
  · rename_i word hne hsplit
    have hword := Text.piece_splitWord (t := t)
    rw [hsplit] at hword
    exact (only_readName (hword hne)).map _
  · rename_i word rest _ hne hsplit
    rw [hsplit] at hrest
    have hnext : (Text.splitWord rest).1 ≠ [] :=
      fun hnil => hne ((h.cases_splitWord hsplit).1.eq_nil_of_splitWord hnil)
    exact only_error (.piece ((Text.piece_splitWord hnext).trans hrest))

theorem only_readRule (name : Name) (t : Text) : Only (PointsInto t) (readRule name t) := by
  have htail : ∀ flaw, PointsInto (Text.splitWord t).2 flaw → PointsInto t flaw :=
    fun _ h => h.trans (Text.splitWord_isInfix t)
  simp only [readRule]
  split_ifs with hnil
  · exact only_ok _
  · exact ((only_readNames _).imp htail).map _
  · exact ((Condition.only_ofText _).imp htail).map _
  · exact ((Condition.only_ofText _).imp htail).map _
  · exact only_error (.piece (Text.piece_splitWord hnil))

theorem only_ofText (h : t.Trimmed) (hne : t ≠ []) : Only (PointsInto t) (ofText t) := by
  have hrest : ∀ flaw, PointsInto (Text.splitWord t).2 flaw → PointsInto t flaw :=
    fun _ h => h.trans (Text.splitWord_isInfix t)
  have hhead : t.Piece (Text.splitWord t).1 :=
    Text.piece_splitWord fun hnil => hne (h.eq_nil_of_splitWord hnil)
  simp only [ofText]
  split_ifs
  · exact (only_readExternal (h.cases_splitWord rfl).1).imp hrest
  · exact (only_readName hhead).bind fun name _ => (only_readRule name _).imp hrest

end Statement

namespace Document

open Comment (sweep Exposes)

/-! ### Errors of a document -/

/-- How an error is shown by the line that it names. The line begins inside a block or not, and the
given lines come later. -/
inductive Shows (b : Bool) (line : Text) (later : List Text) : Reason → Text → Prop
  | piece {reason : Reason} {token : Text} : token ≠ [] → token <:+: line →
      Exposes b line token → Shows b line later reason token
  | behind (reason : Reason) : Shows b line later reason endOfLine
  /-- by the mark that begins a block which nothing ends -/
  | unclosed {front back : Text} : line = front ++ "/*" ++ back → (sweep b front).2 = false →
      (sweep b (front ++ "/*")).2 = true → ¬("*/" : Text) <:+: back →
        (∀ t ∈ later, ¬("*/" : Text) <:+: t) → Shows b line later .unterminatedComment "/*"
  /-- by an operator that is written as a word, of which the symbol is reported -/
  | respelled {reason : Reason} {word symbol : Text} : word <:+: line → Exposes b line word →
      Respelled word reason symbol → Shows b line later reason symbol

theorem shows_of_pointsInto {earlier later : List Text} {line : Text} {number : ℕ} {flaw : Flaw}
    (h : PointsInto (Comment.strip number (opened earlier) line).1 flaw) :
    Shows (inside earlier) line later flaw.reason flaw.token := by
  have hexposed : ∀ {piece : Text}, (Comment.strip number (opened earlier) line).1.Piece piece →
      Exposes (inside earlier) line piece := by
    intro piece hpiece
    rw [inside_eq]
    exact Comment.exposes_of_isInfix hpiece.solid.not_mem_space hpiece.isInfix
  cases h with
  | piece hpiece => exact .piece hpiece.solid.ne_nil (hexposed hpiece).isInfix (hexposed hpiece)
  | behind reason => exact .behind reason
  | respelled hword hsymbol =>
      exact .respelled (hexposed hword).isInfix (hexposed hword) hsymbol

theorem BeganOn.shows {lines : List Text} {number : ℕ} (h : BeganOn lines number) :
    ∃ earlier line later, lines = earlier ++ line :: later ∧ number = earlier.length + 1 ∧
      Shows (inside earlier) line later .unterminatedComment "/*" := by
  obtain ⟨earlier, later, front, back, hlines, hnumber, hfront, hmark, hback, hlater⟩ := h
  refine ⟨earlier, _, later, hlines, hnumber, .unclosed rfl ?_ ?_ hback hlater⟩
  · rw [← inside_concat, inside_eq, hfront]
    rfl
  · rw [← inside_concat, inside_eq, hmark]
    rfl

/-- Every error that is reported of a document names one of its lines and is shown by that line. -/
theorem errors_shown {t : Text} {errors : List SyntaxError} (h : read t = .error errors) :
    ∀ e ∈ errors, ∃ earlier line later, Text.lines t = earlier ++ line :: later ∧
      e.line = earlier.length + 1 ∧ Shows (inside earlier) line later e.reason e.token := by
  have hreported : reported t = errors := by rw [reported, h]
  rw [← hreported, reported_eq, Progress.flaws_eq]
  intro e he
  rcases List.mem_append.1 he with he | he
  · obtain ⟨⟨number, content⟩, hmem, hflaw⟩ := List.mem_filterMap.1 he
    obtain ⟨hne, flaw, hstatement, rfl⟩ := exists_of_flaw? hflaw
    obtain ⟨earlier, line, later, hlines, hnumber, rfl⟩ :=
      exists_line_of_mem_contents (List.mem_reverse.1 hmem)
    have hpoints := Statement.only_ofText (Text.trimmed_trim _) hne flaw hstatement
    exact ⟨earlier, line, later, hlines, hnumber,
      shows_of_pointsInto (hpoints.trans (Text.trim_isInfix _))⟩
  · obtain ⟨number, hopened, rfl⟩ := List.mem_map.1 he
    exact (beganOn_of_opened (Option.mem_toList.1 hopened)).shows

/-- A name that is none behind a block, a word behind the only name, an operator without an operand,
and a block that is not closed. -/
def littered : Text := "A\n/* x */ b // c\nexternal B C\nD equals /* and */ or A\nE /* F"

theorem errors_shown_littered :
    let errors : List SyntaxError := [⟨2, .invalidName, "b"⟩, ⟨3, .unexpectedToken, "C"⟩,
      ⟨4, .expectedOperand, "||"⟩, ⟨5, .unterminatedComment, "/*"⟩]
    read littered = .error errors ∧
      ∀ e ∈ errors, ∃ earlier line later, Text.lines littered = earlier ++ line :: later ∧
        e.line = earlier.length + 1 ∧ Shows (inside earlier) line later e.reason e.token := by
  intro errors
  have hread : read littered = .error errors := by decide +kernel
  exact ⟨hread, errors_shown hread⟩

/-- The first word of the condition is reported as a symbol that the line does not have. -/
theorem operator_respelled :
    let t : Text := "A\nX equals and A\n"
    let line : Text := "X equals and A"
    read t = .error [⟨2, .expectedOperand, "&&"⟩] ∧ Text.lines t = [("A" : Text), line] ∧
      ("&&" : Text) ≠ endOfLine ∧ ¬("&&" : Text) <:+: line := by
  decide +kernel

end Document

end FeatureGuard

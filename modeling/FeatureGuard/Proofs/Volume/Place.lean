import FeatureGuard.Proofs.Text.Word
import FeatureGuard.Volume.Basic

/-!
Where paths lead, as far as their names tell. In a tree without links, the location that a path
leads to is determined by its components, whichever of the directories on the way exist. The path
that differs from a given one in its file name only leads to the same directory.
-/

namespace FeatureGuard

namespace Text

theorem join_splitOnP (t : Text) : join "/" (t.splitOnP (· == '/')) = t := by
  induction t with
  | nil => rfl
  | cons c t ih =>
      obtain ⟨first, rest, hsplit⟩ := List.exists_cons_of_ne_nil (List.splitOnP_ne_nil (· == '/') t)
      rw [List.splitOnP_cons_eq_if_modifyHead]
      rw [hsplit] at ih ⊢
      split
      · rename_i hc
        rw [beq_iff_eq] at hc
        rw [hc]
        exact congrArg (List.cons '/') ih
      · rw [List.modifyHead_cons, ← ih]
        cases rest with
        | nil => rfl
        | cons second rest => rfl

theorem slash_not_mem_piece {t piece : Text} (h : piece ∈ t.splitOnP (· == '/')) : '/' ∉ piece :=
  fun hmem => absurd (mem_of_mem_splitOnP h hmem).2 (by decide)

/-- Pieces without slashes are found again. -/
theorem splitOnP_join {ts : List Text} (hne : ts ≠ []) (h : ∀ t ∈ ts, '/' ∉ t) :
    (join "/" ts).splitOnP (· == '/') = ts := by
  induction ts with
  | nil => exact absurd rfl hne
  | cons t ts ih =>
      obtain ⟨ht, hts⟩ := List.forall_mem_cons.1 h
      cases ts with
      | nil => exact List.splitOnP_eq_singleton (beq_eq_false_of_not_mem ht)
      | cons u ts =>
          have hjoin : join "/" (t :: u :: ts) = t ++ '/' :: join "/" (u :: ts) := by
            show t ++ ['/'] ++ join "/" (u :: ts) = _
            rw [List.append_assoc]
            rfl
          rw [hjoin, List.splitOnP_append_cons_of_forall_mem (beq_eq_false_of_not_mem ht) _ rfl,
            ih (List.cons_ne_nil u ts) hts]

end Text

/-! ### Following the components of a path -/

/-- Where a component leads from a location, as far as its name tells. -/
def Location.follow (location : Location) (component : Text) : Location :=
  if component = [] ∨ component = "." then location
  else if component = ".." then location.dropLast
  else location ++ [component]

namespace Path

/-- Where a path starts. -/
def origin (home : Location) (p : Path) : Location := if p.head? = some '/' then [] else home

/-- The location that a path leads to. -/
def place (home : Location) (p : Path) : Location :=
  (p.splitOnP (· == '/')).foldl Location.follow (origin home p)

/-- Whether a piece of a path counts for nothing. -/
def isIdle (piece : Text) : Bool := piece = [] || piece = "."

/-- The name that a path ends with, if it ends with a name. -/
def endName? (p : Path) : Option Text :=
  (p.splitOnP (· == '/')).getLast?.filter fun t => isIdle t = false ∧ t ≠ ".."

variable {p : Path} {n : Text} {home : Location}

/-- A path that does not end with a slash has a last piece. -/
theorem last_ne_nil {before : List Text} {last : Text}
    (h : p.splitOnP (· == '/') = before ++ [last]) (hne : p ≠ []) (hslash : p.getLast? ≠ some '/') :
    last ≠ [] := by
  rintro rfl
  have hp : p = Text.join "/" (before ++ [[]]) := by rw [← h, Text.join_splitOnP]
  by_cases hbefore : before = []
  · rw [hbefore] at hp
    exact hne hp
  · rw [Text.join_append hbefore, List.append_nil] at hp
    refine hslash ?_
    rw [hp]
    exact List.getLast?_concat

/-- Empty pieces lead nowhere. -/
theorem foldl_follow_filter (pieces : List Text) (location : Location) :
    (pieces.filter (· ≠ [])).foldl Location.follow location =
      pieces.foldl Location.follow location := by
  induction pieces generalizing location with
  | nil => rfl
  | cons t pieces ih =>
      rw [List.filter_cons, List.foldl_cons]
      split
      · rw [List.foldl_cons, ih]
      · rename_i ht
        have hempty : t = [] := by simpa using ht
        rw [ih, Location.follow, if_pos (Or.inl hempty)]

theorem exists_of_endName? (h : endName? p = some n) : isIdle n = false ∧ n ≠ ".." ∧ '/' ∉ n ∧
    ∃ before, p.splitOnP (· == '/') = before ++ [n] := by
  obtain ⟨hlast, hname⟩ := Option.filter_eq_some_iff.1 h
  obtain ⟨before, hbefore⟩ := List.getLast?_eq_some_iff.1 hlast
  have hslash : '/' ∉ n := Text.slash_not_mem_piece (by rw [hbefore]; exact List.mem_concat_self)
  obtain ⟨hidle, hup⟩ := of_decide_eq_true hname
  exact ⟨hidle, hup, hslash, before, hbefore⟩

theorem origin_join {first : Text} {rest : List Text} (hfirst : '/' ∉ first) (hrest : rest ≠ []) :
    origin home (Text.join "/" (first :: rest)) = if first = [] then [] else home := by
  obtain ⟨second, rest, rfl⟩ := List.exists_cons_of_ne_nil hrest
  cases first with
  | nil => rfl
  | cons c first =>
      have hc : c ≠ '/' := by
        rintro rfl
        exact hfirst List.mem_cons_self
      show (if some c = some '/' then [] else home) = home
      rw [if_neg (by simpa using hc)]

/-! ### Another file name -/

/-- Pieces without those at the end that count for nothing. -/
def dropIdle (rest : List Text) : List Text := (rest.reverse.dropWhile isIdle).reverse

theorem pieces_eq {first : Text} {rest : List Text}
    (h : p.splitOnP (· == '/') = first :: rest) : pieces p = (first, dropIdle rest) := by
  rw [pieces, h]
  rfl

theorem dropIdle_append (rest : List Text) (hn : isIdle n = false) :
    dropIdle (rest ++ [n]) = rest ++ [n] := by
  rw [dropIdle, List.reverse_append]
  show (List.dropWhile isIdle (n :: rest.reverse)).reverse = rest ++ [n]
  rw [List.dropWhile_cons, hn, if_neg Bool.false_ne_true, List.reverse_cons, List.reverse_reverse]

theorem exists_eq_dropIdle_append (rest : List Text) :
    ∃ idle, rest = dropIdle rest ++ idle ∧ ∀ t ∈ idle, isIdle t = true := by
  refine ⟨(rest.reverse.takeWhile isIdle).reverse, ?_, ?_⟩
  · rw [dropIdle, ← List.reverse_append, List.takeWhile_append_dropWhile, List.reverse_reverse]
  · intro t ht
    exact List.all_eq_true.1 List.all_takeWhile t (List.mem_reverse.1 ht)

theorem isIdle_last_dropIdle {rest before : List Text} {t : Text}
    (h : dropIdle rest = before ++ [t]) : isIdle t = false := by
  have hdrop : rest.reverse.dropWhile isIdle = t :: before.reverse := by
    rw [dropIdle, List.reverse_eq_iff] at h
    rw [h, List.reverse_append]
    rfl
  have hnot := List.head?_dropWhile_not isIdle rest.reverse
  rwa [hdrop] at hnot

/-- Pieces at the end that count for nothing lead nowhere. -/
theorem foldl_follow_idle {idle : List Text} (h : ∀ t ∈ idle, isIdle t = true)
    (location : Location) : idle.foldl Location.follow location = location := by
  induction idle with
  | nil => rfl
  | cons t idle ih =>
      obtain ⟨ht, hidle⟩ := List.forall_mem_cons.1 h
      have hcount : t = [] ∨ t = "." := by simpa [isIdle] using ht
      rw [List.foldl_cons, Location.follow, if_pos hcount, ih hidle]

theorem head?_ne_slash {t : Text} (h : '/' ∉ t) : t.head? ≠ some '/' :=
  fun hhead => h (List.mem_of_mem_head? hhead)

theorem getLast?_ne_slash {t : Text} (h : '/' ∉ t) : t.getLast? ≠ some '/' :=
  fun hlast => h (List.mem_of_getLast? hlast)

theorem fileName?_eq {before : List Text} (h : p.splitOnP (· == '/') = before ++ [n])
    (hn : isIdle n = false) (hup : n ≠ "..") : fileName? p = some n := by
  have hnot : n ≠ "." := by
    rintro rfl
    cases hn
  have hlast : last? p = some n := by
    cases before with
    | nil =>
        have hne : n ≠ [] := by
          rintro rfl
          cases hn
        rw [last?, pieces_eq h]
        exact if_neg hne
    | cons first rest =>
        obtain ⟨second, others, hcons⟩ := List.exists_cons_of_ne_nil
          (List.append_ne_nil_of_right_ne_nil rest (List.cons_ne_nil n []))
        rw [List.cons_append] at h
        rw [last?, pieces_eq h, dropIdle_append rest hn, hcons]
        show (second :: others).getLast? = some n
        rw [← hcons, List.getLast?_concat]
  rw [fileName?, hlast, Option.filter_some, if_pos (decide_eq_true ⟨hnot, hup⟩)]

/-- A path that has a last character other than a slash is continued by a slash. -/
theorem push_join (pieces : List Text) {last : Text} (hne : last ≠ []) (hlast : '/' ∉ last)
    (hname : '/' ∉ n) : push (Text.join "/" (pieces ++ [last])) n =
      Text.join "/" (pieces ++ [last] ++ [n]) := by
  have hend : ∃ front, Text.join "/" (pieces ++ [last]) = front ++ last := by
    by_cases hpieces : pieces = []
    · exact ⟨[], by rw [hpieces]; rfl⟩
    · exact ⟨_, Text.join_append hpieces last⟩
  obtain ⟨front, hfront⟩ := hend
  have hnil : ¬(front ++ last = [] || (front ++ last).getLast? = some '/') := by
    rw [Bool.or_eq_true, decide_eq_true_iff, decide_eq_true_iff, List.getLast?_append,
      List.getLast?_eq_some_getLast hne, Option.some_or, ← List.getLast?_eq_some_getLast hne]
    exact not_or.2 ⟨List.append_ne_nil_of_right_ne_nil _ hne, getLast?_ne_slash hlast⟩
  rw [Text.join_append (List.append_ne_nil_of_right_ne_nil _ (List.cons_ne_nil _ _)), push,
    if_neg (head?_ne_slash hname), hfront, if_neg hnil]

theorem parent?_eq {first : Text} {rest : List Text}
    (h : p.splitOnP (· == '/') = first :: (rest ++ [n])) (hn : isIdle n = false) :
    parent? p = some (if first = [] && dropIdle rest = [] then ("/" : Text)
      else Text.join "/" (first :: dropIdle rest)) := by
  have hfront : ∀ t ∈ first :: rest, '/' ∉ t := by
    intro t ht
    refine Text.slash_not_mem_piece (t := p) ?_
    rw [h, ← List.cons_append]
    exact List.mem_append_left [n] ht
  have hdropLast : pieces (Text.join "/" (first :: (rest ++ [n]).dropLast)) =
      (first, dropIdle rest) := by
    rw [List.dropLast_concat, pieces_eq (Text.splitOnP_join (List.cons_ne_nil first rest) hfront)]
  obtain ⟨second, others, hcons⟩ := List.exists_cons_of_ne_nil
    (List.append_ne_nil_of_right_ne_nil rest (List.cons_ne_nil n []))
  rw [parent?, pieces_eq h, dropIdle_append rest hn]
  rw [hcons] at hdropLast ⊢
  simp only [hdropLast]

theorem withFileName_eq {first : Text} {rest : List Text}
    (h : p.splitOnP (· == '/') = first :: (rest ++ [n])) {name : Text} (hname : '/' ∉ name)
    (hn : isIdle n = false) (hup : n ≠ "..") :
    withFileName p name = Text.join "/" (first :: (dropIdle rest ++ [name])) := by
  have hslash : ∀ t ∈ first :: (rest ++ [n]), '/' ∉ t :=
    fun t ht => Text.slash_not_mem_piece (h ▸ ht)
  have hfileName : fileName? p = some n := by
    rw [← List.cons_append] at h
    exact fileName?_eq h hn hup
  rw [withFileName, hfileName, parent?_eq h hn]
  show push _ name = _
  rcases List.eq_nil_or_concat (dropIdle rest) with hnil | ⟨before, t, hconcat⟩
  · by_cases hfirst : first = []
    · rw [hnil, hfirst, push, if_neg (head?_ne_slash hname)]
      rfl
    · rw [hnil, decide_eq_false hfirst, Bool.false_and, if_neg Bool.false_ne_true]
      exact push_join [] hfirst (hslash first List.mem_cons_self) hname
  · rw [List.concat_eq_append] at hconcat
    have ht : t ∈ dropIdle rest := by rw [hconcat]; exact List.mem_concat_self
    have hmem : t ∈ first :: (rest ++ [n]) := by
      obtain ⟨idle, hrest, -⟩ := exists_eq_dropIdle_append rest
      rw [hrest]
      simp [ht]
    have hne : t ≠ [] := by
      rintro rfl
      cases isIdle_last_dropIdle hconcat
    have hfilled : (first = [] && dropIdle rest = []) = false := by simp [hconcat]
    rw [hfilled, if_neg Bool.false_ne_true, hconcat]
    exact push_join (first :: before) hne (hslash t hmem) hname

theorem withFileName_eq_self (h : p.splitOnP (· == '/') = [n]) {name : Text} (hname : '/' ∉ name)
    (hn : isIdle n = false) (hup : n ≠ "..") : withFileName p name = name := by
  have hpieces : pieces p = (n, []) := pieces_eq h
  have hne : n ≠ [] := by
    rintro rfl
    cases hn
  have hfileName : fileName? p = some n := by
    rw [← List.nil_append [n]] at h
    exact fileName?_eq h hn hup
  have hparent : parent? p = some [] := by
    rw [parent?, hpieces]
    exact if_neg hne
  rw [withFileName, hfileName, hparent]
  exact if_neg (head?_ne_slash hname)

theorem follow_name (location : Location) (hn : isIdle n = false) (hup : n ≠ "..") :
    location.follow n = location ++ [n] := by
  have hcount : ¬(n = [] ∨ n = ".") := by simpa [isIdle] using hn
  rw [Location.follow, if_neg hcount, if_neg hup]

theorem place_eq_append {before : List Text} (h : p.splitOnP (· == '/') = before ++ [n])
    (hn : isIdle n = false) (hup : n ≠ "..") :
    place home p = before.foldl Location.follow (origin home p) ++ [n] := by
  rw [place, h, List.foldl_append]
  exact follow_name _ hn hup

theorem place_join {first : Text} {rest : List Text} (h : ∀ t ∈ first :: rest, '/' ∉ t)
    (hnslash : '/' ∉ n) (hn : isIdle n = false) (hup : n ≠ "..") :
    place home (Text.join "/" (first :: (rest ++ [n]))) =
      (first :: rest).foldl Location.follow (if first = [] then [] else home) ++ [n] := by
  have hpieces : ∀ t ∈ first :: rest ++ [n], '/' ∉ t := by
    intro t ht
    rcases List.mem_append.1 ht with ht | ht
    · exact h t ht
    · exact List.mem_singleton.1 ht ▸ hnslash
  have hsplit := Text.splitOnP_join (List.cons_ne_nil first (rest ++ [n])) hpieces
  rw [← List.cons_append] at hsplit ⊢
  rw [place_eq_append hsplit hn hup, List.cons_append,
    origin_join (h first List.mem_cons_self)
      (List.append_ne_nil_of_right_ne_nil rest (List.cons_ne_nil n []))]

/-- The path with another file name leads to the same directory. -/
theorem place_withFileName (h : endName? p = some n) {name : Text} (hslash : '/' ∉ name)
    (hname : isIdle name = false) (hup : name ≠ "..") :
    ∃ directory, place home p = directory ++ [n] ∧
      place home (withFileName p name) = directory ++ [name] := by
  obtain ⟨hn, hnup, hnslash, before, hsplit⟩ := exists_of_endName? h
  have hp : p = Text.join "/" (before ++ [n]) := by rw [← hsplit, Text.join_splitOnP]
  cases before with
  | nil =>
      obtain rfl : p = n := hp
      have hsplitName : name.splitOnP (· == '/') = [] ++ [name] :=
        List.splitOnP_eq_singleton (Text.beq_eq_false_of_not_mem hslash)
      rw [withFileName_eq_self hsplit hslash hn hnup, place_eq_append hsplit hn hnup,
        place_eq_append hsplitName hname hup, origin, if_neg (head?_ne_slash hnslash), origin,
        if_neg (head?_ne_slash hslash)]
      exact ⟨home, rfl, rfl⟩
  | cons first rest =>
      have hpieces : ∀ t ∈ first :: rest, '/' ∉ t :=
        fun t ht => Text.slash_not_mem_piece (hsplit ▸ List.mem_append_left [n] ht)
      obtain ⟨idle, hrest, hidle⟩ := exists_eq_dropIdle_append rest
      have hall : first :: rest = (first :: dropIdle rest) ++ idle :=
        congrArg (List.cons first) hrest
      have hkept : ∀ t ∈ first :: dropIdle rest, '/' ∉ t :=
        fun t ht => hpieces t (hall ▸ List.mem_append_left idle ht)
      -- the pieces that are dropped count for nothing
      rw [withFileName_eq hsplit hslash hn hnup, place_join hkept hslash hname hup, hp,
        List.cons_append, place_join hpieces hnslash hn hnup, hall, List.foldl_append,
        foldl_follow_idle hidle]
      exact ⟨_, rfl, rfl⟩

end Path

end FeatureGuard

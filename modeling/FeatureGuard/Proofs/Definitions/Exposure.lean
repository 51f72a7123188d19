import FeatureGuard.Proofs.Definitions.Scanner

/-!
What stands outside the comments of a line. A line is gone over from left to right, with every
character outside comments kept in its place and holes for those of comments. The removal of
comments closes up these holes, but it leaves a blank for each block that ends; so a piece of what
it leaves stands on the line too, outside its comments, where there is no blank in it.
-/

namespace FeatureGuard

namespace Comment

/-- Goes over a line that begins inside a block or not. A character outside comments is kept, and
one of a comment or its marks leaves a hole; the second result tells whether a block is open at the
end. -/
def sweep : Bool → Text → List (Option Char) × Bool
  | inside, [] => ([], inside)
  | true, '*' :: '/' :: t => (sweep false t).map (none :: none :: ·) id
  | true, _ :: t => (sweep true t).map (none :: ·) id
  | false, '/' :: '*' :: t => (sweep true t).map (none :: none :: ·) id
  | false, '/' :: '/' :: t => (none :: none :: t.map fun _ => none, false)
  | false, '#' :: t => (none :: t.map fun _ => none, false)
  | false, c :: t => (sweep false t).map (some c :: ·) id

/-- The piece stands somewhere on the line, with all its characters outside comments. -/
def Exposes (inside : Bool) (t piece : Text) : Prop := piece.map some <:+: (sweep inside t).1

/-- What is kept are the characters of the line in their places. -/
theorem forall₂_sweep (inside : Bool) (t : Text) :
    List.Forall₂ (fun c kept => ∀ d ∈ kept, d = c) t (sweep inside t).1 := by
  have hholes : ∀ r : Text,
      List.Forall₂ (fun c (kept : Option Char) => ∀ d ∈ kept, d = c) r (r.map fun _ => none) := by
    intro r
    rw [List.forall₂_map_right_iff, List.forall₂_same]
    exact fun c _ d hd => nomatch hd
  fun_induction sweep inside t with
  | case1 => exact .nil
  | case2 t ih => exact .cons nofun (.cons nofun ih)
  | case3 t _ _ ih => exact .cons nofun ih
  | case4 t ih => exact .cons nofun (.cons nofun ih)
  | case5 t => exact .cons nofun (.cons nofun (hholes t))
  | case6 t => exact .cons nofun (hholes t)
  | case7 c t _ _ _ ih =>
      refine .cons ?_ ih
      rintro _ ⟨rfl⟩
      rfl

theorem Exposes.isInfix {inside : Bool} {t piece : Text} (h : Exposes inside t piece) :
    piece <:+: t := by
  obtain ⟨front, back, hsweep⟩ := h
  have hkept := forall₂_sweep inside t
  rw [← hsweep, List.append_assoc] at hkept
  have hpiece := List.forall₂_take_append _ _ _ (List.forall₂_drop_append _ _ _ hkept)
  rw [List.forall₂_map_right_iff] at hpiece
  have heq : (t.drop front.length).take (piece.map some).length = piece :=
    List.forall₂_eq_eq_eq ▸ hpiece.imp fun c d hcd => (hcd d rfl).symm
  rw [← heq]
  exact (List.take_prefix _ _).isInfix.trans (List.drop_suffix _ _).isInfix

/-! ### What the removal of comments leaves -/

/-- The text closes up the holes of what is kept of a line. It may have a blank for a hole, and it
has one in front of every character that follows a hole. -/
inductive Closes : List (Option Char) → Text → Prop
  | nil : Closes [] []
  | kept {shown t} (c : Char) : Closes shown t → Closes (some c :: shown) (c :: t)
  | blank {shown t} : Closes shown t → Closes (none :: shown) (' ' :: t)
  | hole {shown t} : (∀ c ∈ t.head?, c = ' ') → Closes shown t → Closes (none :: shown) t

theorem closes_holes (t : Text) : Closes (t.map fun _ => none) [] := by
  induction t with
  | nil => exact .nil
  | cons c t ih => exact .hole nofun ih

theorem head?_blank (t : Text) : ∀ c ∈ (' ' :: t).head?, c = ' ' := by
  rintro _ ⟨rfl⟩
  rfl

theorem eq_nil_of_isPrefix {t piece : Text} (hblank : ∀ c ∈ t.head?, c = ' ')
    (hpiece : ' ' ∉ piece) (hstart : piece <+: t) : piece = [] := by
  cases piece with
  | nil => rfl
  | cons d piece =>
      obtain ⟨rest, rfl⟩ := hstart
      obtain rfl := hblank d rfl
      exact absurd List.mem_cons_self hpiece

theorem Closes.isPrefix {shown : List (Option Char)} {t piece : Text} (h : Closes shown t)
    (hpiece : ' ' ∉ piece) (hstart : piece <+: t) : piece.map some <+: shown := by
  induction h generalizing piece with
  | nil =>
      obtain rfl := List.prefix_nil.1 hstart
      exact List.nil_prefix
  | kept c _ ih =>
      cases piece with
      | nil => exact List.nil_prefix
      | cons d piece =>
          obtain ⟨rfl, hrest⟩ := List.cons_prefix_cons.1 hstart
          rw [List.map_cons, List.prefix_cons_inj]
          exact ih (fun hmem => hpiece (List.mem_cons_of_mem d hmem)) hrest
  | blank _ _ =>
      obtain rfl := eq_nil_of_isPrefix (head?_blank _) hpiece hstart
      exact List.nil_prefix
  | hole hblank _ _ =>
      obtain rfl := eq_nil_of_isPrefix hblank hpiece hstart
      exact List.nil_prefix

/-- A piece of the text that has no blank spans no hole. -/
theorem Closes.isInfix {shown : List (Option Char)} {t piece : Text} (h : Closes shown t)
    (hpiece : ' ' ∉ piece) (hpart : piece <:+: t) : piece.map some <:+: shown := by
  induction h with
  | nil =>
      obtain rfl := List.infix_nil.1 hpart
      exact List.infix_rfl
  | kept c htail ih =>
      rcases List.infix_cons_iff.1 hpart with hstart | hpart
      · exact ((Closes.kept c htail).isPrefix hpiece hstart).isInfix
      · exact List.infix_cons (ih hpart)
  | blank htail ih =>
      rcases List.infix_cons_iff.1 hpart with hstart | hpart
      · exact ((Closes.blank htail).isPrefix hpiece hstart).isInfix
      · exact List.infix_cons (ih hpart)
  | hole _ _ ih => exact List.infix_cons (ih hpart)

variable (line start : ℕ)

/-- The block that is open in front of a line that begins inside one or not. -/
def begun (inside : Bool) : Option ℕ := bif inside then some start else none

/-- A mark of two characters does not stand at the start where the text does not match it. -/
theorem not_isPrefix_of_forall {c d e : Char} {t : Text} (h : ∀ r, c = d → t = e :: r → False) :
    ¬[d, e] <+: c :: t := by
  rintro ⟨r, hr⟩
  rw [List.cons_append, List.cons.injEq] at hr
  exact h r hr.1.symm hr.2.symm

/-- The search for comments leaves what is kept of a line, and it ends inside a block where the line
does. Inside a block, nothing is left up to a blank. -/
theorem closes_strip (inside : Bool) (t : Text) :
    Closes (sweep inside t).1 (strip line (begun start inside) t).1 ∧
      (strip line (begun start inside) t).2.isSome = (sweep inside t).2 ∧
      (inside = true → ∀ c ∈ (strip line (begun start inside) t).1.head?, c = ' ') := by
  fun_induction sweep inside t generalizing start with
  | case1 inside =>
      rw [strip_nil]
      exact ⟨.nil, by cases inside <;> rfl, nofun⟩
  | case2 t ih =>
      obtain ⟨htail, hopen, -⟩ := ih start
      rw [begun, cond_true, strip_closing]
      exact ⟨.hole (head?_blank _) (.blank htail), hopen, fun _ => head?_blank _⟩
  | case3 c t hclosing ih =>
      obtain ⟨htail, hopen, hblank⟩ := ih start
      rw [begun, cond_true, strip_block line start (not_isPrefix_of_forall hclosing)]
      exact ⟨.hole (hblank rfl) htail, hopen, hblank⟩
  | case4 t ih =>
      obtain ⟨htail, hopen, hblank⟩ := ih line
      rw [begun, cond_false, strip_opening]
      exact ⟨.hole (hblank rfl) (.hole (hblank rfl) htail), hopen, nofun⟩
  | case5 t =>
      rw [begun, cond_false, strip_slashes]
      exact ⟨.hole nofun (.hole nofun (closes_holes t)), rfl, nofun⟩
  | case6 t =>
      rw [begun, cond_false, strip_sign]
      exact ⟨.hole nofun (closes_holes t), rfl, nofun⟩
  | case7 c t hopening hslashes hsign ih =>
      obtain ⟨htail, hopen, -⟩ := ih start
      rw [begun, cond_false, strip_code line hsign (not_isPrefix_of_forall hslashes)
        (not_isPrefix_of_forall hopening)]
      exact ⟨.kept c htail, hopen, nofun⟩

variable {line} {opened : Option ℕ} {t : Text}

theorem exists_begun (opened : Option ℕ) : ∃ start, begun start opened.isSome = opened := by
  cases opened with
  | none => exact ⟨0, rfl⟩
  | some start => exact ⟨start, rfl⟩

theorem exposes_of_isInfix {piece : Text} (hpiece : ' ' ∉ piece)
    (h : piece <:+: (strip line opened t).1) : Exposes opened.isSome t piece := by
  obtain ⟨start, hstart⟩ := exists_begun opened
  rw [← hstart] at h
  exact (closes_strip line start opened.isSome t).1.isInfix hpiece h

theorem isSome_strip (line : ℕ) (opened : Option ℕ) (t : Text) :
    (strip line opened t).2.isSome = (sweep opened.isSome t).2 := by
  obtain ⟨start, hstart⟩ := exists_begun opened
  have hopen := (closes_strip line start opened.isSome t).2.1
  rwa [hstart] at hopen

end Comment

namespace Document

/-- Whether the line behind the given ones begins inside a block. -/
def inside (lines : List Text) : Bool := lines.foldl (fun b t => (Comment.sweep b t).2) false

theorem inside_concat (lines : List Text) (last : Text) :
    inside (lines ++ [last]) = (Comment.sweep (inside lines) last).2 :=
  List.foldl_concat ..

theorem inside_eq (lines : List Text) : inside lines = (opened lines).isSome := by
  induction lines using List.reverseRecOn with
  | nil => rfl
  | append_singleton lines last ih => rw [inside_concat, ih, opened_concat, Comment.isSome_strip]

/-- The content of a line is what the removal of comments leaves of it. -/
theorem exists_line_of_mem_contents {lines : List Text} {number : ℕ} {content : Text}
    (h : (number, content) ∈ (uncommented lines).contents) : ∃ earlier line later,
      lines = earlier ++ line :: later ∧ number = earlier.length + 1 ∧
        content = (Comment.strip number (opened earlier) line).1 := by
  induction lines using List.reverseRecOn with
  | nil => cases h
  | append_singleton lines last ih =>
      rw [contents_concat] at h
      rcases List.mem_cons.1 h with heq | h
      · cases heq
        exact ⟨lines, last, [], rfl, rfl, rfl⟩
      · obtain ⟨earlier, line, later, rfl, hnumber, hcontent⟩ := ih h
        exact ⟨earlier, line, later ++ [last], by simp, hnumber, hcontent⟩

end Document

end FeatureGuard

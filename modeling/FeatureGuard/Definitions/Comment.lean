import FeatureGuard.Text.Basic

/-!
Comments. Two slashes or a number sign start a comment that ends with the line; a slash and a star
start a block, which ends at the next star and slash and may span lines. A block that ends leaves
one blank behind, so that it separates words.
-/

namespace FeatureGuard.Comment

open Text (cut)

/-- The text up to the first mark that makes the rest of the line a comment. -/
def beforeMark (t : Text) : Text :=
  let beforeSlashes := match cut "//" t with
    | some (before, _) => before
    | none => t
  beforeSlashes.takeWhile (· ≠ '#')

/-- The first block of a text, unless a line comment starts before it: the text in front of the
block, and what follows its opening mark. -/
def block? (t : Text) : Option (Text × Text) :=
  (cut "/*" t).filter fun (before, _) => before.length < (beforeMark t).length

theorem length_of_block? {t before after : Text} (h : block? t = some (before, after)) :
    after.length < t.length := by
  have ht := Text.eq_of_cut (Option.filter_eq_some_iff.1 h).1
  simp [ht]
  omega

theorem length_of_closing {t before after : Text} (h : cut "*/" t = some (before, after)) :
    after.length < t.length := by
  simp [Text.eq_of_cut h]
  omega

/-- Removes the comments from a line. `opened` is the line that the open block started on, if a
block is open at the start; the second result is the same for the end. -/
def strip (line : Nat) (opened : Option Nat) (t : Text) : Text × Option Nat :=
  match opened with
  | some start =>
    match h : cut "*/" t with
    | none => ([], some start)
    | some (_, after) =>
      have := length_of_closing h
      let (rest, final) := strip line none after
      (' ' :: rest, final)
  | none =>
    match h : block? t with
    | none => (beforeMark t, none)
    | some (before, after) =>
      have := length_of_block? h
      let (rest, final) := strip line (some line) after
      (before ++ rest, final)
termination_by t.length

end FeatureGuard.Comment

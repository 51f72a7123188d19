import FeatureGuard.Text.Basic

/-!
How much two texts resemble each other, by Jaro's measure: one for the same text, zero for texts
without anything in common. A character of one text is paired with an equal one of the other that
stands at most a certain distance away. The measure is the mean of three shares: the paired
characters in the one text, those in the other, and among the pairs those that are in order.
-/

namespace FeatureGuard.Text

/-- Marks the first unmarked occurrence of a character, where a number of characters at the start
are passed over and only a number of characters are looked at. -/
def pair (c : Char) : Nat → Nat → List (Char × Bool) → Option (List (Char × Bool))
  | _, 0, _ => none
  | _, _, [] => none
  | passed, looked + 1, (d, marked) :: rest =>
    if passed = 0 && c = d && !marked then some ((d, true) :: rest)
    else (pair c (passed - 1) looked rest).map ((d, marked) :: ·)

/-- Pairs the characters of a text that starts at a position, each with the first one that is left
within a distance. Returns those that were paired, and the marks of the other text. -/
def pairAll (distance : Nat) : Nat → Text → List (Char × Bool) → Text × List (Char × Bool)
  | _, [], other => ([], other)
  | position, c :: rest, other =>
    match pair c (position - distance) (position + distance + 1) other with
    | none => pairAll distance (position + 1) rest other
    | some other =>
      let (paired, other) := pairAll distance (position + 1) rest other
      (c :: paired, other)

/-- The characters of two texts that are paired with each other, each in the order of its text. -/
def paired (t u : Text) : Text × Text :=
  let distance := max t.length u.length / 2 - 1
  let (first, marks) := pairAll distance 0 t (u.map (·, false))
  (first, (marks.filter Prod.snd).map Prod.fst)

/-- How much two texts resemble each other. -/
def resemblance (t u : Text) : Rat :=
  if t = [] && u = [] then 1
  else
    let (first, second) := paired t u
    let count := first.length
    if count = 0 then 0
    else
      let displaced := ((first.zip second).filter fun (c, d) => c ≠ d).length
      ((count : Rat) / t.length + (count : Rat) / u.length +
        ((count - displaced / 2 : Nat) : Rat) / count) / 3

/-- The candidate whose name resembles a text the most, and by more than seven tenths; of several
the last one. -/
def nearest? {Candidate : Type} (name : Candidate → Text) (t : Text)
    (candidates : List Candidate) : Option Candidate :=
  let better := fun (best : Option (Rat × Candidate)) (c : Candidate) =>
    let r := resemblance t (name c)
    if r ≤ 7 / 10 then best
    else
      match best with
      | none => some (r, c)
      | some (q, b) => if q ≤ r then some (r, c) else some (q, b)
  (candidates.foldl better none).map Prod.snd

end FeatureGuard.Text

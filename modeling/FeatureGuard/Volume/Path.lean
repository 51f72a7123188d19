import FeatureGuard.Text.Basic

/-!
Paths as texts. A slash separates the components of a path. Empty components and single dots count
for nothing, except that a dot at the very start is a component.
-/

namespace FeatureGuard

abbrev Path := Text

namespace Path

/-- The pieces between the slashes of a path: the first one, and the others without those at the
end that count for nothing. -/
def pieces (p : Path) : Text × List Text :=
  let idle := fun (piece : Text) => piece = [] || piece = "."
  match p.splitOnP (· == '/') with
  | [] => ([], [])
  | first :: rest => (first, (rest.reverse.dropWhile idle).reverse)

/-- The last component, unless the path ends at the root or has none. -/
def last? (p : Path) : Option Text :=
  match pieces p with
  | (first, []) => if first = [] then none else some first
  | (_, rest) => rest.getLast?

/-- The path without its last component. -/
def parent? (p : Path) : Option Path :=
  match pieces p with
  | (first, []) => if first = [] then none else some []
  | (first, rest) =>
    let (_, kept) := pieces (Text.join "/" (first :: rest.dropLast))
    some (if first = [] && kept = [] then "/" else Text.join "/" (first :: kept))

/-- The last component, where it is a name. -/
def fileName? (p : Path) : Option Text := (last? p).filter fun t => t ≠ "." ∧ t ≠ ".."

/-- Appends a path; one that starts at the root takes the place of what was there. -/
def push (p : Path) (name : Path) : Path :=
  if name.head? = some '/' then name
  else if p = [] || p.getLast? = some '/' then p ++ name else p ++ "/" ++ name

/-- Puts a name in the place of the file name; a path without one gets it as a further component. -/
def withFileName (p : Path) (name : Text) : Path :=
  match fileName? p, parent? p with
  | some _, some parent => push parent name
  | _, _ => push p name

/-- What follows the last dot of the file name, unless the name starts with its only dot. -/
def extension? (p : Path) : Option Text :=
  (fileName? p).bind fun name =>
    let after := (name.reverse.takeWhile (· ≠ '.')).reverse
    if after.length + 1 < name.length then some after else none

/-- The components as they are shown when a path is put together from them. -/
def normalized (p : Path) : Path :=
  let (first, rest) := pieces p
  let kept := rest.filter fun piece => piece ≠ [] && piece ≠ "."
  match first, kept with
  | ['.'], _ :: _ => Text.join "/" kept
  | [], _ => if p.head? = some '/' then '/' :: Text.join "/" kept else []
  | _, _ => Text.join "/" (first :: kept)

end Path

end FeatureGuard

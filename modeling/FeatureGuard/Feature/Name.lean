import FeatureGuard.Repetition
import FeatureGuard.Text.Basic

/-!
Feature names. A name is a preprocessor switch: an upper-case ASCII letter or an underscore,
followed by any number of upper-case ASCII letters, digits and underscores. Names are ordered
character by character, which for ASCII is the order of their bytes.
-/

namespace FeatureGuard

namespace Name

def isInitial (c : Char) : Bool := c.isUpper || c == '_'

def isLater (c : Char) : Bool := isInitial c || c.isDigit

/-- Whether a text has the form of a feature name. -/
def hasForm : Text → Bool
  | [] => false
  | c :: r => isInitial c && r.all isLater

end Name

/-- A text that has the form of a feature name. -/
structure Name where
  text : Text
  form : Name.hasForm text = true
  deriving DecidableEq

namespace Name

/-- The name that a text spells, if it has the form of one. -/
def ofText? (t : Text) : Option Name :=
  if h : hasForm t = true then some ⟨t, h⟩ else none

theorem ofText?_text (n : Name) : ofText? n.text = some n := by
  simp [ofText?, n.form]

theorem text_of_ofText? {t : Text} {n : Name} (h : ofText? t = some n) : n.text = t := by
  simp only [ofText?] at h
  split at h
  · cases h
    rfl
  · cases h

instance : Ord Name := ⟨fun a b => compare a.text b.text⟩

instance : Std.TransOrd Name := inferInstanceAs (Std.TransCmp (compareOn Name.text))

instance : Std.LawfulEqOrd Name where
  eq_of_compare {a b} h := by
    have ht : a.text = b.text := Std.LawfulEqCmp.eq_of_compare h
    cases a
    cases b
    cases ht
    rfl

/-- The names of a list without repetitions, in the order of their first occurrence. -/
def distinct (names : List Name) : List Name := (Sifted.ofList compare names).first

end Name

end FeatureGuard

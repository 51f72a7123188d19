import FeatureGuard.Definitions.SyntaxError
import FeatureGuard.Feature.Name

/-!
The tokens of a condition. A word is a run of ASCII letters, digits and underscores, as long as
possible: a feature name or one of the operators `and`, `or` and `not`. The other tokens are the
symbols for the same operators and the parentheses. Blank characters separate tokens.
-/

namespace FeatureGuard

inductive Token
  | name (n : Name)
  | and
  | or
  | not
  | opening
  | closing
  deriving DecidableEq

namespace Token

/-- How a token is shown to the user. -/
def text : Token → Text
  | name n => n.text
  | and => "&&"
  | or => "||"
  | not => "!"
  | opening => "("
  | closing => ")"

/-- How the preprocessor reads a token. -/
def rendered : Token → Text
  | name n => "defined(" ++ n.text ++ ")"
  | token => token.text

def name? : Token → Option Name
  | name n => some n
  | _ => none

def isWordChar (c : Char) : Bool := c.isAlphanum || c == '_'

/-- The token that a word spells. -/
def ofWord? (word : Text) : Option Token :=
  if word = "and" then some and
  else if word = "or" then some or
  else if word = "not" then some not
  else (Name.ofText? word).map name

/-- The symbol at the start of a text, and what follows it. -/
def symbol? : Text → Option (Token × Text)
  | '(' :: r => some (opening, r)
  | ')' :: r => some (closing, r)
  | '!' :: r => some (not, r)
  | '&' :: '&' :: r => some (and, r)
  | '|' :: '|' :: r => some (or, r)
  | _ => none

theorem length_of_symbol? {t r : Text} {token : Token} (h : symbol? t = some (token, r)) :
    r.length < t.length := by
  unfold symbol? at h
  split at h <;> simp only [Option.some.injEq, Prod.mk.injEq, reduceCtorEq] at h
  all_goals
    obtain ⟨-, rfl⟩ := h
    simp only [List.length_cons]
    omega

/-- Splits a text into tokens, from left to right up to the first piece that is no token. -/
def scan : Text → Except Flaw (List Token)
  | [] => .ok []
  | c :: r =>
    if Text.isBlank c then scan r
    else if isWordChar c then
      let word := c :: r.takeWhile isWordChar
      match ofWord? word with
      | some token => do return token :: (← scan (r.dropWhile isWordChar))
      | none => .error ⟨.invalidName, word⟩
    else
      match h : symbol? (c :: r) with
      | some (token, rest) =>
        have := length_of_symbol? h
        do return token :: (← scan rest)
      | none => .error ⟨.unexpectedToken, [c]⟩
termination_by t => t.length
decreasing_by
  · simp
  · exact Nat.lt_succ_of_le (List.dropWhile_sublist _).length_le
  · simpa using this

end Token

end FeatureGuard

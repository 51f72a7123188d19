import FeatureGuard.Condition.Token
import FeatureGuard.Feature.Rules

/-!
Reading a condition. Its tokens have to alternate between operands and operators: an operand is a
name or a parenthesised condition behind any number of negations, and every opening parenthesis is
closed. The condition is kept in two spellings, the one of the text with single blanks and the one
of the preprocessor, together with the names that occur in it.
-/

namespace FeatureGuard

namespace Token

/-- Checks that a condition goes on as it has to. The flag says whether an operand is due, the
number how many parentheses are open. -/
def checkShape : Bool → Nat → List Token → Except Flaw Unit
  | true, _, [] => .error ⟨.expectedOperand, endOfLine⟩
  | true, depth, token :: rest =>
    match token with
    | .name _ => checkShape false depth rest
    | .not => checkShape true depth rest
    | .opening => checkShape true (depth + 1) rest
    | _ => .error ⟨.expectedOperand, token.text⟩
  | false, 0, [] => .ok ()
  | false, _ + 1, [] => .error ⟨.unbalancedParenthesis, "("⟩
  | false, depth, token :: rest =>
    match token, depth with
    | .and, _ => checkShape true depth rest
    | .or, _ => checkShape true depth rest
    | .closing, 0 => .error ⟨.unbalancedParenthesis, ")"⟩
    | .closing, outer + 1 => checkShape false outer rest
    | _, _ => .error ⟨.expectedOperator, token.text⟩

/-- Whether a blank stands between two neighbouring tokens of the rendered text. -/
def spaced (left right : Token) : Bool :=
  left ≠ .opening && left ≠ .not && right ≠ .closing

/-- The text of tokens as the preprocessor reads it. -/
def render : List Token → Text
  | [] => []
  | [token] => token.rendered
  | left :: right :: rest =>
    left.rendered ++ (if spaced left right then " " else "") ++ render (right :: rest)

/-- The names that occur in tokens, each once, in the order of their first occurrence. -/
def names (tokens : List Token) : List Name := Name.distinct (tokens.filterMap name?)

end Token

namespace Condition

/-- The text with its words separated by single blanks. -/
def normalized (t : Text) : Text := Text.join " " (Text.words t)

def ofText (t : Text) : Except Flaw Condition := do
  let tokens ← Token.scan t
  if tokens = [] then .error ⟨.expectedExpression, endOfLine⟩
  else
    Token.checkShape true 0 tokens
    return {
      human := normalized t
      rendered := Token.render tokens
      references := Token.names tokens }

end Condition

end FeatureGuard

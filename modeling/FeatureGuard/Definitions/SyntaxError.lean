import FeatureGuard.Text.Numeral

/-!
What can be wrong with a definitions text. A flaw names the piece of text that it was found at; a
syntax error is a flaw on a line of a document. The messages are the ones that users read.
-/

namespace FeatureGuard

inductive Reason
  | invalidName
  | unexpectedToken
  | expectedName
  | expectedExpression
  | expectedOperand
  | expectedOperator
  | unbalancedParenthesis
  | unterminatedComment
  deriving DecidableEq, Repr

/-- A flaw in one line of text, at the piece of text that shows it. -/
structure Flaw where
  reason : Reason
  token : Text
  deriving DecidableEq

structure SyntaxError where
  line : Nat
  reason : Reason
  token : Text
  deriving DecidableEq

/-- The token of a flaw that lies behind the last word of a line. -/
def endOfLine : Text := "end of line"

namespace Reason

def message : Reason → Text
  | invalidName => "invalid feature name"
  | unexpectedToken => "unexpected token"
  | expectedName => "expected a feature name"
  | expectedExpression => "expected an expression"
  | expectedOperand => "expected an operand"
  | expectedOperator => "expected an operator"
  | unbalancedParenthesis => "unbalanced parenthesis"
  | unterminatedComment => "unterminated block comment"

end Reason

def Flaw.onLine (flaw : Flaw) (line : Nat) : SyntaxError :=
  { line, reason := flaw.reason, token := flaw.token }

namespace SyntaxError

def message (e : SyntaxError) : Text :=
  "line " ++ Text.ofNat e.line ++ ": " ++ e.reason.message ++ " at `" ++ e.token ++ "`"

/-- All syntax errors of a document, one to a line. -/
def summary (errors : List SyntaxError) : Text :=
  Text.ofNat errors.length ++ " syntax error(s) in feature definitions:" ++
    errors.flatMap fun e => ("\n  " : Text) ++ e.message

end SyntaxError

end FeatureGuard

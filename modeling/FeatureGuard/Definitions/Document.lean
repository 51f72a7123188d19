import FeatureGuard.Definitions.Comment
import FeatureGuard.Definitions.Statement

/-!
Definitions documents. A document is read line by line: comments are removed, lines without content
are skipped, and every other line is read as one statement. All flaws are reported, at most one for
a line, and after them a block comment that no line closes.
-/

namespace FeatureGuard.Document

/-- How far the comments of a document have been removed. -/
structure Progress where
  /-- the number of the next line -/
  line : Nat := 1
  /-- the line on which the block comment began that is still open -/
  opened : Option Nat := none
  /-- the numbered contents of the lines so far, the last line first -/
  contents : List (Nat × Text) := []

def Progress.advance (p : Progress) (t : Text) : Progress :=
  let (content, opened) := Comment.strip p.line p.opened t
  { line := p.line + 1, opened, contents := (p.line, content) :: p.contents }

/-- Removes the comments from all lines of a document. -/
def uncomment (t : Text) : Progress := (Text.lines t).foldl Progress.advance {}

/-- Reads the content of a line; a blank line says nothing. -/
def readLine : Nat × Text → Option (Except SyntaxError RuleSet)
  | (line, content) =>
    match Text.trim content with
    | [] => none
    | t => some <| match Statement.ofText t with
      | .ok statement => .ok (statement.rules line)
      | .error flaw => .error (flaw.onLine line)

def rules? : Except SyntaxError RuleSet → Option RuleSet
  | .ok rules => some rules
  | .error _ => none

def error? : Except SyntaxError RuleSet → Option SyntaxError
  | .ok _ => none
  | .error e => some e

/-- The error of a document that ends inside a block comment. -/
def unterminated (line : Nat) : SyntaxError :=
  { line, reason := .unterminatedComment, token := "/*" }

/-- Reads the rules of a document, or every syntax error in it. -/
def read (t : Text) : Except (List SyntaxError) RuleSet :=
  let progress := uncomment t
  let results := progress.contents.reverse.filterMap readLine
  match results.filterMap error? ++ progress.opened.toList.map unterminated with
  | [] => .ok ((results.filterMap rules?).foldr (· ++ ·) {})
  | errors => .error errors

end FeatureGuard.Document

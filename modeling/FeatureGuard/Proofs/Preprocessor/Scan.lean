import FeatureGuard.Proofs.Preprocessor.Line
import FeatureGuard.Proofs.Preprocessor.Pass

/-!
One pass of the preprocessor over the lines of a file. Conditionals nest; the lines of a branch count
where its condition is the first of its conditional that holds, and the conditional itself stands
where lines count. The pass ends without a result where it does not understand a line that counts,
or where the conditionals are not balanced.
-/

namespace FeatureGuard

namespace Preprocessor

/-- How far a conditional is: no condition has held so far, the last one is the first that holds, or
no line counts any more. -/
inductive Branch
  | waiting
  | taken
  | closed
  deriving DecidableEq

def Branch.ofBool (holds : Bool) : Branch := if holds then taken else waiting

structure Scan where
  macros : Macros
  /-- the conditionals that are open, the innermost first -/
  branches : List Branch := []
  warnings : List Text := []
  errors : List Text := []
  /-- the lines that are left to the compiler -/
  code : List Text := []

namespace Scan

/-- Whether the next line counts. -/
def counts (o : Scan) : Bool := o.branches.head?.all (· = .taken)

/-- Enters a conditional. -/
def enter (o : Scan) (branch : Branch) : Scan := { o with branches := branch :: o.branches }

/-- Evaluates a condition. -/
def evaluate (o : Scan) (condition : Text) : Option Branch :=
  (readCondition condition).map fun f => .ofBool (f.Holds (· ∈ o.macros))

/-- Goes through a line that counts and does not belong to a conditional. -/
def perform (files : Files) (o : Scan) : Line → Option Scan
  | .define name => some { o with macros := o.macros.define name }
  | .undef name => some { o with macros := o.macros.undefine name }
  | .inclusion path => some { o with macros := (files path).foldl ConfigLine.run o.macros }
  | .warning message => some { o with warnings := o.warnings ++ [message] }
  | .error message => some { o with errors := o.errors ++ [message] }
  | .code text => some { o with code := o.code ++ [text] }
  | _ => none

/-- Goes through a line. -/
def step (files : Files) (o : Scan) : Line → Option Scan
  | .ifHolds condition => if o.counts then (o.evaluate condition).map o.enter else o.enter .closed
  | .ifdef name => o.enter (if o.counts then .ofBool (name ∈ o.macros) else .closed)
  | .ifndef name => o.enter (if o.counts then .ofBool (name ∉ o.macros) else .closed)
  | .elifHolds condition =>
    match o.branches with
    | [] => none
    | .waiting :: outer =>
      (o.evaluate condition).map fun branch => { o with branches := branch :: outer }
    | _ :: outer => some { o with branches := .closed :: outer }
  | .endif =>
    match o.branches with
    | [] => none
    | _ :: outer => some { o with branches := outer }
  | line => if o.counts then o.perform files line else o

/-- Goes through lines from top to bottom. -/
def run (files : Files) (o : Scan) (lines : List Line) : Option Scan :=
  lines.foldlM (step files) o

end Scan

/-- Goes once through the text of a file, given the macros that are defined before. -/
def scanText (files : Files) (start : Macros) (t : Text) : Option Scan :=
  (readLines t).bind fun lines =>
    (Scan.run files { macros := start } lines).filter (·.branches.isEmpty)

/-- The name that a line of the table holds: it stands in double quotes, and a comma follows. -/
def entry? : Text → Option Text
  | '"' :: rest =>
    if ("\"," : Text) <:+ rest then some (rest.take (rest.length - 2)) else none
  | _ => none

theorem entry?_append (name : Text) : entry? ("\"" ++ name ++ "\",") = some name := by
  have hsuffix : ("\"," : Text) <:+ name ++ ("\"," : Text) := List.suffix_append _ _
  have htake : (name ++ ("\"," : Text)).take ((name ++ ("\"," : Text)).length - 2) = name := by
    have hlength : (name ++ ("\"," : Text)).length - 2 = name.length := by
      rw [List.length_append]
      exact Nat.add_sub_cancel _ 2
    rw [hlength, List.take_left]
  have hentry : entry? ("\"" ++ name ++ "\",") =
      if ("\"," : Text) <:+ name ++ ("\"," : Text) then
        some ((name ++ ("\"," : Text)).take ((name ++ ("\"," : Text)).length - 2)) else none := rfl
  rw [hentry, if_pos hsuffix, htake]

end Preprocessor

end FeatureGuard

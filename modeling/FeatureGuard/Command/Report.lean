import FeatureGuard.Artifact.Compile
import FeatureGuard.Log.Event
import FeatureGuard.Time.Stamp

/-!
What a run reports to its log: how many rules were read, which implications were left out, what
settling them came to, and where the time stamp comes from.
-/

namespace FeatureGuard.Report

open Log

/-- A field that counts. -/
def count {Thing : Type} (key : Text) (things : List Thing) : Text × Text :=
  (key, Text.ofNat things.length)

def rulesRead (r : RuleSet) : Event :=
  { level := .debug
    target := "featurec::parser"
    message := "Parsed feature definitions"
    fields := [count "declarations" r.declarations, count "implications" r.implications,
      count "derivations" r.derivations, count "requirements" r.requirements] }

def settlingTarget : Text := "featurec::engine"

def implicationLeftOut (i : Implication) : Event :=
  { level := .warn
    target := settlingTarget
    message := i.repeatedMessage
    fields := [("line", Text.ofNat i.line)] }

def rulesSettled (s : Settlement) : Event :=
  { level := .info
    target := settlingTarget
    message := "Validated feature definitions"
    fields := [count "externals" s.externals, count "basics" s.basics, count "derived" s.derived,
      count "implications" s.implications] }

def rulesRefused (violations : List Violation) : Event :=
  { level := .debug
    target := settlingTarget
    message := "Feature definitions failed validation"
    fields := [count "count" violations] }

/-- What is reported of settling rules. -/
def settling : Except (List Violation) Settlement → List Event
  | .ok s => s.repeated.map implicationLeftOut ++ [rulesSettled s]
  | .error violations => [rulesRefused violations]

def stampResolved (policy : StampPolicy) (pinned : Bool) : Event :=
  { level := .debug
    target := "featurec::services::provenance"
    message := "Resolved banner timestamp"
    fields := [("policy", policy.text), ("pinned", if pinned then "true" else "false")] }

end FeatureGuard.Report

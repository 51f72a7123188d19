import FeatureGuard.Failure

/-!
Why a log cannot be set up. As for other failures, a context says what was being done, and a newer
one takes the place of an older one.
-/

namespace FeatureGuard.Log

/-- What the failure comes from. -/
inductive FailureKind
  /-- the log file cannot be opened -/
  | appender
  /-- a log was set up before -/
  | subscriber
  | internal
  /-- the settings do not make sense -/
  | configuration
  deriving DecidableEq

structure Failure where
  kind : FailureKind
  detail : Text
  context : Option Text := none
  /-- what the failure goes back to, the last cause at the end -/
  causes : List Text := []
  deriving DecidableEq

def FailureKind.text : FailureKind → Text
  | appender => "Log file appender error"
  | subscriber => "Tracing subscriber error"
  | internal => "Internal logger error"
  | configuration => "Invalid logger configuration"

def Failure.message (f : Failure) : Text :=
  f.kind.text ++ contextText f.context ++ ": " ++ f.detail

/-- Says what was being done. -/
def Failure.withContext (context : Text) (f : Failure) : Failure := { f with context }

end FeatureGuard.Log

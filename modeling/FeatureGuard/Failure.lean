import FeatureGuard.Artifact.Compile

/-!
Why the generation of files can fail. A failure of the system or of the generator itself can be
given a context, which says what was being done; a newer context takes the place of an older one.
-/

namespace FeatureGuard

inductive Failure
  | rejected (rejection : Rejection)
  /-- the system refused what was asked of it -/
  | system (context : Option Text) (cause : Text)
  /-- the generator could not do its own work -/
  | internal (context : Option Text) (detail : Text)
  deriving DecidableEq

/-- A context as it stands in a message. -/
def contextText : Option Text → Text
  | none => []
  | some context => " (" ++ context ++ ")"

namespace Failure

def message : Failure → Text
  | rejected rejection => rejection.message
  | system context cause => "I/O error" ++ contextText context ++ ": " ++ cause
  | internal context detail => "Internal generator error" ++ contextText context ++ ": " ++ detail

/-- What the failure goes back to, as far as the system has words of its own for it. -/
def causes : Failure → List Text
  | system _ cause => [cause]
  | _ => []

/-- Says what was being done. What is wrong with definitions is clear without it. -/
def withContext (context : Text) : Failure → Failure
  | rejected rejection => rejected rejection
  | system _ cause => system context cause
  | internal _ detail => internal context detail

/-- The failure to lay out generated text. -/
def unformatted : Failure := internal none "failed to format generated text"

end Failure

end FeatureGuard

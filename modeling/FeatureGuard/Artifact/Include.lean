import FeatureGuard.Text.Basic

/-!
Targets of include lines. A path in angle brackets is a system include; any other path is one that
the user owns, and stands in double quotes, which are optional where it is read.
-/

namespace FeatureGuard

structure IncludePath where
  path : Text
  system : Bool
  deriving DecidableEq

namespace IncludePath

/-- Reads a target, apart from the blanks around it. -/
def ofText (t : Text) : IncludePath :=
  let t := Text.trim t
  let own : IncludePath := ⟨Text.dropEndWhile (· = '"') (t.dropWhile (· = '"')), false⟩
  match t with
  | '<' :: rest => if rest.getLast? = some '>' then ⟨rest.dropLast, true⟩ else own
  | _ => own

/-- The target as it stands on an include line. -/
def text (p : IncludePath) : Text :=
  if p.system then "<" ++ p.path ++ ">" else "\"" ++ p.path ++ "\""

end IncludePath

end FeatureGuard

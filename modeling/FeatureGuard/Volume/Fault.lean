import FeatureGuard.Text.Numeral

/-!
Faults: what the system answers when it refuses an operation on files.
-/

namespace FeatureGuard

inductive Fault
  | notFound
  | busy
  | alreadyExists
  | notDirectory
  | isDirectory
  | invalidArgument
  | nameTooLong
  | notEmpty
  /-- a path that holds a null character names nothing -/
  | nullInPath
  /-- the contents are not a text -/
  | notText
  /-- any other fault, with the words of the system -/
  | other (words : Text)
  deriving DecidableEq

namespace Fault

/-- A fault of the system, with its number. -/
def numbered (words : String) (number : Nat) : Text :=
  words ++ " (os error " ++ Text.ofNat number ++ ")"

def message : Fault → Text
  | notFound => numbered "No such file or directory" 2
  | busy => numbered "Device or resource busy" 16
  | alreadyExists => numbered "File exists" 17
  | notDirectory => numbered "Not a directory" 20
  | isDirectory => numbered "Is a directory" 21
  | invalidArgument => numbered "Invalid argument" 22
  | nameTooLong => numbered "File name too long" 36
  | notEmpty => numbered "Directory not empty" 39
  | nullInPath => "file name contained an unexpected NUL byte"
  | notText => "stream did not contain valid UTF-8"
  | other words => words

end Fault

end FeatureGuard

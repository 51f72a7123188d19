import FeatureGuard.Time.Stamp

/-!
Rotation of log files. A program that rotates its log starts a new file with every new minute, hour
or day, and the name of the file tells which.
-/

namespace FeatureGuard

/-- How often a new log file is started. -/
inductive Rotation
  | never
  | minutely
  | hourly
  | daily
  deriving DecidableEq, Repr

namespace Rotation

def text : Rotation → Text
  | never => "never"
  | minutely => "minutely"
  | hourly => "hourly"
  | daily => "daily"

def all : List Rotation := [never, minutely, hourly, daily]

/-- The parts of a time stamp that tell one file from the next: year, month, day, hour and minute,
as far as they are needed. -/
def parts (i : Instant) : Rotation → List Text
  | never => []
  | rotation =>
    let date := Date.ofDay (i.seconds / 86400)
    let second := (i.seconds % 86400).toNat
    let all := [Text.padded 4 date.year.toNat, Text.padded 2 date.month, Text.padded 2 date.day,
      Text.padded 2 (second / 3600), Text.padded 2 (second / 60 % 60)]
    match rotation with
    | daily => all.take 3
    | hourly => all.take 4
    | _ => all

/-- The name of the log file that is started at an instant. -/
def fileName (rotation : Rotation) (name : Text) (i : Instant) : Text :=
  match rotation.parts i with
  | [] => name ++ ".log"
  | parts => name ++ "." ++ Text.join "-" parts ++ ".log"

end Rotation

end FeatureGuard

import FeatureGuard.Text.Numeral
import FeatureGuard.Time.Calendar

/-!
Time stamps. An instant is written as in `Sun Oct 18 09:05:00 2026`, in universal time. A policy
says which instant stands in a stamp: the time of day, unless the environment pins one, the pinned
one only, or none.
-/

namespace FeatureGuard

/-- A point in time, in seconds since the start of 1970. -/
structure Instant where
  seconds : Int
  deriving DecidableEq, Repr

namespace Instant

/-- The start of the year -262143. -/
def earliest : Int := -8334601228800

/-- The last second of the year 262142. -/
def latest : Int := 8210266876799

def weekdays : List Text := ["Sun", "Mon", "Tue", "Wed", "Thu", "Fri", "Sat"].map String.toList

def months : List Text :=
  ["Jan", "Feb", "Mar", "Apr", "May", "Jun", "Jul", "Aug", "Sep", "Oct", "Nov", "Dec"].map
    String.toList

/-- A year of at least four digits. Its sign is written where it is negative and where there are
more digits. -/
def yearText : Int → Text
  | .ofNat year => if year < 10000 then Text.padded 4 year else '+' :: Text.ofNat year
  | .negSucc year => '-' :: Text.padded 4 (year + 1)

/-- The day of a month, with a blank in front of a single digit. -/
def dayText (day : Nat) : Text := if day < 10 then ' ' :: Text.ofNat day else Text.ofNat day

def clockText (second : Nat) : Text :=
  Text.padded 2 (second / 3600) ++ ":" ++ Text.padded 2 (second / 60 % 60) ++ ":" ++
    Text.padded 2 (second % 60)

/-- The stamp of an instant. -/
def stamp (i : Instant) : Text :=
  let day := i.seconds / 86400
  let date := Date.ofDay day
  weekdays.getD ((day + 4) % 7).toNat [] ++ " " ++ months.getD (date.month - 1) [] ++ " " ++
    dayText date.day ++ " " ++ clockText (i.seconds % 86400).toNat ++ " " ++ yearText date.year

/-- The instant that a text pins: an integer number of seconds, within the years that a stamp can
show. -/
def ofText? (t : Text) : Option Instant :=
  ((Text.int64? (Text.trim t)).filter fun s => earliest ≤ s && s ≤ latest).map Instant.mk

end Instant

/-- Which instant a stamp shows. -/
inductive StampPolicy
  | now
  | pinned
  | absent
  deriving DecidableEq, Repr

namespace StampPolicy

def text : StampPolicy → Text
  | now => "now"
  | pinned => "source-date-epoch"
  | absent => "omit"

/-- All policies. -/
def all : List StampPolicy := [now, pinned, absent]

/-- The instant to show, given the time of day and the text that may pin an instant. -/
def resolve (clock : Instant) (pin : Option Text) : StampPolicy → Option Instant
  | now => some ((pin.bind Instant.ofText?).getD clock)
  | pinned => pin.bind Instant.ofText?
  | absent => none

end StampPolicy

end FeatureGuard

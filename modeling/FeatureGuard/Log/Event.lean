import FeatureGuard.Text.Numeral

/-!
Log events. An event has a level, a target, which says what part of the program it comes from, a
message, and further fields. Levels are ordered by how much a log shows that goes down to them.
-/

namespace FeatureGuard.Log

inductive Level
  | error
  | warn
  | info
  | debug
  | trace
  deriving DecidableEq, Repr

structure Event where
  level : Level
  target : Text
  message : Text
  fields : List (Text × Text) := []
  deriving DecidableEq

namespace Level

def all : List Level := [error, warn, info, debug, trace]

def name : Level → Text
  | error => "error"
  | warn => "warn"
  | info => "info"
  | debug => "debug"
  | trace => "trace"

/-- How a level stands in a log. -/
def label (level : Level) : Text := level.name.map Char.toUpper

/-- The place of a level among all, from one on. -/
def rank : Level → Nat
  | error => 1
  | warn => 2
  | info => 3
  | debug => 4
  | trace => 5

end Level

namespace Event

/-- A field as it stands behind the message. -/
def fieldText : Text × Text → Text
  | (key, value) => " " ++ key ++ "=" ++ value

/-- The line of an event in a log. -/
def line (e : Event) : Text :=
  e.level.label ++ " " ++ e.target ++ ": " ++ e.message ++ e.fields.flatMap fieldText

end Event

end FeatureGuard.Log

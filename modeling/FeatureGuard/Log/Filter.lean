import FeatureGuard.Log.Event
import FeatureGuard.Text.Alphanumeric

/-!
Log filters. A filter is a list of directives: each sets the level down to which events are shown,
either of all targets or of those that start with a given text. Of the directives that apply to an
event, the one with the longest target decides, and of those with the same target the last.
-/

namespace FeatureGuard.Log

structure Directive where
  /-- how the targets start that the directive is about -/
  target : Option Text
  /-- the lowest level that is shown, unless nothing is -/
  level : Option Level
  deriving DecidableEq

abbrev Filter := List Directive

/-- What can be wrong with a directive. -/
inductive FilterError
  | level
  | directive
  deriving DecidableEq

def FilterError.message : FilterError → Text
  | level =>
    "error parsing level filter: expected one of \"off\", \"error\", \"warn\", \"info\", " ++
      "\"debug\", \"trace\", or a number 0-5"
  | directive => "invalid filter directive"

namespace Directive

/-- The level that a text names, by a number from zero to five or by a word in any case. No text at
all stands for the first level. -/
def level? (t : Text) : Option (Option Level) :=
  let numbered := (Text.word64? t).bind fun n =>
    if n = 0 then some none else (Level.all[n - 1]?).map some
  let word := t.map Char.toLower
  let named :=
    if word = [] then some (some Level.error)
    else if word = "off" then some none
    else (Level.all.find? (·.name = word)).map some
  numbered.or named

/-- A directive for a level or else, down to the lowest level, for a target. -/
def ofWord (t : Text) : Directive :=
  match level? t with
  | some level => ⟨none, level⟩
  | none => ⟨some t, some .trace⟩

/-- The characters that a directive may start with. -/
def isInitial (c : Char) : Bool := Text.isAlphanumeric c || c == '-' || c == ':' || c == '_'

/-- Reads a level, a target, or a target and a level with an equals sign between them. No level is
the lowest one. Blanks around a directive do not count where its parts are found, but stay in the
text that the parts are cut from. -/
def ofText (t : Text) : Except FilterError Directive :=
  let inner := Text.trim t
  if !(inner.head?.any isInitial) || inner.contains '[' then .error .directive
  else if !inner.contains '=' then .ok (ofWord t)
  else
    let length := (inner.takeWhile (· ≠ '=')).length
    let level := t.drop (length + 1)
    match if level = [] then some (some .trace) else level? level with
    | some level => .ok ⟨some (t.take length), level⟩
    | none => .error .level

end Directive

namespace Filter

/-- Reads directives with commas between them. -/
def ofText (t : Text) : Except FilterError Filter :=
  (Text.fields (· == ',') t).mapM Directive.ofText

/-- Whether a directive is about a target. -/
def appliesTo (target : Text) (d : Directive) : Bool :=
  d.target.all (List.isPrefixOf · target)

/-- How closely a directive says what it is about. -/
def closeness (d : Directive) : Nat := (d.target.map (List.length · + 1)).getD 0

/-- The directive that decides about a target. -/
def deciding? (f : Filter) (target : Text) : Option Directive :=
  (f.filter (appliesTo target)).foldl
    (fun best d => match best with
      | none => some d
      | some b => if closeness b ≤ closeness d then some d else some b)
    none

/-- Whether a filter shows an event. -/
def shows (f : Filter) (e : Event) : Bool :=
  match (deciding? f e.target).bind Directive.level with
  | none => false
  | some level => e.level.rank ≤ level.rank

end Filter

/-- Where the events of a program go: those that the filter shows are written to the console, if
that is wanted, and to a file, if there is one. -/
structure Sink where
  filter : Filter
  console : Bool
  file : Option Text
  deriving DecidableEq

/-- The lines of the events that a sink takes. -/
def Sink.lines (s : Sink) (events : List Event) : Text :=
  (events.filter s.filter.shows).flatMap fun e => e.line ++ ['\n']

end FeatureGuard.Log

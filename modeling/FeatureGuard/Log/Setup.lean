import FeatureGuard.Host
import FeatureGuard.Log.Failure
import FeatureGuard.Log.Rotation

/-!
Setting up the log of a program: which events it shows, and where they go. The environment can set
the filter; it takes precedence over what the program asks for.
-/

namespace FeatureGuard.Log

structure Setup where
  /-- the name of the program, which log files bear -/
  name : Text
  /-- the lowest level that is shown where there are no directives, unless nothing is -/
  level : Option Level := some .warn
  directives : Option Text := none
  console : Bool := true
  directory : Option Path := none
  rotation : Rotation := .never
  maxFiles : Nat := 5
  deriving DecidableEq

namespace Setup

/-- The environment variable that holds directives. -/
def environmentVariable : Text := "FEATUREC_LOG"

def invalid (detail : Text) : Failure := { kind := .configuration, detail }

/-- What is wrong with the settings that cannot be right in any environment. -/
def fault? (s : Setup) : Option Failure :=
  if Text.trim s.name = [] then some (invalid "Logger name cannot be empty")
  else if s.maxFiles = 0 then some (invalid "max_files must be greater than zero")
  else none

/-- The directives that count, and where they come from. Blank directives in the environment count
as none. -/
def chosen (s : Setup) (fromEnvironment : Option Text) : Option Text × Text :=
  match (fromEnvironment.map Text.trim).filter (· ≠ []) with
  | some directives => (some directives, environmentVariable)
  | none => (s.directives, "log.level")

/-- The filter. Without any directive it shows events down to the level that was set. -/
def filter (s : Setup) (fromEnvironment : Option Text) : Except Failure Filter :=
  let (directives, source) := s.chosen fromEnvironment
  match Filter.ofText (directives.getD []) with
  | .ok [] => .ok [⟨none, s.level⟩]
  | .ok filter => .ok filter
  | .error e =>
    .error ((invalid ("Invalid filter '" ++ directives.getD [] ++ "': " ++ e.message)).withContext
      source)

variable {m : Type → Type} [Monad m] [Host m]

/-- A failure of the system while a log file is opened. -/
def openFailure (what : Text) (fault : Fault) : Failure :=
  let detail := what ++ ": " ++ fault.message
  { kind := .appender, detail, causes := [detail, fault.message] }

/-- Opens a log file. Where that fails, it is tried again with the directory above it created. -/
def openFile (p : Path) : m (Except Failure Unit) := do
  match ← Host.touch p with
  | .ok () => return .ok ()
  | .error fault =>
    let failed := openFailure "failed to create log file"
    match Path.parent? p with
    | none => return .error (failed fault)
    | some parent =>
      match ← Host.makePath parent with
      | .error fault => return .error (openFailure "failed to create log directory" fault)
      | .ok () => return (← Host.touch p).mapError failed

/-- The log file, if there is one. It is opened, and its directory created. -/
def openLog (s : Setup) : m (Except Failure (Option Path)) := do
  match s.directory with
  | none => return .ok none
  | some directory =>
    match ← Host.makePath directory with
    | .error fault =>
      return .error (Failure.withContext ("Failed to create log directory: " ++ directory)
        { kind := .internal, detail := fault.message })
    | .ok () =>
      let path := Path.push directory (s.rotation.fileName s.name (← Host.clock))
      return (← openFile path).map fun _ => some path

/-- Sets up the log. -/
def install (s : Setup) : m (Except Failure Unit) := do
  if let some failure := s.fault? then return .error failure
  match s.filter (← Host.environmentValue? environmentVariable) with
  | .error failure => return .error failure
  | .ok filter =>
    match ← s.openLog with
    | .error failure => return .error failure
    | .ok file =>
      if !s.console && file.isNone then
        return .error
          (invalid "No logging output enabled. Enable the console or set a log directory.")
      if ← Host.setSink { filter, console := s.console, file } then return .ok ()
      else
        return .error
          { kind := .subscriber
            detail := "a global default trace dispatcher has already been set" }

end Setup

end FeatureGuard.Log

import FeatureGuard.Command.Reply
import FeatureGuard.Command.Report
import FeatureGuard.Log.Setup
import FeatureGuard.Settings.Load
import FeatureGuard.Staging

/-!
A run of the program: the settings are loaded and the log is set up, the definitions are read and
settled, and both files are written, or neither. The same run works on any host.
-/

namespace FeatureGuard.Command

/-- Why a run fails. -/
inductive Trouble
  | settings (failure : Settings.LoadFailure)
  | log (failure : Log.Failure)
  /-- the definitions cannot be read -/
  | reading (path : Path) (fault : Fault)
  | generation (failure : Failure)
  deriving DecidableEq

namespace Trouble

def message : Trouble → Text
  | settings failure => failure.message
  | log failure => failure.message
  | reading path _ => "Failed to read " ++ path
  | generation failure => failure.message

/-- What the trouble goes back to, the last cause at the end. -/
def causes : Trouble → List Text
  | settings failure => [failure.cause]
  | log failure => failure.causes
  | reading _ fault => [fault.message]
  | generation failure => failure.causes

/-- Moves all lines of a text but the first to the right. -/
def indented (indent t : Text) : Text :=
  t.flatMap fun c => if c = '\n' then '\n' :: indent else [c]

/-- A cause with its number. -/
def numbered (cause : Text) (n : Nat) : Text :=
  '\n' :: List.leftpad 5 ' ' (Text.ofNat n) ++ ": " ++ indented "       " cause

/-- What is said of the causes. Where there are several, they are numbered. -/
def causeText : List Text → Text
  | [] => []
  | [cause] => "\n\nCaused by:\n    " ++ indented "    " cause
  | causes => "\n\nCaused by:" ++ (causes.zipIdx.map fun (cause, n) => numbered cause n).flatten

/-- The trouble and its causes. -/
def report (t : Trouble) : Text := "Error: " ++ t.message ++ causeText t.causes ++ ['\n']

end Trouble

/-- The log that settings ask for. Verbosity takes the place of their directives. -/
def logSetup (s : LogSettings) (verbosity : Nat) : Log.Setup :=
  let setup : Log.Setup := { name := program }
  let setup := match verbosity with
    | 0 => { setup with directives := some s.level }
    | 1 => { setup with level := some .info }
    | 2 => { setup with level := some .debug }
    | _ => { setup with level := some .trace }
  match s.directory with
  | none => setup
  | some directory =>
    { setup with directory := some directory, rotation := s.rotation, maxFiles := s.maxFiles }

/-- The environment variable that pins the instant of the time stamp. -/
def pinVariable : Text := "SOURCE_DATE_EPOCH"

/-- How the definitions are called in the files: by their name without the directory. -/
def definitionsName (p : Path) : Text := (Path.fileName? p).getD p

variable {m : Type → Type} [Monad m] [Host m]

def recordAll : List Log.Event → m Unit
  | [] => return
  | e :: rest => do
    Host.record e
    recordAll rest

/-- Reads the text of the definitions. -/
def readText (p : Path) : m (Except Trouble Text) := do
  match ← Host.read p with
  | .error fault => return .error (.reading p fault)
  | .ok bytes =>
    match Text.ofBytes? bytes with
    | some t => return .ok t
    | none => return .error (.reading p .notText)

/-- Reads and settles definitions, and reports it. -/
def settleReported (t : Text) : m (Except Rejection Settlement) := do
  match Document.read t with
  | .error errors => return .error (.malformed errors)
  | .ok rules =>
    Host.record (Report.rulesRead rules)
    let result := rules.settle
    recordAll (Report.settling result)
    return result.mapError .inconsistent

/-- The instant that the time stamp shows. -/
def resolveStamp (policy : StampPolicy) : m (Option Instant) := do
  let pin ← Host.environmentValue? pinVariable
  let clock ← Host.clock
  Host.record (Report.stampResolved policy pin.isSome)
  return policy.resolve clock pin

/-- Stages an output, and tells the user. -/
def stageAloud (o : Output) : m (Except Failure Staged) := do
  Host.say ("Writing " ++ o.path ++ "...\n")
  match ← Staging.stage o with
  | .ok s =>
    Host.say "Done.\n"
    return .ok s
  | .error failure => return .error failure

/-- Generates both files. -/
def generate (i : Invocation) (s : Settings) : m (Except Trouble Unit) := do
  Host.say ("Reading definitions from " ++ i.definitions ++ "...\n")
  match ← readText i.definitions with
  | .error trouble => return .error trouble
  | .ok t =>
    match ← settleReported t with
    | .error rejection => return .error (.generation (.rejected rejection))
    | .ok settlement =>
      Host.say "Done.\n"
      let instant ← resolveStamp s.provenance.timestamp
      let files := (Plan.ofSettlement settlement
        (s.options (definitionsName i.definitions) instant)).render
      let outputs := [⟨i.header, files.header⟩, ⟨i.source, files.source⟩]
      return (← Staging.writeAfter stageAloud [] outputs).mapError .generation

/-- Does what a command line asks for. -/
def invoke (formats : List Settings.Format) (i : Invocation) : m (Except Trouble Unit) := do
  match ← Settings.loadFrom formats i.config with
  | .error failure => return .error (.settings failure)
  | .ok s =>
    match ← (logSetup s.log i.verbosity).install with
    | .error failure => return .error (.log failure)
    | .ok () => generate i s

/-- How a run ends: the code that the program exits with, and what it says about errors. -/
structure Ending where
  code : Nat
  complaint : Text
  deriving DecidableEq

/-- Runs the program, which reads settings in some formats. -/
def runWith (formats : List Settings.Format) (arguments : List Text) : m Ending := do
  match Invocation.ofArguments arguments with
  | .error .help =>
    Host.say helpText
    return ⟨0, []⟩
  | .error .version =>
    Host.say versionText
    return ⟨0, []⟩
  | .error (.misuse m) => return ⟨2, m.message⟩
  | .ok i =>
    match ← invoke formats i with
    | .ok () => return ⟨0, []⟩
    | .error trouble => return ⟨1, trouble.report⟩

def run (arguments : List Text) : m Ending := runWith Settings.Format.builtIn arguments

end FeatureGuard.Command

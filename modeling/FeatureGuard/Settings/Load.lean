import FeatureGuard.Failure
import FeatureGuard.Host
import FeatureGuard.Settings.Basic
import FeatureGuard.Settings.Toml.Document

/-!
Loading settings. A file is laid over the defaults, and the environment over the file. The file is
the one that the user names or else one with the usual name, if there is one; its extension says
which format it has. Which formats there are, and how files in them are read, is left open.
-/

namespace FeatureGuard.Settings

inductive LoadFailure
  /-- the file cannot be used -/
  | source (cause : Text)
  /-- a setting cannot be used -/
  | setting (misfit : Misfit)
  deriving DecidableEq

namespace LoadFailure

def context : LoadFailure → Text
  | source _ => "Failed to build config"
  | setting _ => "Failed to deserialize config"

def cause : LoadFailure → Text
  | source cause => cause
  | setting misfit => misfit.message

def message (f : LoadFailure) : Text :=
  "Config error" ++ contextText (some f.context) ++ ": " ++ f.cause

end LoadFailure

/-! ### Files -/

/-- A format of files. -/
structure Format where
  /-- which extensions the names of such files have -/
  extensions : List Text
  /-- reads the entries of a file -/
  read? : Text → Option (Keyed Tree)

namespace Format

def toml : Format := { extensions := ["toml"], read? := Toml.read? }

def json : Format where
  extensions := ["json"]
  read? t :=
    match Json.read? t with
    | some (.table _ entries) => some entries
    | _ => none

/-- The formats that can be read without further libraries. -/
def builtIn : List Format := [toml, json]

/-- Whether a path has one of the extensions of a format. -/
def fits (p : Path) (format : Format) : Bool :=
  format.extensions.contains ((Path.extension? p).getD [])

end Format

/-- The name of the file that is used where the user names none. -/
def usualFile : Path := "featurec"

/-- The path with an extension behind the file name. -/
def withExtension (p : Path) (extension : Text) : Path :=
  match Path.fileName? p with
  | none => p
  | some name => Path.withFileName p (name ++ "." ++ extension)

/-- The files that a path may stand for, with an extension behind it. -/
def candidates (formats : List Format) (p : Path) : List (Path × Format) :=
  formats.flatMap fun format =>
    format.extensions.map fun extension => (withExtension p extension, format)

variable {m : Type → Type} [Monad m] [Host m]

/-- The first of some paths that is that of a file. -/
def findFile : List (Path × Format) → m (Option (Path × Format))
  | [] => return none
  | candidate :: rest => do
    if ← Host.isFile candidate.1 then return some candidate else findFile rest

/-- The file that a path stands for: the one with exactly that path, or one with an extension behind
it. -/
def find (formats : List Format) (p : Path) : m (Except Text (Path × Format)) := do
  if ← Host.isFile p then
    match formats.find? (Format.fits p) with
    | some format => return .ok (p, format)
    | none =>
      return .error ("configuration file \"" ++ p ++ "\" is not of a registered file format")
  else
    match ← findFile (candidates formats p) with
    | some found => return .ok found
    | none => return .error ("configuration file \"" ++ p ++ "\" not found")

/-- Reads the file that a path stands for. -/
def readFile (formats : List Format) (p : Path) : m (Except Text (Path × Format × Text)) := do
  match ← find formats p with
  | .error cause => return .error cause
  | .ok (found, format) =>
    match ← Host.read found with
    | .error fault => return .error fault.message
    | .ok bytes =>
      return .ok (found, format, Text.dropByteOrderMark (Text.ofBytesLossy bytes))

/-- The entries of a text, marked with the file that they were written in. -/
def fileEntries (found : Path) (format : Format) (t : Text) : Except LoadFailure (Keyed Tree) :=
  match format.read? t with
  | some entries => .ok (Tree.fromEntries (Path.normalized found) entries)
  | none => .error (.source ("syntax error in " ++ Path.normalized found))

/-- The entries of the file that the user names, which has to be there, or of the usual one. -/
def loadFile (formats : List Format) (given : Option Path) :
    m (Except LoadFailure (Keyed Tree)) := do
  match ← readFile formats (given.getD usualFile) with
  | .ok (found, format, t) => return fileEntries found format t
  | .error cause =>
    match given with
    | none => return .ok []
    | some _ => return .error (.source cause)

/-! ### The environment -/

/-- How the names of the variables start that hold settings. -/
def variablePrefix : Text := "featurec__"

/-- A character in lower case, as far as that can make a letter of a key. -/
def lowered (c : Char) : Char := if c = '\u212A' then 'k' else c.toLower

/-- Two underscores stand for the dots of a path. -/
def dotted : Text → Text
  | '_' :: '_' :: rest => '.' :: dotted rest
  | c :: rest => c :: dotted rest
  | [] => []

/-- The key of the setting that a variable holds, if it holds one. -/
def variableKey? (name : Text) : Option Text :=
  let name := name.map lowered
  if variablePrefix.isPrefixOf name then some (dotted (name.drop variablePrefix.length)) else none

/-- The entries that the environment holds. -/
def environmentEntries (environment : Keyed Text) : Keyed Tree :=
  environment.filterMap fun (name, value) =>
    (variableKey? name).map (·, .scalar (some "the environment") (.string value))

/-! ### Both together -/

/-- The settings that the entries of a file and those of the environment give. -/
def ofSources (file environment : Keyed Tree) : Except LoadFailure Settings :=
  (ofTree (((Tree.table none []).layer file).layer environment)).mapError LoadFailure.setting

/-- Loads the settings, from a file in one of some formats. -/
def loadFrom (formats : List Format) (given : Option Path) : m (Except LoadFailure Settings) := do
  match ← loadFile formats given with
  | .error failure => return .error failure
  | .ok entries => return ofSources entries (environmentEntries (← Host.environment))

/-- Loads the settings, from a file in one of the formats that are built in. -/
def load (given : Option Path) : m (Except LoadFailure Settings) := loadFrom Format.builtIn given

end FeatureGuard.Settings

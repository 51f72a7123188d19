import FeatureGuard.Command.Run
import Std.Time.DateTime.Timestamp

/-!
The program. The host is the system that it runs on; the only thing that is kept in memory is where
the log goes.
-/

namespace FeatureGuard

abbrev Machine := ReaderT (IO.Ref (Option Log.Sink)) IO

namespace Machine

/-- The number of an error, which some operations report as a negative one in 32 bits. -/
def errorNumber (code : UInt32) : Nat := if 0x80000000 ≤ code then (-code).toNat else code.toNat

/-- The fault that an error of the system stands for. -/
def faultOfNumber (words : String) (number : Nat) : Fault :=
  match number with
  | 2 => .notFound
  | 16 => .busy
  | 17 => .alreadyExists
  | 20 => .notDirectory
  | 21 => .isDirectory
  | 22 => .invalidArgument
  | 36 => .nameTooLong
  | 39 => .notEmpty
  | _ => .other (Fault.numbered words.capitalize number)

def faultOfError : IO.Error → Fault
  | .alreadyExists _ code words | .invalidArgument _ code words | .permissionDenied _ code words
  | .resourceExhausted _ code words | .inappropriateType _ code words | .noSuchThing _ code words
  | .otherError code words | .resourceBusy code words | .resourceVanished code words
  | .unsupportedOperation code words | .hardwareFault code words
  | .unsatisfiedConstraints code words | .illegalOperation code words | .protocolError code words
  | .timeExpired code words | .interrupted _ code words | .noFileOrDirectory _ code words =>
    faultOfNumber words (errorNumber code)
  | .unexpectedEof => .other "unexpected end of file"
  | .userError words => .other words

/-- Runs an operation on a path; no file has a name with a null character. -/
def attempt {α : Type} (p : Path) (operation : String → IO α) : IO (Except Fault α) := do
  if '\x00' ∈ p then return .error .nullInPath
  try return .ok (← operation (String.ofList p))
  catch e => return .error (faultOfError e)

/-- Whether a path can be opened. -/
def canOpen (p : Path) : IO Bool := do
  return (← attempt p fun name => IO.FS.Handle.mk name .read).isOk

/-- A directory has a dot in it. -/
def isDirectory (p : Path) : IO Bool := canOpen (p ++ "/.")

def isFile (p : Path) : IO Bool := do
  if ← isDirectory p then return false
  canOpen p

/-- Removes a file. -/
def unlink (p : Path) : IO (Except Fault Unit) := do
  if ← isDirectory p then return .error .isDirectory
  attempt p (IO.FS.removeFile ·)

/-- The variables of the environment, which the system lists with a null character behind each. -/
def environment : IO (Keyed Text) := do
  match ← attempt "/proc/self/environ" (IO.FS.readBinFile ·) with
  | .error _ => return []
  | .ok bytes =>
    return ((Text.ofBytesLossy bytes).splitOnP (· == '\x00')).filterMap fun entry =>
      let name := entry.takeWhile (· ≠ '=')
      if name.length < entry.length then some (name, entry.drop (name.length + 1)) else none

def clock : IO Instant := do
  return ⟨(← Std.Time.Timestamp.now).toSecondsSinceUnixEpoch.val⟩

/-- Writes lines to a log file, as far as that is possible. -/
def appendLog (t : Text) (file : Path) : IO Unit := do
  let _ ← attempt file fun name => do
    let handle ← IO.FS.Handle.mk name .append
    handle.putStr (String.ofList t)

def record (sink : Log.Sink) (e : Log.Event) : IO Unit := do
  let t := sink.lines [e]
  if sink.console then IO.eprint (String.ofList t)
  if let some file := sink.file then appendLog t file

instance : Host Machine where
  isFile p := isFile p
  isDirectory p := isDirectory p
  makeDirectory p := attempt p (IO.FS.createDir ·)
  read p := attempt p (IO.FS.readBinFile ·)
  write p contents := attempt p (IO.FS.writeBinFile · contents)
  touch p := attempt p fun name => do
    let _ ← IO.FS.Handle.mk name .append
  rename source destination := do
    if '\x00' ∈ destination then return .error .nullInPath
    attempt source (IO.FS.rename · (String.ofList destination))
  unlink p := unlink p
  environment := environment
  clock := clock
  say t := IO.print (String.ofList t)
  record e := do
    if let some sink ← (← read).get then FeatureGuard.Machine.record sink e
  setSink sink := do
    let current ← read
    if (← current.get).isSome then return false
    current.set (some sink)
    return true

end Machine

end FeatureGuard

open FeatureGuard in
def main (arguments : List String) : IO UInt32 := do
  let sink ← IO.mkRef none
  let ending ← (Command.run (arguments.map String.toList) : Machine Command.Ending) sink
  IO.eprint (String.ofList ending.complaint)
  return ending.code.toUInt32

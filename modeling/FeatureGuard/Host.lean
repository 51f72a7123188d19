import FeatureGuard.Log.Filter
import FeatureGuard.Time.Stamp
import FeatureGuard.Volume.Basic

/-!
Hosts: what a program can ask of the system that it runs on. The program is written once for every
host; a world is the host that is a value, so that a run is a function.
-/

namespace FeatureGuard

class Host (m : Type → Type) where
  isFile : Path → m Bool
  isDirectory : Path → m Bool
  makeDirectory : Path → m (Except Fault Unit)
  read : Path → m (Except Fault ByteArray)
  /-- creates a file, or replaces what is in it -/
  write : Path → ByteArray → m (Except Fault Unit)
  /-- creates a file where there is none, and else leaves it as it is -/
  touch : Path → m (Except Fault Unit)
  rename : Path → Path → m (Except Fault Unit)
  unlink : Path → m (Except Fault Unit)
  environment : m (Keyed Text)
  clock : m Instant
  /-- writes progress for the user -/
  say : Text → m Unit
  /-- hands an event to the log -/
  record : Log.Event → m Unit
  /-- sets up where events go; only the first time counts, and the answer tells -/
  setSink : Log.Sink → m Bool

namespace Host

variable {m : Type → Type} [Monad m] [Host m]

/-- The value of an environment variable. -/
def environmentValue? (name : Text) : m (Option Text) := do return Keyed.get? name (← environment)

/-- Creates a directory whose parent exists, unless it exists already. -/
def ensureDirectory (p : Path) : m (Except Fault Unit) := do
  match ← makeDirectory p with
  | .error .alreadyExists =>
    return if ← isDirectory p then .ok () else .error .alreadyExists
  | answer => return answer

/-- Creates a directory and all directories above it that are missing, at most `fuel` of them. -/
def makeDirectories : Nat → Path → m (Except Fault Unit)
  | 0, _ => return .error .notFound
  | fuel + 1, p => do
    if p = [] then return .ok ()
    match ← ensureDirectory p with
    | .error .notFound =>
      match Path.parent? p with
      | none => return .error .notFound
      | some parent =>
        match ← makeDirectories fuel parent with
        | .error fault => return .error fault
        | .ok () => ensureDirectory p
    | answer => return answer

/-- Creates a directory and all directories above it that are missing. A path has fewer components
than characters, which bounds their number. -/
def makePath (p : Path) : m (Except Fault Unit) := makeDirectories (p.length + 1) p

end Host

/-- How a write breaks off: the file is there already, but the rest of its contents is refused. -/
structure Break where
  /-- how many bytes have been written -/
  written : Nat
  fault : Fault

/-- A system as a value: its files, the environment and the clock, and what a program has told it so
far. -/
structure World where
  volume : Volume
  /-- which of the writes to come break off -/
  breaks : List (Option Break) := []
  environment : Keyed Text := []
  clock : Instant := ⟨0⟩
  /-- what was written for the user -/
  said : Text := []
  /-- the events that were recorded, the last one first -/
  events : List Log.Event := []
  sink : Option Log.Sink := none

namespace World

/-- Asks a question about the files. -/
def ask {α : Type} (question : Volume → α) : StateM World α :=
  fun w => (question w.volume, w)

/-- Changes the files, unless that is refused. -/
def attempt (operation : Volume → Except Fault Volume) : StateM World (Except Fault Unit) :=
  fun w => match operation w.volume with
    | .ok volume => (.ok (), { w with volume })
    | .error fault => (.error fault, w)

/-- Writes a file. Where that breaks off, a file is left that has only a part of the contents. -/
def write (p : Path) (contents : ByteArray) : StateM World (Except Fault Unit) := fun w =>
  let later := { w with breaks := w.breaks.tail }
  match w.breaks.head?.join with
  | none => attempt (·.write p contents) later
  | some b =>
    match w.volume.write p (contents.extract 0 b.written) with
    | .ok volume => (.error b.fault, { later with volume })
    | .error fault => (.error fault, later)

instance : Host (StateM World) where
  isFile p := ask (·.isFile p)
  isDirectory p := ask (·.isDirectory p)
  makeDirectory p := attempt (·.makeDirectory p)
  read p := ask (·.read p)
  write := write
  touch p := attempt (·.append p .empty)
  rename source destination := attempt (·.rename source destination)
  unlink p := attempt (·.unlink p)
  environment w := (w.environment, w)
  clock w := (w.clock, w)
  say t w := ((), { w with said := w.said ++ t })
  record e w := ((), { w with events := e :: w.events })
  setSink s w := match w.sink with
    | none => (true, { w with sink := some s })
    | some _ => (false, w)

/-- The lines that the log shows on the console. -/
def console (w : World) : Text :=
  match w.sink with
  | some sink => if sink.console then sink.lines w.events.reverse else []
  | none => []

/-- The world after the log was written to its file, which happens when a program ends. -/
def flush (w : World) : World :=
  match w.sink with
  | some { file := some file, filter, console } =>
    let lines := Log.Sink.lines { file := some file, filter, console } w.events.reverse
    (attempt (·.append file (Text.toBytes lines)) w).2
  | _ => w

end World

end FeatureGuard

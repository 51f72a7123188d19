import FeatureGuard.Failure
import FeatureGuard.Host

/-!
Staged outputs. Every output is first written as a draft next to the place where it belongs, and the
drafts are moved there only once all of them are written. Where that fails, the drafts that are left
are removed, and so is every output that was already moved.
-/

namespace FeatureGuard

structure Output where
  path : Path
  contents : Text
  deriving DecidableEq

/-- An output that was written as a draft. -/
structure Staged where
  path : Path
  draft : Path
  deriving DecidableEq

namespace Staging

/-- The draft of an output stands beside it, under a longer name. -/
def draftOf (p : Path) : Path := Path.withFileName p ((Path.fileName? p).getD [] ++ ".partial")

/-! ### Events -/

def target : Text := "featurec::output"

def stagedEvent (draft : Path) (contents : Text) : Log.Event :=
  { level := .trace
    target
    message := "Staged artifact"
    fields := [("path", draft), ("bytes", Text.ofNat (Text.byteCount contents))] }

def writtenEvent (p : Path) : Log.Event :=
  { level := .debug, target, message := "Wrote artifact", fields := [("path", p)] }

def leftOverEvent (p : Path) (fault : Fault) : Log.Event :=
  { level := .warn
    target
    message := "Failed to remove partial output"
    fields := [("path", p), ("error", fault.message)] }

/-! ### Steps -/

variable {m : Type → Type} [Monad m] [Host m]

/-- Removes a file, if it is there. -/
def discard (p : Path) : m Unit := do
  match ← Host.unlink p with
  | .ok () => return
  | .error .notFound => return
  | .error fault => Host.record (leftOverEvent p fault)

/-- Removes files one after the other. -/
def discardAll : List Path → m Unit
  | [] => return
  | p :: rest => do
    discard p
    discardAll rest

/-- Says what was being done when the system refused. -/
def failing (context : Text) (fault : Fault) : Failure := .system (some context) fault.message

/-- Creates the directory that an output goes to. -/
def makeRoom (p : Path) : m (Except Failure Unit) := do
  match (Path.parent? p).filter (· ≠ []) with
  | none => return .ok ()
  | some parent =>
    return (← Host.makePath parent).mapError (failing ("Failed to create directory " ++ parent))

/-- Writes the draft of an output. -/
def writeDraft (o : Output) : m (Except Failure Unit) := do
  match ← makeRoom o.path with
  | .error failure => return .error failure
  | .ok () =>
    let draft := draftOf o.path
    match ← Host.write draft (Text.toBytes o.contents) with
    | .error fault => return .error (failing ("Failed to write " ++ draft) fault)
    | .ok () =>
      Host.record (stagedEvent draft o.contents)
      return .ok ()

/-- Stages an output. Nothing of it is left where that fails. -/
def stage (o : Output) : m (Except Failure Staged) := do
  match ← writeDraft o with
  | .ok () => return .ok ⟨o.path, draftOf o.path⟩
  | .error failure =>
    discard (draftOf o.path)
    return .error failure

/-- Gives up staged outputs. -/
def abandon (staged : List Staged) : m Unit := discardAll (staged.map Staged.draft)

/-- Moves drafts into place, after those whose places are given. -/
def commitAfter (done : List Path) : List Staged → m (Except Failure Unit)
  | [] => return .ok ()
  | s :: rest => do
    match ← Host.rename s.draft s.path with
    | .ok () =>
      Host.record (writtenEvent s.path)
      commitAfter (done ++ [s.path]) rest
    | .error fault =>
      discardAll (done ++ (s :: rest).map Staged.draft)
      return .error (failing ("Failed to move " ++ s.path ++ " into place") fault)

/-- Moves all drafts into place, in the order in which they were staged. -/
def commit (staged : List Staged) : m (Except Failure Unit) := commitAfter [] staged

/-- Stages outputs in a given way, after those that are staged already, and moves all into place. -/
def writeAfter (stage : Output → m (Except Failure Staged)) (staged : List Staged) :
    List Output → m (Except Failure Unit)
  | [] => commit staged
  | o :: rest => do
    match ← stage o with
    | .ok s => writeAfter stage (staged ++ [s]) rest
    | .error failure =>
      abandon staged
      return .error failure

/-- Writes all outputs, or none of them. -/
def writeAll (outputs : List Output) : m (Except Failure Unit) := writeAfter stage [] outputs

end Staging

end FeatureGuard

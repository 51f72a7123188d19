import FeatureGuard.Text.Bytes
import FeatureGuard.Volume.Fault
import FeatureGuard.Volume.Node
import FeatureGuard.Volume.Path

/-!
Volumes, and the operations on files as a system without links and permissions performs them. A path
leads from the root or from the working directory through directories that exist; what happens at
its last component is up to the operation.
-/

namespace FeatureGuard

structure Volume where
  root : Node
  /-- the location of the working directory -/
  home : Location

/-- The last component of a path. -/
inductive Last
  | name (name : Text)
  /-- the directory that the path has led to: the root, or a dot -/
  | here
  | up
  deriving DecidableEq

/-- Where a path leads: to an entry of a directory that exists. -/
structure Target where
  directory : Location
  last : Last
  /-- whether a slash follows the last component, which is to be a directory then -/
  slash : Bool
  deriving DecidableEq

namespace Volume

/-! ### Finding what a path names -/

/-- The longest name and the longest path, in bytes. -/
def longestName : Nat := 255

def longestPath : Nat := 4095

/-- The entry of the directory at a location. -/
def lookup (v : Volume) (directory : Location) (name : Text) : Except Fault Node :=
  match v.root.at? directory with
  | some (.directory entries) =>
    if longestName < Text.byteCount name then .error .nameTooLong
    else match Keyed.get? name entries with
      | some node => .ok node
      | none => .error .notFound
  | _ => .error .notDirectory

def isDirectoryAt (v : Volume) (location : Location) : Bool :=
  match v.root.at? location with
  | some node => node.isDirectory
  | none => false

/-- Follows one component. -/
def step (v : Volume) (location : Location) (component : Text) : Except Fault Location :=
  if !v.isDirectoryAt location then .error .notDirectory
  else if component = "." then .ok location
  else if component = ".." then .ok location.dropLast
  else (v.lookup location component).map fun _ => location ++ [component]

/-- Where a path leads. All components but the last are followed. -/
def target (v : Volume) (p : Path) : Except Fault Target := do
  if p.contains (Char.ofNat 0) then .error .nullInPath
  else if p = [] then .error .notFound
  else if longestPath < Text.byteCount p then .error .nameTooLong
  else
    let start := if p.head? = some '/' then [] else v.home
    let components := Text.fields (· == '/') p
    let directory ← components.dropLast.foldlM v.step start
    if !v.isDirectoryAt directory then .error .notDirectory
    else
      let last := match components.getLast? with
        | none => .here
        | some component =>
          if component = "." then .here else if component = ".." then .up else .name component
      return { directory, last, slash := p.getLast? = some '/' }

/-- The node that a path names. -/
def node (v : Volume) (p : Path) : Except Fault Node := do
  let t ← v.target p
  let node ← match t.last with
    | .name name => v.lookup t.directory name
    | .here => .ok ((v.root.at? t.directory).getD default)
    | .up => .ok ((v.root.at? t.directory.dropLast).getD default)
  if t.slash && !node.isDirectory then .error .notDirectory else .ok node

def isFile (v : Volume) (p : Path) : Bool :=
  match v.node p with
  | .ok node => !node.isDirectory
  | .error _ => false

def isDirectory (v : Volume) (p : Path) : Bool :=
  match v.node p with
  | .ok node => node.isDirectory
  | .error _ => false

/-! ### Operations -/

/-- The contents of a file. -/
def read (v : Volume) (p : Path) : Except Fault ByteArray := do
  match ← v.node p with
  | .file contents => return contents
  | .directory _ => .error .isDirectory

/-- Puts an entry into a directory. -/
def put (v : Volume) (directory : Location) (name : Text) (node : Node) : Volume :=
  { v with root := v.root.put directory name node }

def makeDirectory (v : Volume) (p : Path) : Except Fault Volume := do
  let t ← v.target p
  match t.last with
  | .name name =>
    match v.lookup t.directory name with
    | .error .notFound => return v.put t.directory name (.directory [])
    | .error fault => .error fault
    | .ok _ => .error .alreadyExists
  | _ => .error .alreadyExists

/-- Opens a file to write it, which creates it where there is none, and changes its contents. -/
def change (v : Volume) (p : Path) (f : ByteArray → ByteArray) : Except Fault Volume := do
  let t ← v.target p
  match t.last, t.slash with
  | .name name, false =>
    match v.lookup t.directory name with
    | .error .notFound => return v.put t.directory name (.file (f .empty))
    | .error fault => .error fault
    | .ok (.file contents) => return v.put t.directory name (.file (f contents))
    | .ok (.directory _) => .error .isDirectory
  | _, _ => .error .isDirectory

def write (v : Volume) (p : Path) (contents : ByteArray) : Except Fault Volume :=
  v.change p fun _ => contents

def append (v : Volume) (p : Path) (contents : ByteArray) : Except Fault Volume :=
  v.change p (· ++ contents)

/-- Removes a file. -/
def unlink (v : Volume) (p : Path) : Except Fault Volume := do
  let t ← v.target p
  match t.last with
  | .name name =>
    match ← v.lookup t.directory name with
    | .directory _ => .error .isDirectory
    | .file _ =>
      if t.slash then .error .notDirectory
      else return { v with root := v.root.remove t.directory name }
  | _ => .error .isDirectory

/-- Removes what a path names, a directory with all that is in it. -/
def clear (v : Volume) (p : Path) : Except Fault Volume := do
  let t ← v.target p
  match t.last with
  | .name name =>
    let _ ← v.lookup t.directory name
    return { v with root := v.root.remove t.directory name }
  | _ => .error .busy

/-- Whether a node may take the place of another one: a file that of a file, and a directory that of
an empty directory. -/
def replaceable : Node → Node → Except Fault Unit
  | .file _, .file _ => .ok ()
  | .file _, .directory _ => .error .isDirectory
  | .directory _, .file _ => .error .notDirectory
  | .directory _, .directory entries => if entries.isEmpty then .ok () else .error .notEmpty

/-- Moves a file or a directory to another place. -/
def rename (v : Volume) (source destination : Path) : Except Fault Volume := do
  let old ← v.target source
  let new ← v.target destination
  match old.last, new.last with
  | .name oldName, .name newName =>
    let node ← v.lookup old.directory oldName
    let there ← match v.lookup new.directory newName with
      | .ok node => pure (some node)
      | .error .notFound => pure none
      | .error fault => .error fault
    let oldPlace := old.directory ++ [oldName]
    let newPlace := new.directory ++ [newName]
    if !node.isDirectory && (old.slash || new.slash) then .error .notDirectory
    else if oldPlace.isPrefixOf new.directory then .error .invalidArgument
    else if newPlace.isPrefixOf old.directory then .error .notEmpty
    else if oldPlace = newPlace then return v
    else
      if let some other := there then replaceable node other
      let root := (v.root.remove old.directory oldName).put new.directory newName node
      return { v with root }
  | _, _ => .error .busy

end Volume

end FeatureGuard

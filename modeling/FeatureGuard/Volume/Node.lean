import FeatureGuard.Keyed

/-!
File trees. A node is a file with its contents or a directory with its entries. A location is the
list of names on the way from the root of a tree to one of its nodes.
-/

namespace FeatureGuard

inductive Node
  | file (contents : ByteArray)
  | directory (entries : List (Text × Node))
  deriving Inhabited

abbrev Location := List Text

namespace Node

def isDirectory : Node → Bool
  | directory _ => true
  | file _ => false

/-- The entry of a directory with a given name. -/
def entry? (name : Text) : Node → Option Node
  | directory entries => Keyed.get? name entries
  | file _ => none

/-- The node at a location. -/
def at? : Location → Node → Option Node
  | [], node => some node
  | name :: rest, node => (node.entry? name).bind (at? rest)

/-- Changes the entries of a directory. -/
def mapEntries (f : Keyed Node → Keyed Node) : Node → Node
  | directory entries => directory (f entries)
  | file contents => file contents

/-- Changes the node at a location, if there is one. -/
def modify (f : Node → Node) : Location → Node → Node
  | [], node => f node
  | name :: rest, node =>
    match node.entry? name with
    | none => node
    | some child => node.mapEntries (Keyed.set name (modify f rest child))

/-- Puts a node into the directory at a location, in the place of an entry with the same name. -/
def put (node : Node) (directory : Location) (name : Text) (child : Node) : Node :=
  node.modify (mapEntries (Keyed.set name child)) directory

/-- Removes an entry from the directory at a location. -/
def remove (node : Node) (directory : Location) (name : Text) : Node :=
  node.modify (mapEntries (Keyed.erase name)) directory

end Node

end FeatureGuard

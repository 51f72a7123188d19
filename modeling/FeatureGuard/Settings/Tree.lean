import FeatureGuard.Decimal.Shortest
import FeatureGuard.Keyed

/-!
Setting trees: what a configuration file or the environment says, before anyone has asked for a
particular setting. A value knows where it was written, its origin, unless it came about when
sources were laid over each other.
-/

namespace FeatureGuard

inductive Scalar
  | null
  | boolean (b : Bool)
  | integer (n : Int)
  | float (f : Binary64)
  | string (t : Text)
  deriving DecidableEq

inductive Tree
  | scalar (origin : Option Text) (value : Scalar)
  | array (origin : Option Text) (items : List Tree)
  | table (origin : Option Text) (entries : List (Text × Tree))
  deriving Inhabited

/-! ### Paths to a value -/

/-- A step from a value into it: to the entry of a table, or to an item of an array, where numbers
below zero count from the end. -/
inductive Step
  | key (name : Text)
  | index (i : Int)
  deriving DecidableEq

/-- A key of a source is a path, which starts with the key of a table. -/
structure KeyPath where
  root : Text
  steps : List Step
  deriving DecidableEq

namespace KeyPath

/-- The characters of keys on a path. -/
def isKeyChar (c : Char) : Bool := c.isAlphanum || c == '_' || c == '-'

/-- The key at the start of a text, and what follows it. -/
def key? (t : Text) : Option (Text × Text) :=
  match t.takeWhile isKeyChar with
  | [] => none
  | key => some (key, t.dropWhile isKeyChar)

/-- The index at the start of a text with the bracket behind it, and what follows. There may be blanks
on both sides of the index. -/
def index? (t : Text) : Option (Int × Text) :=
  let isBlank := fun c => c == ' ' || c == '\t'
  let inner := t.takeWhile (· ≠ ']')
  let digits := Text.dropEndWhile isBlank (inner.dropWhile isBlank)
  if digits.head? = some '+' then none
  else match Text.int64? digits, t.drop inner.length with
    | some i, ']' :: rest => some (i, rest)
    | _, _ => none

theorem length_of_key? {t key rest : Text} (h : key? t = some (key, rest)) :
    rest.length ≤ t.length := by
  unfold key? at h
  split at h
  · cases h
  · cases h
    exact (List.dropWhile_sublist _).length_le

theorem length_of_index? {t rest : Text} {i : Int} (h : index? t = some (i, rest)) :
    rest.length ≤ t.length := by
  unfold index? at h
  simp only at h
  split at h
  · cases h
  · split at h
    · rename_i hdrop
      cases h
      have := congrArg List.length hdrop
      simp at this
      omega
    · cases h

/-- The steps that a text spells: a dot before each key, and brackets around each index. -/
def steps? : Text → Option (List Step)
  | [] => some []
  | '.' :: t =>
    match h : key? t with
    | none => none
    | some (key, rest) =>
      have := length_of_key? h
      (steps? rest).map (.key key :: ·)
  | '[' :: t =>
    match h : index? t with
    | none => none
    | some (i, rest) =>
      have := length_of_index? h
      (steps? rest).map (.index i :: ·)
  | _ => none
termination_by t => t.length

/-- The path that a text spells. A text that is none is the name of a single key. -/
def ofText (t : Text) : KeyPath :=
  match key? t with
  | none => ⟨t, []⟩
  | some (root, rest) =>
    match steps? rest with
    | none => ⟨t, []⟩
    | some steps => ⟨root, steps⟩

end KeyPath

namespace Tree

/-! ### Laying trees over each other -/

/-- The entries of a table. Anything else gives way to a table. -/
def entries : Tree → Keyed Tree
  | table _ entries => entries
  | _ => []

/-- The items of an array. Anything else gives way to an array. -/
def items : Tree → List Tree
  | array _ items => items
  | _ => []

def origin : Tree → Option Text
  | scalar origin _ => origin
  | array origin _ => origin
  | table origin _ => origin

/-- A table that takes the place of a value; it is the same one if it was a table before. -/
def withEntries (entries : Keyed Tree) : Tree → Tree
  | table origin _ => table origin entries
  | _ => table none entries

/-- An array that takes the place of a value. -/
def withItems (items : List Tree) : Tree → Tree
  | array origin _ => array origin items
  | _ => array none items

def null : Tree := scalar none .null

/-- Changes the item at an index of an array, which is made longer where the index lies outside. -/
def mapItem (f : Tree → Tree) (i : Int) (items : List Tree) : List Tree :=
  let n := items.length
  if 0 ≤ i then
    let padded := items ++ List.replicate (i.toNat + 1 - n) null
    padded.modify i.toNat f
  else
    let fromEnd := (-i).toNat
    let padded := List.replicate (fromEnd - n) null ++ items
    padded.modify (padded.length - fromEnd) f

/-- Changes the entry of a table, or makes one from nothing. -/
def mapEntry (f : Option Tree → Tree) (key : Text) (t : Tree) : Tree :=
  t.withEntries (Keyed.set key (f (Keyed.get? key t.entries)) t.entries)

/-- Changes the value that steps lead to; what stands in their way is replaced. -/
def mapAt (f : Option Tree → Tree) : List Step → Option Tree → Tree
  | [], t => f t
  | .key name :: rest, t => (t.getD null).mapEntry (mapAt f rest) name
  | .index i :: rest, t =>
    let t := t.getD null
    t.withItems (mapItem (fun item => mapAt f rest (some item)) i t.items)

mutual

/-- Lays a value over another one: a table entry by entry, anything else as it is. A table that did
not stand there before is a new one, without an origin. -/
def covering : Tree → Option Tree → Tree
  | table _ entries, below =>
    match below with
    | some (.table origin kept) => .table origin (coveringEntries entries kept)
    | _ => .table none (coveringEntries entries [])
  | value, _ => value

/-- Lays entries over those of a table. -/
def coveringEntries : List (Text × Tree) → Keyed Tree → Keyed Tree
  | [], below => below
  | (key, value) :: rest, below =>
    coveringEntries rest (Keyed.set key (covering value (Keyed.get? key below)) below)

end

/-- Lays a value over what a path leads to. -/
def set (t : Tree) (path : KeyPath) (value : Tree) : Tree :=
  mapEntry (mapAt (covering value) path.steps) path.root t

/-- Lays a source over a tree; each key of the source is a path. -/
def layer (source : Keyed Tree) (t : Tree) : Tree :=
  source.foldl (fun t (key, value) => t.set (.ofText key) value) t

/-! ### Origins -/

mutual

/-- Marks where a value and all that is in it was written. -/
def writtenIn (origin : Text) : Tree → Tree
  | scalar _ value => scalar (some origin) value
  | array _ items => array (some origin) (fromItems origin items)
  | table _ entries => table (some origin) (fromEntries origin entries)

def fromItems (origin : Text) : List Tree → List Tree
  | [] => []
  | item :: rest => item.writtenIn origin :: fromItems origin rest

def fromEntries (origin : Text) : List (Text × Tree) → List (Text × Tree)
  | [] => []
  | (key, value) :: rest => (key, value.writtenIn origin) :: fromEntries origin rest

end

end Tree

end FeatureGuard

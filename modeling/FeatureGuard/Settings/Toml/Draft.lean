import FeatureGuard.Settings.Tree

/-!
The tables of a TOML document while it is read. A table comes into being under a header, as part of
a dotted key, or because a header of a table within it was read first; what may be added to it later
depends on that. A value that was written as such, an inline table too, is complete.
-/

namespace FeatureGuard.Toml

/-- How a table came into being. -/
inductive Standing
  /-- only headers of tables within it were read -/
  | implied
  | headed
  | dotted
  deriving DecidableEq

inductive Draft
  | value (value : Tree)
  | table (standing : Standing) (entries : List (Text × Draft))
  /-- an array of tables under headers with double brackets, the last table first -/
  | tables (last : List (Text × Draft)) (earlier : List (List (Text × Draft)))

namespace Draft

/-- Changes the table that keys lead to, through tables that exist or are implied. -/
def within (change : Keyed Draft → Option (Keyed Draft)) :
    List Text → Keyed Draft → Option (Keyed Draft)
  | [], entries => change entries
  | key :: rest, entries =>
    match Keyed.get? key entries with
    | none =>
      (within change rest []).map fun inner => Keyed.set key (.table .implied inner) entries
    | some (.table standing inner) =>
      (within change rest inner).map fun inner => Keyed.set key (.table standing inner) entries
    | some (.tables last earlier) =>
      (within change rest last).map fun last => Keyed.set key (.tables last earlier) entries
    | some (.value _) => none

/-- Starts the table of a header. -/
def openTable (key : Text) (entries : Keyed Draft) : Option (Keyed Draft) :=
  match Keyed.get? key entries with
  | none => some (Keyed.set key (.table .headed []) entries)
  | some (.table .implied inner) => some (Keyed.set key (.table .headed inner) entries)
  | _ => none

/-- Starts the next table of an array of tables. -/
def openNext (key : Text) (entries : Keyed Draft) : Option (Keyed Draft) :=
  match Keyed.get? key entries with
  | none => some (Keyed.set key (.tables [] []) entries)
  | some (.tables last earlier) => some (Keyed.set key (.tables [] (last :: earlier)) entries)
  | _ => none

/-- Assigns a value to a dotted key. The flag says whether the table that it is added to came into
being through this or another dotted key, or is the one that keys are read for. -/
def assign (value : Tree) : Bool → List Text → Keyed Draft → Option (Keyed Draft)
  | _, [], _ => none
  | own, [key], entries =>
    if own && (Keyed.get? key entries).isNone then some (Keyed.set key (.value value) entries)
    else none
  | _, key :: rest, entries =>
    match Keyed.get? key entries with
    | none =>
      (assign value true rest []).map fun inner => Keyed.set key (.table .dotted inner) entries
    | some (.table .dotted inner) =>
      (assign value true rest inner).map fun inner => Keyed.set key (.table .dotted inner) entries
    | some (.table .implied inner) =>
      (assign value false rest inner).map fun inner => Keyed.set key (.table .implied inner) entries
    | _ => none

mutual

/-- The value of a table or array of tables that is complete. -/
def finish : Draft → Tree
  | value t => t
  | table _ entries => .table none (finishEntries entries)
  | tables last earlier => .array none (finishTables earlier [.table none (finishEntries last)])

def finishEntries : List (Text × Draft) → List (Text × Tree)
  | [] => []
  | (key, d) :: rest => (key, finish d) :: finishEntries rest

def finishTables : List (List (Text × Draft)) → List Tree → List Tree
  | [], later => later
  | entries :: earlier, later => finishTables earlier (.table none (finishEntries entries) :: later)

end

end Draft

end FeatureGuard.Toml

import Mathlib.Data.List.Basic
import Mathlib.Logic.Function.Basic
import FeatureGuard.Volume.Node

/-!
The shape of a file tree: where it has files, with their contents, and where it has directories. Two
trees of the same shape cannot be told apart by looking at locations, and an entry that is put into a
directory or removed from it changes the shape at one place, as long as nothing is below it.
-/

namespace FeatureGuard

/-- What stands at a location. -/
inductive Shape
  | file (contents : ByteArray)
  | directory

namespace Node

def shape : Node → Shape
  | file contents => .file contents
  | directory _ => .directory

/-- What stands at a location of a tree, if anything does. -/
def shape? (root : Node) (location : Location) : Option Shape := (root.at? location).map shape

variable {root child : Node} {directory location : Location} {name : Text}

theorem shape?_cons {entries : List (Text × Node)} (location : Location) :
    (Node.directory entries).shape? (name :: location) =
      (Keyed.get? name entries).bind (·.shape? location) := by
  rw [shape?, at?, entry?]
  cases Keyed.get? name entries <;> rfl

theorem shape?_file (contents : ByteArray) (h : location ≠ []) :
    (Node.file contents).shape? location = none := by
  obtain ⟨name, rest, rfl⟩ := List.exists_cons_of_ne_nil h
  rfl

theorem at?_append (first second : Location) :
    root.at? (first ++ second) = (root.at? first).bind (at? second) := by
  induction first generalizing root with
  | nil => rfl
  | cons name first ih =>
      rw [List.cons_append, at?, at?, Option.bind_assoc]
      congr 1
      funext child
      exact ih

theorem shape?_eq_directory_iff :
    root.shape? location = some .directory ↔
      ∃ entries, root.at? location = some (.directory entries) := by
  rw [shape?]
  cases root.at? location with
  | none => simp
  | some node => cases node <;> simp [shape]

theorem shape?_eq_file_iff {contents : ByteArray} :
    root.shape? location = some (.file contents) ↔
      root.at? location = some (.file contents) := by
  rw [shape?]
  cases root.at? location with
  | none => simp
  | some node => cases node <;> simp [shape]

/-- Nothing stands below a file, or where nothing is. -/
theorem shape?_append (h : root.shape? location ≠ some .directory) {rest : Location}
    (hrest : rest ≠ []) : root.shape? (location ++ rest) = none := by
  rw [shape?, at?_append]
  cases hat : root.at? location with
  | none => rfl
  | some node =>
      cases node with
      | file contents => exact shape?_file contents hrest
      | directory entries => exact absurd (shape?_eq_directory_iff.2 ⟨entries, hat⟩) h

/-! ### Changing one entry of a directory -/

/-- A change of the entries of a directory that concerns one name only. -/
structure Updates (change : Keyed Node → Keyed Node) (name : Text) (new : Option Node) : Prop where
  new : ∀ entries, Keyed.get? name (change entries) = new
  other : ∀ entries key, key ≠ name → Keyed.get? key (change entries) = Keyed.get? key entries

theorem updates_set (name : Text) (child : Node) :
    Updates (Keyed.set name child) name (some child) where
  new entries := by rw [Keyed.get?_set, if_pos rfl]
  other entries key h := by rw [Keyed.get?_set, if_neg (Ne.symm h)]

theorem updates_erase (name : Text) : Updates (Keyed.erase name) name none where
  new entries := by rw [Keyed.get?_erase, if_pos rfl]
  other entries key h := by rw [Keyed.get?_erase, if_neg (Ne.symm h)]

variable {change : Keyed Node → Keyed Node} {new : Option Node}

theorem shape?_mapEntries (h : Updates change name new) (entries : Keyed Node)
    (location : Location) :
    (Node.directory (change entries)).shape? location =
      if [name] <+: location then new.bind (·.shape? (location.drop 1))
      else (Node.directory entries).shape? location := by
  cases location with
  | nil => rfl
  | cons key rest =>
      rw [shape?_cons, shape?_cons]
      by_cases hkey : key = name
      · have hprefix : [name] <+: name :: rest := List.prefix_append [name] rest
        rw [hkey, if_pos hprefix, h.new, List.drop_one, List.tail_cons]
      · have hprefix : ¬[name] <+: key :: rest := by
          rw [List.cons_prefix_cons, not_and]
          exact fun heq => absurd heq.symm hkey
        rw [if_neg hprefix, h.other entries key hkey]

/-- Where a change of one entry of a directory shows. -/
theorem shape?_modify (h : Updates change name new)
    (hdirectory : root.shape? directory = some .directory) (location : Location) :
    (root.modify (mapEntries change) directory).shape? location =
      if directory ++ [name] <+: location then
        new.bind (·.shape? (location.drop (directory.length + 1)))
      else root.shape? location := by
  -- the way to the directory leads through one entry after the other, each of which is set anew
  induction directory generalizing root location with
  | nil =>
      cases root with
      | file contents => cases hdirectory
      | directory entries => exact shape?_mapEntries h entries location
  | cons step directory ih =>
      cases root with
      | file contents => cases hdirectory
      | directory entries =>
          rw [shape?_cons] at hdirectory
          obtain ⟨child, hchild, hdirectory⟩ := Option.bind_eq_some_iff.1 hdirectory
          have hmodify : (Node.directory entries).modify (mapEntries change) (step :: directory) =
              .directory (Keyed.set step (child.modify (mapEntries change) directory) entries) := by
            rw [modify, entry?, hchild]
            rfl
          rw [hmodify, shape?_mapEntries (updates_set step _)]
          cases location with
          | nil => rfl
          | cons key rest =>
              rw [List.cons_append]
              simp only [List.cons_prefix_cons, List.nil_prefix, and_true, List.length_cons,
                List.drop_succ_cons, List.drop_zero, Option.bind_some]
              by_cases hkey : step = key
              · rw [if_pos hkey, ih hdirectory, ← hkey, shape?_cons, hchild]
                simp
              · rw [if_neg hkey, if_neg fun hand => hkey hand.1]

/-- Where nothing is below the entry, before and after, only its own place changes. -/
theorem shape?_modify_eq_update (h : Updates change name new)
    (hdirectory : root.shape? directory = some .directory)
    (hbefore : root.shape? (directory ++ [name]) ≠ some .directory)
    (hafter : ∀ node ∈ new, ∀ rest, rest ≠ [] → node.shape? rest = none) :
    (root.modify (mapEntries change) directory).shape? =
      Function.update root.shape? (directory ++ [name]) (new.map shape) := by
  funext location
  rw [shape?_modify h hdirectory]
  split
  · rename_i hprefix
    obtain ⟨rest, rfl⟩ := hprefix
    have hlength : (directory ++ [name]).length = directory.length + 1 := by simp
    rw [← hlength, List.drop_left]
    by_cases hrest : rest = []
    · rw [hrest, List.append_nil, Function.update_self]
      cases new with
      | none => rfl
      | some node => rfl
    · have hne : directory ++ [name] ++ rest ≠ directory ++ [name] := by simpa using hrest
      rw [Function.update_of_ne hne, shape?_append hbefore hrest]
      cases new with
      | none => rfl
      | some node => exact hafter node rfl rest hrest
  · rename_i hprefix
    rw [Function.update_of_ne]
    rintro rfl
    exact hprefix List.prefix_rfl

theorem shape?_put_file {contents : ByteArray}
    (hdirectory : root.shape? directory = some .directory)
    (hbefore : root.shape? (directory ++ [name]) ≠ some .directory) :
    (root.put directory name (.file contents)).shape? =
      Function.update root.shape? (directory ++ [name]) (some (.file contents)) := by
  refine shape?_modify_eq_update (updates_set name _) hdirectory hbefore ?_
  rintro node ⟨rfl⟩ rest hrest
  exact shape?_file contents hrest

theorem shape?_put_directory (hdirectory : root.shape? directory = some .directory)
    (hbefore : root.shape? (directory ++ [name]) ≠ some .directory) :
    (root.put directory name (.directory [])).shape? =
      Function.update root.shape? (directory ++ [name]) (some .directory) := by
  refine shape?_modify_eq_update (updates_set name _) hdirectory hbefore ?_
  rintro node ⟨rfl⟩ rest hrest
  obtain ⟨key, rest, rfl⟩ := List.exists_cons_of_ne_nil hrest
  rfl

theorem shape?_remove (hdirectory : root.shape? directory = some .directory)
    (hbefore : root.shape? (directory ++ [name]) ≠ some .directory) :
    (root.remove directory name).shape? =
      Function.update root.shape? (directory ++ [name]) none :=
  shape?_modify_eq_update (updates_erase name) hdirectory hbefore fun _ h => by cases h

end Node

end FeatureGuard

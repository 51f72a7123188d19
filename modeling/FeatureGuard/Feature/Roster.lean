import Std.Data.TreeMap
import FeatureGuard.Feature.Name

/-!
Rosters. A roster numbers distinct names in their order, so that a name can be found from its
number and a number from its name.
-/

namespace FeatureGuard

/-- Distinct names, numbered from zero on. -/
structure Roster where
  names : Array Name
  positions : Std.TreeMap Name (Fin names.size)
  positions_eq_some : ∀ (name : Name) (i : Fin names.size),
    positions[name]? = some i ↔ names[i] = name

namespace Roster

/-- The numbers of the names in an array. -/
def positionsOf (names : Array Name) : Std.TreeMap Name (Fin names.size) :=
  .ofList ((List.finRange names.size).map fun i => (names[i], i))

theorem positionsOf_eq_some {names : Array Name}
    (h : names.toList.Pairwise fun a b => ¬compare a b = .eq) {name : Name}
    {i : Fin names.size} : (positionsOf names)[name]? = some i ↔ names[i] = name := by
  have hpos : ∀ j : Fin names.size, names[j] = name → (positionsOf names)[name]? = some j := by
    rintro j rfl
    refine Std.TreeMap.getElem?_ofList_of_mem Std.ReflCmp.compare_self ?_ ?_
    · rw [List.pairwise_map]
      refine (List.pairwise_lt_finRange names.size).imp fun {a b} hab => ?_
      exact List.pairwise_iff_getElem.1 h a b (by simp) (by simp) hab
    · exact List.mem_map.2 ⟨j, List.mem_finRange j, rfl⟩
  refine ⟨fun hi => ?_, hpos i⟩
  have hmem : name ∈ positionsOf names := Std.TreeMap.mem_iff_isSome_getElem?.2 (by simp [hi])
  have := Std.TreeMap.mem_ofList.1 hmem
  simp only [List.map_map, List.contains_iff_mem, List.mem_map] at this
  obtain ⟨j, -, hj⟩ := this
  have := (hpos j hj).symm.trans hi
  rwa [Option.some_inj.1 this] at hj

/-- Numbers the names of a list in the order of their first occurrence. -/
def ofList (names : List Name) : Roster :=
  let distinct := (Name.distinct names).toArray
  { names := distinct
    positions := positionsOf distinct
    positions_eq_some := fun _ _ => positionsOf_eq_some (Sifted.pairwise_first names ∅) }

abbrev size (r : Roster) : Nat := r.names.size

/-- The name with a number. -/
def name (r : Roster) (i : Fin r.size) : Name := r.names[i]

/-- The number of a name, if the roster holds the name. -/
def position? (r : Roster) (name : Name) : Option (Fin r.size) := r.positions[name]?

theorem position?_eq_some {r : Roster} {name : Name} {i : Fin r.size} :
    r.position? name = some i ↔ r.name i = name := r.positions_eq_some name i

end Roster

end FeatureGuard

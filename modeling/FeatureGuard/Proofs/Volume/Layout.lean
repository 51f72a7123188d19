import FeatureGuard.Proofs.Volume.Shape

/-!
Layouts: what stands at each location. A file that is moved leaves its place and takes another one.
Where files are moved one after the other, each to a place of its own, all of them arrive with what
they held before the first move exactly when none is to leave from where an earlier one has arrived.
-/

namespace FeatureGuard

abbrev Layout := Location → Option Shape

/-- Where a file goes. -/
structure Move where
  source : Location
  destination : Location

namespace Layout

variable {layout : Layout} {m : Move} {moves : List Move} {location : Location}

def move (layout : Layout) (m : Move) : Layout :=
  Function.update (Function.update layout m.source none) m.destination (layout m.source)

def moveAll (layout : Layout) (moves : List Move) : Layout := moves.foldl move layout

theorem move_self (layout : Layout) (location : Location) :
    layout.move ⟨location, location⟩ = layout := by
  rw [move, Function.update_idem, Function.update_eq_self]

theorem move_destination (layout : Layout) (m : Move) :
    layout.move m m.destination = layout m.source := Function.update_self ..

theorem move_source (layout : Layout) (h : m.source ≠ m.destination) :
    layout.move m m.source = none := by
  rw [move, Function.update_of_ne h, Function.update_self]

theorem move_of_ne (layout : Layout) (hsource : location ≠ m.source)
    (hdestination : location ≠ m.destination) : layout.move m location = layout location := by
  rw [move, Function.update_of_ne hdestination, Function.update_of_ne hsource]

/-- A file that is moved to where no directory is leaves all directories as they are. -/
theorem move_eq_directory_iff (hsource : layout m.source ≠ some .directory)
    (hdestination : layout m.destination ≠ some .directory) :
    layout.move m location = some .directory ↔ layout location = some .directory := by
  by_cases hnew : location = m.destination
  · rw [hnew, move_destination]
    exact iff_of_false hsource hdestination
  · by_cases hold : location = m.source
    · rw [hold] at hnew ⊢
      rw [move_source layout hnew]
      exact iff_of_false nofun hsource
    · rw [move_of_ne layout hold hnew]

theorem moveAll_cons (layout : Layout) (m : Move) (moves : List Move) :
    layout.moveAll (m :: moves) = (layout.move m).moveAll moves := rfl

/-- Nothing changes where no file leaves and none arrives. -/
theorem moveAll_of_forall_ne
    (h : ∀ m ∈ moves, location ≠ m.source ∧ location ≠ m.destination) (layout : Layout) :
    layout.moveAll moves location = layout location := by
  induction moves generalizing layout with
  | nil => rfl
  | cons m moves ih =>
      obtain ⟨⟨hsource, hdestination⟩, hmoves⟩ := List.forall_mem_cons.1 h
      rw [moveAll_cons, ih hmoves, move_of_ne layout hsource hdestination]

/-- Nothing is left where a file leaves and none arrives. -/
theorem moveAll_source (hsource : ∃ m ∈ moves, m.source = location)
    (hdestination : ∀ m ∈ moves, m.destination ≠ location) (layout : Layout) :
    layout.moveAll moves location = none := by
  induction moves generalizing layout with
  | nil => simp at hsource
  | cons m moves ih =>
      obtain ⟨hm, hmoves⟩ := List.forall_mem_cons.1 hdestination
      rw [moveAll_cons]
      -- if another file leaves from here later, that move empties the place for the last time
      by_cases hlater : ∃ m ∈ moves, m.source = location
      · exact ih hlater hmoves (layout.move m)
      · rw [moveAll_of_forall_ne fun m' hm' =>
          ⟨fun heq => hlater ⟨m', hm', heq.symm⟩, (hmoves m' hm').symm⟩]
        obtain ⟨m', hm', rfl⟩ := hsource
        obtain rfl : m' = m := by
          by_contra hne
          exact hlater ⟨m', (List.mem_cons.1 hm').resolve_left hne, rfl⟩
        exact move_source layout hm.symm

/-- Whether no file leaves from where an earlier one has arrived. -/
def Apart (moves : List Move) : Prop := moves.Pairwise fun m m' => m'.source ≠ m.destination

theorem moveAll_destination (hsources : (moves.map Move.source).Nodup)
    (hdestinations : (moves.map Move.destination).Nodup) (hapart : Apart moves) :
    ∀ m ∈ moves, layout.moveAll moves m.destination = layout m.source := by
  induction moves generalizing layout with
  | nil => simp
  | cons m moves ih =>
      rw [List.map_cons, List.nodup_cons] at hsources hdestinations
      obtain ⟨hlater, hapart⟩ := List.pairwise_cons.1 hapart
      refine List.forall_mem_cons.2 ⟨?_, fun m' hm' => ?_⟩
      · rw [moveAll_cons, moveAll_of_forall_ne, move_destination]
        exact fun m' hm' => ⟨(hlater m' hm').symm, fun heq =>
          hdestinations.1 (heq ▸ List.mem_map_of_mem hm')⟩
      · have hsource : m'.source ≠ m.source := fun heq =>
          hsources.1 (heq ▸ List.mem_map_of_mem hm')
        rw [moveAll_cons, ih hsources.2 hdestinations.2 hapart m' hm',
          move_of_ne layout hsource (hlater m' hm')]

/-- A file that arrived where a later one leaves from is gone in the end. -/
theorem exists_moveAll_eq_none (hdestinations : (moves.map Move.destination).Nodup)
    (hapart : ¬Apart moves) (layout : Layout) :
    ∃ m ∈ moves, layout.moveAll moves m.destination = none := by
  induction moves generalizing layout with
  | nil => exact absurd List.Pairwise.nil hapart
  | cons m moves ih =>
      rw [List.map_cons, List.nodup_cons] at hdestinations
      -- the last pair that collides is the one to look at: no later file arrives at its place
      by_cases hlater : Apart moves
      · have hsource : ∃ m' ∈ moves, m'.source = m.destination := by
          by_contra hnone
          exact hapart (List.pairwise_cons.2 ⟨fun m' hm' heq => hnone ⟨m', hm', heq⟩, hlater⟩)
        refine ⟨m, List.mem_cons_self, ?_⟩
        rw [moveAll_cons]
        exact moveAll_source hsource (fun m' hm' heq =>
          hdestinations.1 (heq ▸ List.mem_map_of_mem hm')) _
      · obtain ⟨m', hm', hnone⟩ := ih hdestinations.2 hlater (layout.move m)
        exact ⟨m', List.mem_cons_of_mem m hm', hnone⟩

/-- Files that are moved one after the other all arrive exactly when none leaves from where an
earlier one has arrived. -/
theorem moveAll_destination_iff (hsources : (moves.map Move.source).Nodup)
    (hdestinations : (moves.map Move.destination).Nodup)
    (hfilled : ∀ m ∈ moves, layout m.source ≠ none) :
    (∀ m ∈ moves, layout.moveAll moves m.destination = layout m.source) ↔ Apart moves := by
  refine ⟨fun harrived => ?_, moveAll_destination hsources hdestinations⟩
  by_contra hapart
  obtain ⟨m, hm, hnone⟩ := exists_moveAll_eq_none hdestinations hapart layout
  exact hfilled m hm (by rw [← harrived m hm, hnone])

end Layout

end FeatureGuard

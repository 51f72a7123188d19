import FeatureGuard.Log.Setup
import FeatureGuard.Proofs.Volume.Growth

/-!
What setting up a log does to the files. Directories are made, and the log file is created if it is
missing. A file that was there is left as it is.
-/

namespace FeatureGuard

namespace Volume

/-- The second volume is the first one, with more where nothing was: directories, and an empty file for
the log. -/
structure Prepared (v v' : Volume) (log : Option Path) : Prop where
  home : v'.home = v.home
  shape : ∀ location, v'.shape? location = v.shape? location ∨ v.shape? location = none ∧
    (v'.shape? location = some .directory ∨
      v'.shape? location = some (.file .empty) ∧ ∃ p ∈ log, p.place v.home = location)

variable {v v' v'' : Volume} {p : Path} {log : Option Path} {location : Location}
  {contents : ByteArray}

theorem Grows.prepared (h : v.Grows v') (log : Option Path) : v.Prepared v' log where
  home := h.home
  shape location := (h.shape location).imp_right fun hnew => ⟨hnew.1, .inl hnew.2⟩

theorem Grows.prepared_append (h : v.Grows v') (happend : v'.append p .empty = .ok v'') :
    v.Prepared v'' (some p) := by
  obtain ⟨-, hhome, old, hold, hshape⟩ := change_eq_ok happend
  refine ⟨hhome.trans h.home, fun location => ?_⟩
  rw [hshape, Function.update_apply, ByteArray.append_empty]
  split
  · rename_i heq
    subst heq
    rcases hold with hfile | ⟨hnone, rfl⟩
    · rw [← hfile]
      exact (h.prepared _).shape _
    · refine .inr ⟨?_, .inr ⟨rfl, p, rfl, by rw [h.home]⟩⟩
      rcases h.shape (p.place v'.home) with hsame | ⟨hnone', -⟩
      · rwa [← hsame]
      · exact hnone'
  · exact (h.prepared _).shape location

namespace Prepared

theorem keeps (h : v.Prepared v' log) : v.Keeps v' where
  home := h.home
  directory location hdirectory := by
    rcases h.shape location with hsame | ⟨hnone, -⟩
    · rw [hsame, hdirectory]
    · cases hnone.symm.trans hdirectory

theorem trans_grows (h : v.Prepared v' log) (h' : v'.Grows v'') : v.Prepared v'' log where
  home := h'.home.trans h.home
  shape location := by
    rcases h'.shape location with hsame | ⟨hnone, hnew⟩
    · rw [hsame]
      exact h.shape location
    · rcases h.shape location with hsame | ⟨-, hdirectory | ⟨hfile, -⟩⟩
      · exact .inr ⟨hsame.symm.trans hnone, .inl hnew⟩
      · cases hnone.symm.trans hdirectory
      · cases hnone.symm.trans hfile

/-- A file that was there has not changed. -/
theorem shape?_file (h : v.Prepared v' log) (hfile : v.shape? location = some (.file contents)) :
    v'.shape? location = some (.file contents) := by
  rcases h.shape location with hsame | ⟨hnone, -⟩
  · rw [hsame, hfile]
  · cases hnone.symm.trans hfile

/-- A file was there before, unless it is an empty log. -/
theorem shape?_of_file (h : v.Prepared v' log)
    (hfile : v'.shape? location = some (.file contents)) :
    v.shape? location = some (.file contents) ∨ v.shape? location = none ∧ contents = .empty ∧
      ∃ p ∈ log, p.place v.home = location := by
  rcases h.shape location with hsame | ⟨hnone, hdirectory | ⟨hempty, hlog⟩⟩
  · exact .inl (hsame.symm.trans hfile)
  · cases hdirectory.symm.trans hfile
  · obtain rfl := Shape.file.inj (Option.some.inj (hempty.symm.trans hfile))
    exact .inr ⟨hnone, rfl, hlog⟩

end Prepared

end Volume

theorem World.eq_of_attempt_eq_error {operation : Volume → Except Fault Volume} {w w' : World}
    {fault : Fault} (h : attempt operation w = (.error fault, w')) : w' = w := by
  rw [attempt] at h
  split at h
  · cases (Prod.mk.inj h).1
  · exact (Prod.mk.inj h).2.symm

/-- The second world has become of the first one where a log was set up. -/
structure World.Prepared (w w' : World) (log : Option Path) : Prop where
  volume : w.volume.Prepared w'.volume log
  environment : w'.environment = w.environment
  clock : w'.clock = w.clock

theorem World.Grows.prepared {w w' : World} (h : w.Grows w') (log : Option Path) :
    w.Prepared w' log := ⟨h.volume.prepared log, h.environment, h.clock⟩

theorem World.Prepared.trans_grows {w w' w'' : World} {log : Option Path} (h : w.Prepared w' log)
    (h' : w'.Grows w'') : w.Prepared w'' log :=
  ⟨h.volume.trans_grows h'.volume, h'.environment.trans h.environment, h'.clock.trans h.clock⟩

namespace Log.Setup

variable {w w₁ : World}

/-- The file of the log, if there is one. -/
def file? (s : Setup) (clock : Instant) : Option Path :=
  s.directory.map fun directory => Path.push directory (s.rotation.fileName s.name clock)

theorem prepared_touch (h : w.Grows w₁) (p : Path) :
    w.Prepared (Host.touch (m := StateM World) p w₁).2 (some p) := by
  show w.Prepared (World.attempt (·.append p .empty) w₁).2 (some p)
  cases happend : w₁.volume.append p .empty with
  | ok v =>
      rw [World.attempt_eq_ok (·.append p .empty) happend]
      exact ⟨h.volume.prepared_append happend, h.environment, h.clock⟩
  | error fault =>
      rw [World.attempt_eq_error (·.append p .empty) happend]
      exact h.prepared _

theorem prepared_openFile (h : w.Grows w₁) (p : Path) :
    w.Prepared (openFile (m := StateM World) p w₁).2 (some p) := by
  have hfirst := prepared_touch h p
  rcases htouch : Host.touch (m := StateM World) p w₁ with ⟨fault | u, w₂⟩
  · obtain rfl := World.eq_of_attempt_eq_error htouch
    rw [openFile, World.bind_eq htouch]
    cases hparent : p.parent? with
    | none => exact h.prepared _
    | some parent =>
        have habove := h.trans (MakesRoom.makePath parent w₂)
        rcases hpath : Host.makePath (m := StateM World) parent w₂ with ⟨fault' | u, w₃⟩
        · rw [hpath] at habove
          simp only [World.bind_eq hpath]
          exact habove.prepared _
        · rw [hpath] at habove
          simp only [World.bind_eq hpath]
          exact prepared_touch habove p
  · rw [htouch] at hfirst
    rw [openFile, World.bind_eq htouch]
    exact hfirst

theorem prepared_openLog (s : Setup) (w : World) :
    w.Prepared (s.openLog (m := StateM World) w).2 (s.file? w.clock) := by
  rw [openLog, file?]
  cases s.directory with
  | none => exact (World.Grows.refl w).prepared _
  | some directory =>
      have hroom := MakesRoom.makePath directory w
      rcases hpath : Host.makePath (m := StateM World) directory w with ⟨fault | u, w₁⟩
      · rw [hpath] at hroom
        simp only [World.bind_eq hpath]
        exact hroom.prepared _
      · rw [hpath] at hroom
        simp only [World.bind_eq hpath]
        have hopened := prepared_openFile hroom
          (Path.push directory (s.rotation.fileName s.name w₁.clock))
        rw [hroom.clock] at hopened
        show w.Prepared (openFile (m := StateM World) (Path.push directory
          (s.rotation.fileName s.name w₁.clock)) w₁).2 _
        rw [hroom.clock]
        exact hopened

theorem makesRoom_setSink (sink : Sink) : MakesRoom (Host.setSink (m := StateM World) sink) := by
  intro w
  simp only [Host.setSink]
  split
  · exact ⟨.refl w.volume, rfl, rfl⟩
  · exact .refl w

/-- Setting up a log, whether it succeeds or not, does nothing to the files but that the log file is
created and the directories above it. -/
theorem prepared_install (s : Setup) (w : World) :
    w.Prepared (s.install (m := StateM World) w).2 (s.file? w.clock) := by
  rw [install]
  cases s.fault? with
  | some failure => exact (World.Grows.refl w).prepared _
  | none =>
      simp only
      rw [World.bind_eq (x := Host.environmentValue? environmentVariable) rfl]
      cases s.filter (Keyed.get? environmentVariable w.environment) with
      | error failure => exact (World.Grows.refl w).prepared _
      | ok filter =>
          have hopened := prepared_openLog s w
          rcases hopen : s.openLog (m := StateM World) w with ⟨failure | file, w₁⟩
          · rw [hopen] at hopened
            simp only [World.bind_eq hopen]
            exact hopened
          · rw [hopen] at hopened
            simp only [World.bind_eq hopen]
            split
            · exact hopened
            · have hset := makesRoom_setSink { filter, console := s.console, file } w₁
              rcases hsink : Host.setSink (m := StateM World)
                { filter, console := s.console, file } w₁ with ⟨answer, w₂⟩
              rw [hsink] at hset
              simp only [World.bind_eq hsink]
              split <;> exact hopened.trans_grows hset

end Log.Setup

end FeatureGuard

import FeatureGuard.Host
import FeatureGuard.Proofs.Volume.Parent

/-!
Making room. A program that creates directories leaves all files as they are, whether it succeeds or
not: what it adds stands where nothing was. Where a directory is refused together with all that are
missing above it, there is no directory in the end.
-/

namespace FeatureGuard

/-- The second volume is the first one, with more directories where nothing was. -/
structure Volume.Grows (v v' : Volume) : Prop where
  home : v'.home = v.home
  shape : ∀ location, v'.shape? location = v.shape? location ∨
    v.shape? location = none ∧ v'.shape? location = some .directory

namespace Volume.Grows

variable {v v' v'' : Volume}

protected theorem refl (v : Volume) : v.Grows v := ⟨rfl, fun _ => .inl rfl⟩

protected theorem trans (h : v.Grows v') (h' : v'.Grows v'') : v.Grows v'' where
  home := h'.home.trans h.home
  shape location := by
    rcases h.shape location with hsame | ⟨hnone, hnew⟩
    · rw [← hsame]
      exact h'.shape location
    · rcases h'.shape location with hsame' | ⟨hnone', -⟩
      · exact .inr ⟨hnone, hsame'.trans hnew⟩
      · rw [hnew] at hnone'
        cases hnone'

theorem keeps (h : v.Grows v') : v.Keeps v' where
  home := h.home
  directory location hdirectory := by
    rcases h.shape location with hsame | ⟨hnone, -⟩
    · rw [hsame, hdirectory]
    · rw [hdirectory] at hnone
      cases hnone

theorem shape?_eq_file_iff (h : v.Grows v') {location : Location} {contents : ByteArray} :
    v'.shape? location = some (.file contents) ↔ v.shape? location = some (.file contents) := by
  rcases h.shape location with hsame | ⟨hnone, hnew⟩
  · rw [hsame]
  · simp [hnone, hnew]

end Volume.Grows

theorem Volume.grows_of_makeDirectory {v v' : Volume} {p : Path} (h : v.makeDirectory p = .ok v') :
    v.Grows v' := by
  obtain ⟨location, hnone, hhome, hshape⟩ := makeDirectory_eq_ok h
  refine ⟨hhome, fun other => ?_⟩
  rw [hshape, Function.update_apply]
  split
  · rename_i heq
    rw [heq]
    exact .inr ⟨hnone, rfl⟩
  · exact .inl rfl

/-- In the second world there are more directories, and whatever else a program can ask about the
system is as in the first one. -/
structure World.Grows (w w' : World) : Prop where
  volume : w.volume.Grows w'.volume
  environment : w'.environment = w.environment
  clock : w'.clock = w.clock

namespace World.Grows

variable {w w' w'' : World}

protected theorem refl (w : World) : w.Grows w := ⟨.refl w.volume, rfl, rfl⟩

protected theorem trans (h : w.Grows w') (h' : w'.Grows w'') : w.Grows w'' :=
  ⟨h.volume.trans h'.volume, h'.environment.trans h.environment, h'.clock.trans h.clock⟩

end World.Grows

/-- A program that does nothing to the files but create directories. -/
def MakesRoom {α : Type} (x : StateM World α) : Prop := ∀ w : World, w.Grows (x w).2

namespace MakesRoom

variable {α β : Type} {x : StateM World α}

protected theorem pure (a : α) : MakesRoom (pure a) := fun w => .refl w

protected theorem bind (hx : MakesRoom x) {f : α → StateM World β} (hf : ∀ a, MakesRoom (f a)) :
    MakesRoom (x >>= f) := fun w => (hx w).trans (hf (x w).1 (x w).2)

theorem ask (question : Volume → α) : MakesRoom (World.ask question) := fun w => .refl w

theorem makeDirectory (p : Path) : MakesRoom (Host.makeDirectory p) := by
  intro w
  show w.Grows (World.attempt (·.makeDirectory p) w).2
  rw [World.attempt]
  split
  · exact ⟨Volume.grows_of_makeDirectory ‹_›, rfl, rfl⟩
  · exact .refl w

theorem ensureDirectory (p : Path) : MakesRoom (Host.ensureDirectory p) := by
  refine (makeDirectory p).bind fun answer => ?_
  split
  · exact (ask _).bind fun _ => .pure _
  · exact .pure _

theorem makeDirectories (fuel : Nat) (p : Path) : MakesRoom (Host.makeDirectories fuel p) := by
  induction fuel generalizing p with
  | zero => exact .pure _
  | succ fuel ih =>
      rw [Host.makeDirectories]
      split
      · exact .pure _
      · refine (ensureDirectory p).bind fun answer => ?_
        split
        · split
          · exact .pure _
          · refine (ih _).bind fun above => ?_
            split
            · exact .pure _
            · exact ensureDirectory p
        · exact .pure _

theorem makePath (p : Path) : MakesRoom (Host.makePath p) := makeDirectories (p.length + 1) p

end MakesRoom

/-! ### Room that is refused -/

namespace World

variable {w w' : World} {p : Path} {fault : Fault}

/-- A run goes on from where its first part has ended. -/
theorem bind_eq {α β : Type} {x : StateM World α} {a : α} (h : x w = (a, w'))
    (f : α → StateM World β) : (x >>= f) w = f a w' := by
  show f (x w).1 (x w).2 = _
  rw [h]

theorem attempt_eq_ok (operation : Volume → Except Fault Volume) {v : Volume}
    (h : operation w.volume = .ok v) : attempt operation w = (.ok (), { w with volume := v }) := by
  rw [attempt, h]

theorem attempt_eq_error (operation : Volume → Except Fault Volume)
    (h : operation w.volume = .error fault) : attempt operation w = (.error fault, w) := by
  rw [attempt, h]

/-- Where a directory is refused, none is there. -/
theorem isDirectory_of_ensureDirectory
    (h : Host.ensureDirectory (m := StateM World) p w = (.error fault, w')) :
    w'.volume.isDirectory p = false := by
  rw [Host.ensureDirectory] at h
  cases hmake : w.volume.makeDirectory p with
  | ok v =>
      rw [bind_eq (x := Host.makeDirectory p) (attempt_eq_ok (·.makeDirectory p) hmake)] at h
      cases (Prod.mk.inj h).1
  | error refusal =>
      rw [bind_eq (x := Host.makeDirectory p)
        (attempt_eq_error (·.makeDirectory p) hmake)] at h
      cases refusal with
      | alreadyExists =>
          have hasked : (if w.volume.isDirectory p then .ok () else .error .alreadyExists, w) =
              ((.error fault : Except Fault Unit), w') := h
          obtain ⟨hanswer, rfl⟩ := Prod.mk.inj hasked
          split at hanswer
          · cases hanswer
          · exact Bool.eq_false_iff.2 ‹_›
      | _ =>
          obtain ⟨-, rfl⟩ := Prod.mk.inj h
          exact Volume.isDirectory_eq_false_of_makeDirectory hmake (by simp)

theorem makeDirectories_succ_eq (fuel : Nat) (p : Path) (w : World) :
    Host.makeDirectories (m := StateM World) (fuel + 1) p w =
      if p = [] then (.ok (), w)
      else match Host.ensureDirectory (m := StateM World) p w with
        | (.error .notFound, w₁) =>
          match Path.parent? p with
          | none => (.error .notFound, w₁)
          | some parent =>
            match Host.makeDirectories (m := StateM World) fuel parent w₁ with
            | (.error fault, w₂) => (.error fault, w₂)
            | (.ok (), w₂) => Host.ensureDirectory (m := StateM World) p w₂
        | run => run := by
  rw [Host.makeDirectories]
  split
  · rfl
  · rcases hfirst : Host.ensureDirectory (m := StateM World) p w with ⟨first | u, w₁⟩
    · rw [bind_eq hfirst]
      cases first with
      | notFound =>
          cases Path.parent? p with
          | none => rfl
          | some parent =>
              simp only
              rcases habove : Host.makeDirectories (m := StateM World) fuel parent w₁ with ⟨f | u, w₂⟩
              · exact bind_eq habove _
              · exact bind_eq habove _
      | _ => rfl
    · exact bind_eq hfirst _

theorem isDirectory_of_makeDirectories {fuel : Nat} (hfuel : p.length < fuel)
    (h : Host.makeDirectories (m := StateM World) fuel p w = (.error fault, w')) :
    w'.volume.isDirectory p = false := by
  induction fuel generalizing p w w' fault with
  | zero => cases hfuel
  | succ fuel ih =>
      rw [makeDirectories_succ_eq] at h
      split at h
      · cases (Prod.mk.inj h).1
      · rename_i hne
        split at h
        · rename_i w₁ hfirst
          split at h
          · obtain ⟨-, rfl⟩ := Prod.mk.inj h
            exact isDirectory_of_ensureDirectory hfirst
          · rename_i parent hparent
            split at h
            · rename_i w₂ habove
              obtain ⟨-, rfl⟩ := Prod.mk.inj h
              have hroot : parent ≠ [] := by
                rintro rfl
                have hlength := List.length_pos_of_ne_nil hne
                obtain ⟨fuel, rfl⟩ : ∃ n, fuel = n + 1 := ⟨fuel - 1, by omega⟩
                rw [makeDirectories_succ_eq, if_pos rfl] at habove
                cases (Prod.mk.inj habove).1
              have hparentAbove := Path.above_of_parent? hparent hroot
              have hlength := hparentAbove.length_lt
              have hmissing := ih (by omega) habove
              exact Volume.isDirectory_eq_false_of_above hparentAbove hroot hmissing
            · exact isDirectory_of_ensureDirectory h
        · exact isDirectory_of_ensureDirectory h

end World

end FeatureGuard

import FeatureGuard.Proofs.Staging
import FeatureGuard.Proofs.Volume.Removal

/-!
Outputs that are given up. An output that is refused has only made room for itself: where the write of
its draft has broken off, the draft is removed at once. Drafts that are given up are removed, and so are
outputs that were moved before another one could not be, so that no file is left that was not there
before; the files that were there are left, except where a draft was written or an output has gone.
-/

namespace FeatureGuard

namespace Staging

variable {o : Output} {s : Staged} {outputs : List Output} {staged moved : List Staged}
  {w w' : World} {failure : Failure}

/-! ### Removing what is left -/

theorem discard_volume (p : Path) (w : World) : (discard (m := StateM World) p w).2.volume =
    match w.volume.unlink p with
    | .ok v => v
    | .error _ => w.volume := by
  cases hunlink : w.volume.unlink p with
  | ok v =>
      rw [discard, World.bind_eq (x := Host.unlink p) (World.attempt_eq_ok (·.unlink p) hunlink)]
      rfl
  | error fault =>
      rw [discard, World.bind_eq (x := Host.unlink p) (World.attempt_eq_error (·.unlink p) hunlink)]
      cases fault <;> rfl

/-- Discarding a file removes it, and where that is refused no file was there. -/
theorem sheds_discard (p : Path) (w : World) :
    w.volume.Sheds (discard (m := StateM World) p w).2.volume {p.place w.volume.home} ∧
      (discard (m := StateM World) p w).2.volume.isFile p = false := by
  rw [discard_volume]
  cases hunlink : w.volume.unlink p with
  | ok v =>
      refine ⟨.of_unlink hunlink, Volume.isFile_eq_false_iff.2 fun contents hread => ?_⟩
      obtain ⟨-, hhome, hshape⟩ := Volume.unlink_eq_ok hunlink
      have hfile := Volume.shape?_of_read hread
      rw [hhome, hshape, Function.update_self] at hfile
      cases hfile
  | error fault =>
      refine ⟨.refl _ _, Volume.isFile_eq_false_iff.2 fun contents hread => ?_⟩
      obtain ⟨v, hv⟩ := Volume.exists_unlink hread
      cases hunlink.symm.trans hv

theorem sheds_discardAll (paths : List Path) (w : World) :
    w.volume.Sheds (discardAll (m := StateM World) paths w).2.volume
        {location | ∃ p ∈ paths, p.place w.volume.home = location} ∧
      ∀ p ∈ paths, (discardAll (m := StateM World) paths w).2.volume.isFile p = false := by
  induction paths generalizing w with
  | nil => exact ⟨.refl _ _, List.forall_mem_nil _⟩
  | cons p paths ih =>
      have hrun : discardAll (m := StateM World) (p :: paths) w =
          discardAll (m := StateM World) paths (discard (m := StateM World) p w).2 := rfl
      obtain ⟨hfirst, hmissing⟩ := sheds_discard p w
      obtain ⟨hrest, hothers⟩ := ih (discard (m := StateM World) p w).2
      rw [hrun]
      refine ⟨?_, List.forall_mem_cons.2 ⟨hrest.isFile_eq_false hmissing, hothers⟩⟩
      have hall := hfirst.trans hrest
      rw [hfirst.home] at hall
      refine ⟨hall.home, fun location => (hall.shape location).imp_right ?_⟩
      rintro ⟨hmem, hgone⟩
      refine ⟨?_, hgone⟩
      rcases hmem with rfl | ⟨q, hq, hplace⟩
      · exact ⟨p, List.mem_cons_self, rfl⟩
      · exact ⟨q, List.mem_cons_of_mem p hq, hplace⟩

/-- No file is left where a path leads that was given up. -/
theorem shape?_discardAll_ne_file {paths : List Path} {p : Path} (hp : p ∈ paths)
    {directory : Location} {name : Text} (hreaches : w.volume.Reaches p directory name)
    (contents : ByteArray) : (discardAll (m := StateM World) paths w).2.volume.shape?
      (p.place w.volume.home) ≠ some (.file contents) := by
  obtain ⟨hsheds, hgone⟩ := sheds_discardAll paths w
  rw [← hsheds.home]
  exact (hsheds.keeps.reaches hreaches).shape?_ne_file (hgone p hp)

/-! ### Outputs that cannot be staged -/

theorem above_draftOf {p q : Path} (h : p.parent? = some q) (hq : q ≠ []) :
    Path.Above q (draftOf p) := by
  have hhead : ((p.fileName?).getD [] ++ (".partial" : Text)).head? ≠ some '/' := by
    cases hname : p.fileName? with
    | none => decide
    | some n =>
        intro hslash
        rcases List.mem_append.1 (List.mem_of_mem_head? hslash) with hn | hsuffix
        · exact Path.slash_not_mem_fileName? hname hn
        · revert hsuffix
          decide
  have hmem : 'p' ∈ (p.fileName?).getD [] ++ (".partial" : Text) :=
    List.mem_append_right _ (by decide)
  exact Path.above_withFileName h hq hhead hmem (by decide)

theorem makeRoom_eq_error {p : Path} (h : makeRoom (m := StateM World) p w = (.error failure, w')) :
    ∃ q, p.parent? = some q ∧ q ≠ [] ∧ w'.volume.isDirectory q = false := by
  rw [makeRoom] at h
  cases hparent : p.parent?.filter (· ≠ []) with
  | none =>
      simp only [hparent] at h
      cases (Prod.mk.inj h).1
  | some q =>
      simp only [hparent] at h
      obtain ⟨hparent, hne⟩ := Option.filter_eq_some_iff.1 hparent
      rcases hpath : Host.makePath (m := StateM World) q w with ⟨fault | u, w₁⟩
      · rw [World.bind_eq hpath] at h
        obtain ⟨-, rfl⟩ := Prod.mk.inj h
        exact ⟨q, hparent, of_decide_eq_true hne,
          World.isDirectory_of_makeDirectories (Nat.lt_succ_self _) hpath⟩
      · rw [World.bind_eq hpath] at h
        cases (Prod.mk.inj h).1

/-- A write that failed has either found no file and left everything as it was, or it has broken off,
and a part of the contents is there. -/
theorem write_eq_error {p : Path} {contents : ByteArray} {fault : Fault}
    (h : World.write p contents w = (.error fault, w')) :
    (w'.volume = w.volume ∧ w.volume.isFile p = false) ∨
      ∃ part, w.volume.write p part = .ok w'.volume := by
  have hrefused : ∀ {new fault'}, w.volume.write p new = .error fault' →
      w.volume.isFile p = false := by
    intro new fault' hwrite
    refine Volume.isFile_eq_false_iff.2 fun old hread => ?_
    obtain ⟨v, hv⟩ := Volume.exists_write hread new
    cases hwrite.symm.trans hv
  rw [World.write] at h
  cases hbreak : w.breaks.head?.join with
  | none =>
      simp only [hbreak] at h
      cases hwrite : w.volume.write p contents with
      | ok v =>
          simp only [World.attempt, hwrite] at h
          cases (Prod.mk.inj h).1
      | error refusal =>
          simp only [World.attempt, hwrite] at h
          obtain ⟨-, rfl⟩ := Prod.mk.inj h
          exact .inl ⟨rfl, hrefused hwrite⟩
  | some b =>
      simp only [hbreak] at h
      cases hwrite : w.volume.write p (contents.extract 0 b.written) with
      | ok v =>
          rw [hwrite] at h
          obtain ⟨-, rfl⟩ := Prod.mk.inj h
          exact .inr ⟨_, hwrite⟩
      | error refusal =>
          rw [hwrite] at h
          obtain ⟨-, rfl⟩ := Prod.mk.inj h
          exact .inl ⟨rfl, hrefused hwrite⟩

/-- A draft that could not be written is not there, unless the write has broken off. Nothing else has
changed but for new directories. -/
theorem writeDraft_eq_error (h : writeDraft (m := StateM World) o w = (.error failure, w')) :
    ∃ v, w.volume.Grows v ∧ (w'.volume = v ∧ v.isFile (draftOf o.path) = false ∨
      ∃ part, v.write (draftOf o.path) part = .ok w'.volume) := by
  have hgrows := (makesRoom_makeRoom o.path w).volume
  rw [writeDraft] at h
  rcases hroom : makeRoom (m := StateM World) o.path w with ⟨e | u, w₁⟩
  · rw [World.bind_eq hroom] at h
    rw [hroom] at hgrows
    obtain ⟨-, rfl⟩ := Prod.mk.inj h
    obtain ⟨q, hparent, hq, hmissing⟩ := makeRoom_eq_error hroom
    refine ⟨w₁.volume, hgrows, .inl ⟨rfl, Volume.isFile_eq_false_iff.2 fun contents hread => ?_⟩⟩
    obtain ⟨directory, name, hreaches, -⟩ := Volume.read_eq_ok_iff.1 hread
    rw [Volume.isDirectory_of_above (above_draftOf hparent hq) hq hreaches.target] at hmissing
    cases hmissing
  · rw [World.bind_eq hroom] at h
    rw [hroom] at hgrows
    refine ⟨w₁.volume, hgrows, ?_⟩
    simp only at h
    rcases hwrite : World.write (draftOf o.path) (Text.toBytes o.contents) w₁ with ⟨fault | u, w₂⟩
    · rw [World.bind_eq (x := Host.write _ _) hwrite] at h
      obtain ⟨-, rfl⟩ := Prod.mk.inj h
      exact write_eq_error hwrite
    · rw [World.bind_eq (x := Host.write _ _) hwrite] at h
      cases (Prod.mk.inj h).1

/-- Nothing is left of an output that could not be staged: room was made for it, and at most its draft
was taken away again, together with what stood there before. -/
theorem stage_eq_error (h : stage (m := StateM World) o w = (.error failure, w')) :
    ∃ v, w.volume.Grows v ∧ v.Sheds w'.volume {(draftOf o.path).place w.volume.home} ∧
      w'.volume.isFile (draftOf o.path) = false := by
  rw [stage] at h
  rcases hdraft : writeDraft (m := StateM World) o w with ⟨e | u, w₁⟩
  · rw [World.bind_eq hdraft] at h
    obtain ⟨v, hgrows, hwritten⟩ := writeDraft_eq_error hdraft
    have hw : (discard (m := StateM World) (draftOf o.path) w₁).2 = w' := (Prod.mk.inj h).2
    obtain ⟨hsheds, hmissing⟩ := sheds_discard (draftOf o.path) w₁
    rw [hw] at hsheds hmissing
    refine ⟨v, hgrows, ?_, hmissing⟩
    rw [← hgrows.home]
    rcases hwritten with ⟨rfl, -⟩ | ⟨part, hpart⟩
    · exact hsheds
    · exact .of_write hpart hsheds hmissing
  · rw [World.bind_eq hdraft] at h
    cases (Prod.mk.inj h).1

/-- A way of staging outputs that leaves nothing of those that it refuses, like `stage`. -/
def LeavesNothing (stager : Output → StateM World (Except Failure Staged)) : Prop :=
  ∀ {o failure w w'}, stager o w = (.error failure, w') →
    ∃ v, w.volume.Grows v ∧ v.Sheds w'.volume {(draftOf o.path).place w.volume.home} ∧
      w'.volume.isFile (draftOf o.path) = false

/-! ### One call after the other -/

/-- An output that could not be staged, and the files as the call has left them. -/
structure Refused where
  output : Output
  left : Volume

/-- What one call after the other does to the files, where some of the outputs are refused. -/
inductive Tries : Volume → List Output → List Refused → Volume → Prop
  | nil (v : Volume) : Tries v [] [] v
  | accept {v v₁ v₂ v₃ : Volume} {o : Output} {accepted : List Output} {refused : List Refused}
      (room : v.Grows v₁)
      (written : v₁.write (draftOf o.path) (Text.toBytes o.contents) = .ok v₂)
      (rest : Tries v₂ accepted refused v₃) : Tries v (o :: accepted) refused v₃
  | refuse {v v₁ v₂ v₃ : Volume} {o : Output} {accepted : List Output} {refused : List Refused}
      (room : v.Grows v₁) (sheds : v₁.Sheds v₂ {(draftOf o.path).place v.home})
      (missing : v₂.isFile (draftOf o.path) = false) (rest : Tries v₂ accepted refused v₃) :
      Tries v accepted (⟨o, v₂⟩ :: refused) v₃

variable {accepted : List Output} {refused : List Refused} {v v' v₁ v₂ : Volume}

namespace Tries

theorem trans {accepted' : List Output} {refused' : List Refused} (h : Tries v accepted refused v₁)
    (h' : Tries v₁ accepted' refused' v₂) :
    Tries v (accepted ++ accepted') (refused ++ refused') v₂ := by
  induction h with
  | nil v => exact h'
  | accept room written rest ih => exact .accept room written (ih h')
  | refuse room sheds missing rest ih => exact .refuse room sheds missing (ih h')

/-- Where all drafts are written, no output is refused. -/
theorem of_drafts (h : Drafts v outputs v₁) : Tries v outputs [] v₁ := by
  induction h with
  | nil v => exact .nil v
  | cons room written rest ih => exact .accept room written ih

theorem keeps (h : Tries v accepted refused v₁) : v.Keeps v₁ := by
  induction h with
  | nil v => exact .refl v
  | accept room written rest ih => exact (room.keeps.trans (.of_write written)).trans ih
  | refuse room sheds missing rest ih => exact (room.keeps.trans sheds.keeps).trans ih

theorem keeps_left (h : Tries v accepted refused v₁) :
    ∀ r ∈ refused, v.Keeps r.left ∧ r.left.Keeps v₁ := by
  induction h with
  | nil v => exact List.forall_mem_nil _
  | accept room written rest ih =>
      intro r hr
      obtain ⟨hbefore, hafter⟩ := ih r hr
      exact ⟨(room.keeps.trans (.of_write written)).trans hbefore, hafter⟩
  | refuse room sheds missing rest ih =>
      have hfirst := room.keeps.trans sheds.keeps
      refine List.forall_mem_cons.2 ⟨⟨hfirst, rest.keeps⟩, fun r hr => ?_⟩
      obtain ⟨hbefore, hafter⟩ := ih r hr
      exact ⟨hfirst.trans hbefore, hafter⟩

theorem reaches (h : Tries v accepted refused v₁) :
    ∀ o ∈ accepted, ∃ directory name, v₁.Reaches (draftOf o.path) directory name := by
  induction h with
  | nil v => exact List.forall_mem_nil _
  | accept room written rest ih =>
      refine List.forall_mem_cons.2 ⟨?_, ih⟩
      obtain ⟨directory, name, hreaches⟩ := (Volume.write_eq_ok written).1.reaches
      exact ⟨directory, name, ((Volume.Keeps.of_write written).trans rest.keeps).reaches hreaches⟩
  | refuse room sheds missing rest ih => exact ih

/-- A file is new, or has new contents, only where the draft of a staged output was written. -/
theorem shape?_of_file (h : Tries v accepted refused v₁) {location : Location} {contents : ByteArray}
    (hne : ∀ o ∈ accepted, (draftOf o.path).place v.home ≠ location)
    (hfile : v₁.shape? location = some (.file contents)) :
    v.shape? location = some (.file contents) := by
  induction h with
  | nil v => exact hfile
  | @accept v v₁ v₂ v₃ o accepted refused room written rest ih =>
      obtain ⟨ho, haccepted⟩ := List.forall_mem_cons.1 hne
      obtain ⟨-, hhome, hshape⟩ := Volume.write_eq_ok written
      rw [room.home] at hhome hshape
      have hbefore := ih (by rwa [hhome]) hfile
      rwa [hshape, Function.update_of_ne ho.symm, room.shape?_eq_file_iff] at hbefore
  | refuse room sheds missing rest ih =>
      have hbefore := ih (by rwa [sheds.home, room.home]) hfile
      exact room.shape?_eq_file_iff.1 (sheds.shape?_of_file hbefore)

/-- A file is lost, or has new contents, only at the places of drafts. -/
theorem shape?_file (h : Tries v accepted refused v₁) {location : Location} {contents : ByteArray}
    (haccepted : ∀ o ∈ accepted, (draftOf o.path).place v.home ≠ location)
    (hrefused : ∀ r ∈ refused, (draftOf r.output.path).place v.home ≠ location)
    (hfile : v.shape? location = some (.file contents)) :
    v₁.shape? location = some (.file contents) := by
  induction h with
  | nil v => exact hfile
  | @accept v v₁ v₂ v₃ o accepted refused room written rest ih =>
      obtain ⟨ho, haccepted⟩ := List.forall_mem_cons.1 haccepted
      obtain ⟨-, hhome, hshape⟩ := Volume.write_eq_ok written
      rw [room.home] at hhome hshape
      refine ih (by rwa [hhome]) (by rwa [hhome]) ?_
      rwa [hshape, Function.update_of_ne ho.symm, room.shape?_eq_file_iff]
  | @refuse v v₁ v₂ v₃ o accepted refused room sheds missing rest ih =>
      obtain ⟨ho, hrefused⟩ := List.forall_mem_cons.1 hrefused
      have hhome := sheds.home.trans room.home
      refine ih (by rwa [hhome]) (by rwa [hhome]) ?_
      rwa [sheds.shape?_of_not_mem ho.symm, room.shape?_eq_file_iff]

/-- Where the draft of a refused output names a file after all, another draft was written there. -/
theorem exists_place_eq (h : Tries v accepted refused v₁) {r : Refused} (hr : r ∈ refused) {t : Target}
    (ht : r.left.target (draftOf r.output.path) = .ok t) {contents : ByteArray}
    (hread : v₁.read (draftOf r.output.path) = .ok contents) :
    ∃ o ∈ accepted, (draftOf o.path).place v.home = (draftOf r.output.path).place v.home := by
  induction h with
  | nil v => cases hr
  | @accept v v₁ v₂ v₃ o accepted refused room written rest ih =>
      obtain ⟨other, hother, hsame⟩ := ih hr hread
      rw [(Volume.write_eq_ok written).2.1, room.home] at hsame
      exact ⟨other, List.mem_cons_of_mem o hother, hsame⟩
  | @refuse v v₁ v₂ v₃ o accepted refused room sheds missing rest ih =>
      have hhome := sheds.home.trans room.home
      rw [← hhome]
      rcases List.mem_cons.1 hr with rfl | hr
      · by_contra hapart
        obtain ⟨directory, name, hreaches, -⟩ := Volume.read_eq_ok_iff.1 hread
        have hbefore := rest.keeps.reaches_back ht hreaches
        refine Volume.isFile_eq_false_iff.1 missing contents (hbefore.read_eq_ok_iff.2 ?_)
        refine rest.shape?_of_file (fun o' ho' heq => hapart ⟨o', ho', heq⟩) ?_
        rw [← rest.keeps.home]
        exact Volume.shape?_of_read hread
      · exact ih hr hread

end Tries

/-! ### Taking everything back -/

/-- Where staged outputs have their drafts, and where the outputs went that were moved. -/
def touched (home : Location) (staged moved : List Staged) : Set Location :=
  {location | (∃ s ∈ staged, s.draft.place home = location) ∨
    ∃ s ∈ moved, s.path.place home = location}

/-- Where the outputs would have had their drafts that were refused. -/
def spoiled (home : Location) (refused : List Refused) : Set Location :=
  {location | ∃ r ∈ refused, (draftOf r.output.path).place home = location}

/-- What is removed after a failure: the outputs that were moved, and the drafts that are left. -/
def leftOver (moved rest : List Staged) : List Path :=
  moved.map Staged.path ++ rest.map Staged.draft

theorem mem_leftOver {moved rest : List Staged} {p : Path} :
    p ∈ leftOver moved rest ↔ (∃ s ∈ moved, s.path = p) ∨ ∃ s ∈ rest, s.draft = p := by
  rw [leftOver, List.mem_append, List.mem_map, List.mem_map]

/-- The files after what is left over was removed. -/
def takenBack (moved rest : List Output) (w : World) : Volume :=
  (discardAll (m := StateM World)
    (leftOver (moved.map stagedOf) (rest.map stagedOf)) w).2.volume

theorem sheds_takenBack (moved rest : List Output) (w : World) :
    w.volume.Sheds (takenBack moved rest w)
      {location | ∃ p ∈ leftOver (moved.map stagedOf) (rest.map stagedOf),
        p.place w.volume.home = location} := (sheds_discardAll _ w).1

section

variable {moved rest : List Output} (htries : Tries v (moved ++ rest) refused v₁)
  (hdrafts : ∀ o ∈ moved, v₁.Admits (draftOf o.path))
  (hsettled : settle v₁ (moved.map stagedOf) = .ok w.volume)

include htries hdrafts hsettled

/-- What is there once the drafts of the first outputs were moved. -/
theorem settle_tries : v₁.Keeps w.volume ∧ w.volume.home = v.home ∧
    (∀ o ∈ moved, ∃ directory name, w.volume.Reaches o.path directory name) ∧
      w.volume.shape? = Layout.moveAll v₁.shape? (moved.map (moveOf v.home)) := by
  obtain ⟨hkeeps, hreaches, hshape⟩ := settle_eq_ok hsettled hdrafts
  rw [htries.keeps.home] at hshape
  exact ⟨hkeeps, hkeeps.home.trans htries.keeps.home, hreaches, hshape⟩

theorem keeps_takenBack : v₁.Keeps (takenBack moved rest w) :=
  (settle_tries htries hdrafts hsettled).1.trans (sheds_takenBack moved rest w).keeps

theorem shape?_destination_ne_file {o : Output} (ho : o ∈ moved) (contents : ByteArray) :
    (takenBack moved rest w).shape? (o.path.place v.home) ≠ some (.file contents) := by
  obtain ⟨-, hhome, hreaches, -⟩ := settle_tries htries hdrafts hsettled
  obtain ⟨directory, name, hpath⟩ := hreaches o ho
  rw [← hhome]
  exact shape?_discardAll_ne_file
    (mem_leftOver.2 (.inl ⟨stagedOf o, List.mem_map_of_mem ho, rfl⟩)) hpath contents

theorem shape?_draft_ne_file {o : Output} (ho : o ∈ moved ++ rest) (contents : ByteArray) :
    (takenBack moved rest w).shape? ((draftOf o.path).place v.home) ≠ some (.file contents) := by
  obtain ⟨hkeeps, hhome, -, hshape⟩ := settle_tries htries hdrafts hsettled
  rcases List.mem_append.1 ho with hmoved | hrest
  · -- the draft has left its place, where nothing is now but what was moved there
    by_cases harrived : ∃ o' ∈ moved, o'.path.place v.home = (draftOf o.path).place v.home
    · obtain ⟨o', ho', hplace⟩ := harrived
      rw [← hplace]
      exact shape?_destination_ne_file htries hdrafts hsettled ho' contents
    · intro hfile
      have hnone : w.volume.shape? ((draftOf o.path).place v.home) = none := by
        rw [hshape]
        refine Layout.moveAll_source ⟨_, List.mem_map_of_mem hmoved, rfl⟩ ?_ _
        exact List.forall_mem_map.2 fun o' ho' heq => harrived ⟨o', ho', heq⟩
      cases hnone.symm.trans ((sheds_takenBack moved rest w).shape?_of_file hfile)
  · obtain ⟨directory, name, hpath⟩ := htries.reaches o ho
    rw [← hhome]
    exact shape?_discardAll_ne_file
      (mem_leftOver.2 (.inr ⟨stagedOf o, List.mem_map_of_mem hrest, rfl⟩))
      (hkeeps.reaches hpath) contents

/-- Only drafts were moved, and only what was moved and drafts were removed. -/
theorem shape?_takenBack {location : Location}
    (hlocation : location ∉ touched v.home ((moved ++ rest).map stagedOf) (moved.map stagedOf)) :
    (takenBack moved rest w).shape? location = v₁.shape? location := by
  obtain ⟨-, hhome, -, hshape⟩ := settle_tries htries hdrafts hsettled
  obtain ⟨hsource, hdestination⟩ := not_or.1 hlocation
  have hkept : location ∉ {location | ∃ p ∈ leftOver (moved.map stagedOf) (rest.map stagedOf),
      p.place w.volume.home = location} := by
    rintro ⟨p, hp, hplace⟩
    rw [hhome] at hplace
    rcases mem_leftOver.1 hp with ⟨s, hs, rfl⟩ | ⟨s, hs, rfl⟩
    · exact hdestination ⟨s, hs, hplace⟩
    · refine hsource ⟨s, ?_, hplace⟩
      rw [List.map_append]
      exact List.mem_append_right _ hs
  rw [(sheds_takenBack moved rest w).shape?_of_not_mem hkept, hshape, Layout.moveAll_of_forall_ne]
  refine List.forall_mem_map.2 fun o ho => ⟨fun heq => hsource ?_, fun heq => hdestination ?_⟩
  · exact ⟨stagedOf o, List.mem_map_of_mem (List.mem_append_left rest ho), heq.symm⟩
  · exact ⟨stagedOf o, List.mem_map_of_mem ho, heq.symm⟩

theorem clears_takenBack : v.Clears (takenBack moved rest w)
    (touched v.home ((moved ++ rest).map stagedOf) (moved.map stagedOf))
    (spoiled v.home refused) := by
  have hcleared : ∀ location ∈ touched v.home ((moved ++ rest).map stagedOf) (moved.map stagedOf),
      ∀ contents, (takenBack moved rest w).shape? location ≠ some (.file contents) := by
    rintro location (⟨s, hs, rfl⟩ | ⟨s, hs, rfl⟩) contents
    · obtain ⟨o, ho, rfl⟩ := List.mem_map.1 hs
      exact shape?_draft_ne_file htries hdrafts hsettled ho contents
    · obtain ⟨o, ho, rfl⟩ := List.mem_map.1 hs
      exact shape?_destination_ne_file htries hdrafts hsettled ho contents
  have hsources : ∀ {location}, location ∉ touched v.home ((moved ++ rest).map stagedOf)
      (moved.map stagedOf) → ∀ o ∈ moved ++ rest, (draftOf o.path).place v.home ≠ location :=
    fun hlocation o ho heq => hlocation (.inl ⟨stagedOf o, List.mem_map_of_mem ho, heq⟩)
  refine ⟨htries.keeps.trans (keeps_takenBack htries hdrafts hsettled), hcleared, ?_, ?_⟩
  · intro location contents hfile
    have hlocation := fun hlocation => hcleared location hlocation contents hfile
    rw [shape?_takenBack htries hdrafts hsettled hlocation] at hfile
    exact htries.shape?_of_file (hsources hlocation) hfile
  · intro location hlocation hother contents hfile
    rw [shape?_takenBack htries hdrafts hsettled hlocation]
    exact htries.shape?_file (hsources hlocation) (fun r hr heq => hother ⟨r, hr, heq⟩) hfile

/-- The draft of an output that was refused is still missing in the end. -/
theorem isFile_refused {r : Refused} (hr : r ∈ refused) {t : Target}
    (ht : r.left.target (draftOf r.output.path) = .ok t) :
    (takenBack moved rest w).isFile (draftOf r.output.path) = false := by
  have hclears := clears_takenBack htries hdrafts hsettled
  have hkeeps := keeps_takenBack htries hdrafts hsettled
  have hbefore := (htries.keeps_left r hr).2.target ht
  refine Volume.isFile_eq_false_iff.2 fun contents hread => ?_
  obtain ⟨directory, name, hreaches, hfile⟩ := Volume.read_eq_ok_iff.1 hread
  have hreached := hkeeps.reaches_back hbefore hreaches
  have hlocation := fun hlocation => hclears.cleared (directory ++ [name]) hlocation contents hfile
  rw [shape?_takenBack htries hdrafts hsettled hlocation] at hfile
  obtain ⟨o, ho, hplace⟩ := htries.exists_place_eq hr ht
    (Volume.read_eq_ok_iff.2 ⟨directory, name, hreached, hfile⟩)
  refine hlocation (.inl ⟨stagedOf o, List.mem_map_of_mem ho, ?_⟩)
  rw [← hreaches.place_eq, hclears.keeps.home]
  exact hplace

end

/-- The second volume is what the first one has become after staged outputs were given up, some of
which had been moved into place. -/
structure RolledBack (v v' : Volume) (refused : List Refused) (staged moved : List Staged) : Prop where
  drafts : ∀ s ∈ staged, v'.isFile s.draft = false
  destinations : ∀ s ∈ moved, v'.isFile s.path = false
  /-- unless the path of the draft has led nowhere, so that nothing was written -/
  refusals : ∀ r ∈ refused, ∀ t, r.left.target (draftOf r.output.path) = .ok t →
    v'.isFile (draftOf r.output.path) = false
  /-- no file is new, and none has new contents -/
  old : ∀ p contents, v'.read p = .ok contents →
    v.root.at? (p.place v.home) = some (.file contents)
  paths : ∀ p t, v.target p = .ok t → p.place v.home ∉ touched v.home staged moved →
    p.place v.home ∉ spoiled v.home refused →
      ∀ contents, v'.read p = .ok contents ↔ v.read p = .ok contents
  files : ∀ location ∉ touched v.home staged moved, location ∉ spoiled v.home refused →
    ∀ contents,
      v'.root.at? location = some (.file contents) ↔ v.root.at? location = some (.file contents)
  directories : ∀ location, v.isDirectoryAt location = true → v'.isDirectoryAt location = true

theorem RolledBack.of_takenBack {moved rest : List Output}
    (htries : Tries v (moved ++ rest) refused v₁)
    (hdrafts : ∀ o ∈ moved, v₁.Admits (draftOf o.path))
    (hsettled : settle v₁ (moved.map stagedOf) = .ok w.volume) :
    RolledBack v (takenBack moved rest w) refused ((moved ++ rest).map stagedOf)
      (moved.map stagedOf) :=
  have hclears := clears_takenBack htries hdrafts hsettled
  { drafts s hs := hclears.isFile_eq_false (.inl ⟨s, hs, rfl⟩)
    destinations s hs := hclears.isFile_eq_false (.inr ⟨s, hs, rfl⟩)
    refusals r hr t ht := isFile_refused htries hdrafts hsettled hr ht
    old p contents hread := Node.shape?_eq_file_iff.1 (hclears.shape?_of_read hread)
    paths p t ht hp hother contents := hclears.read_iff ht hp hother
    files location hlocation hother contents := by
      rw [← Node.shape?_eq_file_iff, ← Node.shape?_eq_file_iff]
      exact hclears.shape?_eq_file_iff hlocation hother
    directories location hdirectory := Volume.isDirectoryAt_iff.2
      (hclears.keeps.directory location (Volume.isDirectoryAt_iff.1 hdirectory)) }

/-! ### Runs that fail -/

/-- Some drafts have been moved into place, and then the next one could not be moved. -/
def Stops (v : Volume) (staged moved : List Staged) (failure : Failure) : Prop :=
  ∃ s rest v' fault, staged = moved ++ s :: rest ∧ settle v moved = .ok v' ∧
    v'.rename s.draft s.path = .error fault ∧
      failure = failing ("Failed to move " ++ s.path ++ " into place") fault

theorem commitAfter_eq_error {done : List Path}
    (h : commitAfter (m := StateM World) done staged w = (.error failure, w')) :
    ∃ moved rest w₁, staged = moved ++ rest ∧ settle w.volume moved = .ok w₁.volume ∧
      Stops w.volume staged moved failure ∧
        w' = (discardAll (m := StateM World) (done ++ leftOver moved rest) w₁).2 := by
  induction staged generalizing done w with
  | nil => cases (Prod.mk.inj h).1
  | cons s staged ih =>
      rw [commitAfter] at h
      cases hrename : w.volume.rename s.draft s.path with
      | error fault =>
          rw [World.bind_eq (x := Host.rename _ _) (World.attempt_eq_error (·.rename _ _) hrename)] at h
          obtain ⟨hfailure, hw⟩ := Prod.mk.inj h
          exact ⟨[], s :: staged, w, rfl, rfl,
            ⟨s, staged, w.volume, fault, rfl, rfl, hrename, (Except.error.inj hfailure).symm⟩, hw.symm⟩
      | ok v =>
          rw [World.bind_eq (x := Host.rename _ _) (World.attempt_eq_ok (·.rename _ _) hrename)] at h
          obtain ⟨moved, rest, w₁, rfl, hsettled, ⟨s', rest', v', fault, hstaged, hstop⟩, hw⟩ :=
            ih (w := { w with volume := v, events := writtenEvent s.path :: w.events }) h
          have hbefore : settle w.volume (s :: moved) = settle v moved := by
            rw [settle, List.foldlM_cons, hrename]
            rfl
          refine ⟨s :: moved, rest, w₁, rfl, hbefore.trans hsettled,
            ⟨s', rest', v', fault, congrArg (List.cons s) hstaged, ?_⟩, ?_⟩
          · rwa [hbefore]
          · rw [hw, leftOver, leftOver, List.map_cons]
            simp only [List.append_assoc, List.cons_append, List.nil_append]

/-- Giving up what is staged takes everything back. -/
theorem rolledBack_abandon (htries : Tries v accepted refused w.volume) :
    RolledBack v (abandon (m := StateM World) (accepted.map stagedOf) w).2.volume refused
      (accepted.map stagedOf) [] := by
  have hnoneMoved : Tries v ([] ++ accepted) refused w.volume := htries
  exact .of_takenBack hnoneMoved (List.forall_mem_nil _) rfl

theorem rolledBack_commit (htries : Tries v accepted refused w.volume)
    (hdrafts : ∀ o ∈ accepted, w.volume.Admits (draftOf o.path))
    (h : commit (m := StateM World) (accepted.map stagedOf) w = (.error failure, w')) :
    ∃ moved, Stops w.volume (accepted.map stagedOf) moved failure ∧
      RolledBack v w'.volume refused (accepted.map stagedOf) moved := by
  obtain ⟨moved, rest, w₁, hstaged, hsettled, hstops, rfl⟩ := commitAfter_eq_error h
  obtain ⟨first, others, rfl, rfl, rfl⟩ := List.map_eq_append_iff.1 hstaged
  exact ⟨_, hstops, .of_takenBack htries
    (fun o ho => hdrafts o (List.mem_append_left others ho)) hsettled⟩

variable {stager : Output → StateM World (Except Failure Staged)}

/-- A run that fails takes everything back, either because an output is refused or because a draft
cannot be moved into place. -/
theorem rolledBack_of_writeAfter (hstager : WritesDrafts stager) (hrefuse : LeavesNothing stager)
    (h : writeAfter stager [] outputs w = (.error failure, w')) :
    (∃ done o rest w₁ w₂, outputs = done ++ o :: rest ∧ Accepts stager w done w₁ ∧
      stager o w₁ = (.error failure, w₂) ∧
        RolledBack w.volume w'.volume [⟨o, w₂.volume⟩] (done.map stagedOf) []) ∨
    ∃ w₁ moved, Accepts stager w outputs w₁ ∧
      Stops w₁.volume (outputs.map stagedOf) moved failure ∧
        RolledBack w.volume w'.volume [] (outputs.map stagedOf) moved := by
  rcases writeAfter_cases hstager h with
    ⟨done, o, rest, failure', w₁, w₂, rfl, hdone, hrefused, hfailure, rfl⟩ | ⟨w₁, hall, hcommit⟩
  · obtain rfl := Except.error.inj hfailure
    refine .inl ⟨done, o, rest, w₁, w₂, rfl, hdone, hrefused, ?_⟩
    obtain ⟨v, hroom, hsheds, hmissing⟩ := hrefuse hrefused
    have htries := (Tries.of_drafts (hdone.drafts hstager)).trans
      (.refuse hroom hsheds hmissing (.nil _))
    rw [List.append_nil, List.nil_append] at htries
    rw [List.nil_append]
    exact rolledBack_abandon htries
  · have hdrafts := hall.drafts hstager
    rw [List.nil_append] at hcommit
    obtain ⟨moved, hstops, hback⟩ := rolledBack_commit (.of_drafts hdrafts) hdrafts.admits hcommit
    exact .inr ⟨w₁, moved, hall, hstops, hback⟩

def worldOf (entries : List (Text × Node)) : World where
  volume := { root := .directory entries, home := [] }

/-- The second output belongs where the first one has its draft, and its path is spelled in another
way. -/
def respelled : List Output := [⟨"a", "X"⟩, ⟨"./a.partial", "Y"⟩]

end Staging

end FeatureGuard

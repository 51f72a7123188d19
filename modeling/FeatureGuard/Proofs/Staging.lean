import Mathlib
import FeatureGuard.Proofs.Volume.Growth
import FeatureGuard.Staging

/-!
Writing staged outputs. A run that succeeds has written the drafts of all outputs, one after the
other, and has then moved them into place, one after the other. All outputs arrive with their
contents exactly when no draft stands where an earlier output belongs: such a draft is lost before it
is moved, and the earlier output is moved on in its place.
-/

namespace FeatureGuard

namespace World

variable {w w' : World}

theorem eq_ok_of_attempt {operation : Volume → Except Fault Volume} {u : Unit}
    (h : attempt operation w = (.ok u, w')) : operation w.volume = .ok w'.volume := by
  rw [attempt] at h
  split at h
  · rename_i volume hvolume
    obtain ⟨-, rfl⟩ := Prod.mk.inj h
    exact hvolume
  · cases h

/-- A run that succeeds has succeeded in its first part, where it gives up if that fails. -/
theorem exists_of_bind_eq_ok {ε ε' α β : Type} {x : StateM World (Except ε α)}
    {f : Except ε α → StateM World (Except ε' β)} {b : β} (h : (x >>= f) w = (.ok b, w'))
    (hfail : ∀ e w, (f (.error e) w).1 ≠ .ok b) :
    ∃ a w₁, x w = (.ok a, w₁) ∧ f (.ok a) w₁ = (.ok b, w') := by
  rcases hx : x w with ⟨e | a, w₁⟩
  · have hrun : f (.error e) w₁ = (.ok b, w') := by
      rw [← h]
      show _ = f (x w).1 (x w).2
      rw [hx]
    exact absurd (by rw [hrun]) (hfail e w₁)
  · refine ⟨a, w₁, rfl, ?_⟩
    rw [← h]
    show _ = f (x w).1 (x w).2
    rw [hx]

/-- A write that was answered well has written everything. -/
theorem eq_ok_of_write {p : Path} {contents : ByteArray} {u : Unit}
    (h : write p contents w = (.ok u, w')) : w.volume.write p contents = .ok w'.volume := by
  rw [write] at h
  cases hbreak : w.breaks.head?.join with
  | none =>
      simp only [hbreak] at h
      exact eq_ok_of_attempt (w := { w with breaks := w.breaks.tail }) h
  | some b =>
      simp only [hbreak] at h
      split at h
      · cases (Prod.mk.inj h).1
      · cases (Prod.mk.inj h).1

theorem exists_eq_of_fst {α : Type} {run : α × World} {a : α} (h : run.1 = a) :
    ∃ w, run = (a, w) := ⟨run.2, Prod.ext h rfl⟩

end World

namespace Staging

variable {o : Output} {s : Staged} {outputs : List Output} {staged : List Staged} {w w' : World}

theorem makesRoom_makeRoom (p : Path) :
    MakesRoom (makeRoom p : StateM World (Except Failure Unit)) := by
  rw [makeRoom]
  split
  · exact .pure _
  · exact (MakesRoom.makePath _).bind fun _ => .pure _

/-- A draft that was written stands in a directory, which was made if it was missing. -/
theorem writeDraft_eq_ok (h : writeDraft (m := StateM World) o w = (.ok (), w')) :
    ∃ v, w.volume.Grows v ∧
      v.write (draftOf o.path) (Text.toBytes o.contents) = .ok w'.volume := by
  rw [writeDraft] at h
  obtain ⟨⟨⟩, w₁, hroom, h⟩ := World.exists_of_bind_eq_ok h fun _ _ => nofun
  obtain ⟨⟨⟩, w₂, hwritten, h⟩ := World.exists_of_bind_eq_ok h fun _ _ => nofun
  refine ⟨w₁.volume, ?_, ?_⟩
  · have hgrows := makesRoom_makeRoom o.path w
    rw [hroom] at hgrows
    exact hgrows.volume
  · have hdraft := World.eq_ok_of_write hwritten
    -- the event that is recorded leaves the files as they are
    obtain ⟨-, rfl⟩ := Prod.mk.inj h
    exact hdraft

theorem stage_eq_ok (h : stage (m := StateM World) o w = (.ok s, w')) :
    s = ⟨o.path, draftOf o.path⟩ ∧ writeDraft (m := StateM World) o w = (.ok (), w') := by
  rw [stage] at h
  obtain ⟨⟨⟩, w₁, hwritten, h⟩ := World.exists_of_bind_eq_ok h fun _ _ => nofun
  obtain ⟨hs, rfl⟩ := Prod.mk.inj h
  exact ⟨(Except.ok.inj hs).symm, hwritten⟩

/-! ### Runs that succeed -/

/-- What staging does to the files: for one output after the other, room is made for it, and its draft
is written. -/
inductive Drafts : Volume → List Output → Volume → Prop
  | nil (v : Volume) : Drafts v [] v
  | cons {v v₁ v₂ v₃ : Volume} {o : Output} {outputs : List Output} (room : v.Grows v₁)
      (written : v₁.write (draftOf o.path) (Text.toBytes o.contents) = .ok v₂)
      (rest : Drafts v₂ outputs v₃) : Drafts v (o :: outputs) v₃

/-- What committing does to the files: one draft after the other is renamed. -/
def settle (v : Volume) (staged : List Staged) : Except Fault Volume :=
  staged.foldlM (fun v s => v.rename s.draft s.path) v

theorem commitAfter_eq_ok {done : List Path}
    (h : commitAfter (m := StateM World) done staged w = (.ok (), w')) :
    settle w.volume staged = .ok w'.volume := by
  induction staged generalizing done w with
  | nil =>
      obtain ⟨-, rfl⟩ := Prod.mk.inj h
      rfl
  | cons s staged ih =>
      rw [commitAfter] at h
      obtain ⟨⟨⟩, w₁, hrenamed, h⟩ := World.exists_of_bind_eq_ok h fun _ _ => nofun
      have hrename : w.volume.rename s.draft s.path = .ok w₁.volume := World.eq_ok_of_attempt hrenamed
      rw [settle, List.foldlM_cons, hrename]
      -- the event that is recorded leaves the files as they are
      exact ih (w := { w₁ with events := writtenEvent s.path :: w₁.events }) h

def stagedOf (o : Output) : Staged := ⟨o.path, draftOf o.path⟩

/-- A way of staging outputs that writes their drafts, like `stage`. -/
def WritesDrafts (stager : Output → StateM World (Except Failure Staged)) : Prop :=
  ∀ {o s w w'}, stager o w = (.ok s, w') → s = stagedOf o ∧
    ∃ v, w.volume.Grows v ∧ v.write (draftOf o.path) (Text.toBytes o.contents) = .ok w'.volume

theorem writesDrafts_stage : WritesDrafts stage := by
  intro o s w w' h
  obtain ⟨hs, hdraft⟩ := stage_eq_ok h
  exact ⟨hs, writeDraft_eq_ok hdraft⟩

/-- Outputs are staged one after the other, and none is refused. -/
inductive Accepts (stager : Output → StateM World (Except Failure Staged)) :
    World → List Output → World → Prop
  | nil (w : World) : Accepts stager w [] w
  | cons {w w₁ w₂ : World} {o : Output} {outputs : List Output}
      (accepted : stager o w = (.ok (stagedOf o), w₁)) (rest : Accepts stager w₁ outputs w₂) :
      Accepts stager w (o :: outputs) w₂

variable {stager : Output → StateM World (Except Failure Staged)}

theorem Accepts.drafts (h : Accepts stager w outputs w') (hstager : WritesDrafts stager) :
    Drafts w.volume outputs w'.volume := by
  induction h with
  | nil w => exact .nil _
  | cons accepted rest ih =>
      obtain ⟨-, v, hroom, hwritten⟩ := hstager accepted
      exact .cons hroom hwritten ih

/-- Either one of the outputs is refused, and those that are staged are given up, or all of them are
staged, and then moved into place. -/
theorem writeAfter_cases (hstager : WritesDrafts stager) {result : Except Failure Unit}
    (h : writeAfter stager staged outputs w = (result, w')) :
    (∃ done o rest failure w₁ w₂, outputs = done ++ o :: rest ∧ Accepts stager w done w₁ ∧
      stager o w₁ = (.error failure, w₂) ∧ result = .error failure ∧
        w' = (abandon (m := StateM World) (staged ++ done.map stagedOf) w₂).2) ∨
    ∃ w₁, Accepts stager w outputs w₁ ∧
      commit (m := StateM World) (staged ++ outputs.map stagedOf) w₁ = (result, w') := by
  induction outputs generalizing staged w with
  | nil =>
      rw [List.map_nil, List.append_nil]
      exact .inr ⟨w, .nil w, h⟩
  | cons o outputs ih =>
      rw [writeAfter] at h
      rcases hstage : stager o w with ⟨failure | s, w₁⟩
      · rw [World.bind_eq hstage] at h
        obtain ⟨hresult, hw⟩ := Prod.mk.inj h
        refine .inl ⟨[], o, outputs, failure, w, w₁, rfl, .nil w, hstage, hresult.symm, ?_⟩
        rw [List.map_nil, List.append_nil]
        exact hw.symm
      · rw [World.bind_eq hstage] at h
        obtain ⟨rfl, -⟩ := hstager hstage
        rcases ih h with ⟨done, o', rest, failure, w₂, w₃, rfl, hdone, hrefused, hresult, hw⟩ |
          ⟨w₂, hall, hcommit⟩
        · refine .inl ⟨o :: done, o', rest, failure, w₂, w₃, rfl, .cons hstage hdone, hrefused,
            hresult, ?_⟩
          rwa [List.append_assoc] at hw
        · refine .inr ⟨w₂, .cons hstage hall, ?_⟩
          rwa [List.append_assoc] at hcommit

theorem writeAfter_eq_ok (hstager : WritesDrafts stager)
    (h : writeAfter stager staged outputs w = (.ok (), w')) :
    ∃ v, Drafts w.volume outputs v ∧ settle v (staged ++ outputs.map stagedOf) = .ok w'.volume := by
  rcases writeAfter_cases hstager h with ⟨-, -, -, failure, -, -, -, -, -, hresult, -⟩ |
    ⟨w₁, hall, hcommit⟩
  · cases hresult
  · exact ⟨w₁.volume, hall.drafts hstager, commitAfter_eq_ok hcommit⟩

/-! ### Drafts -/

variable {v v' : Volume}

/-- The place of the draft of an output, and the place where the output belongs. -/
def moveOf (home : Location) (o : Output) : Move :=
  ⟨(draftOf o.path).place home, o.path.place home⟩

namespace Drafts

theorem keeps (h : Drafts v outputs v') : v.Keeps v' := by
  induction h with
  | nil v => exact .refl v
  | cons room written rest ih => exact (room.keeps.trans (.of_write written)).trans ih

/-- Only drafts are written. -/
theorem shape?_eq_file_iff (h : Drafts v outputs v') {location : Location} {contents : ByteArray}
    (hne : ∀ o ∈ outputs, location ≠ (moveOf v.home o).source) :
    v'.shape? location = some (.file contents) ↔ v.shape? location = some (.file contents) := by
  induction h with
  | nil v => exact Iff.rfl
  | @cons v v₁ v₂ v₃ o outputs room written rest ih =>
      obtain ⟨ho, houtputs⟩ := List.forall_mem_cons.1 hne
      obtain ⟨-, hhome, hshape⟩ := Volume.write_eq_ok written
      rw [ih (by rwa [hhome, room.home]), hshape, Function.update_of_ne (by rwa [room.home]),
        room.shape?_eq_file_iff]

/-- Where a draft was written, the last one that was written there stands. -/
theorem exists_shape?_eq_file (h : Drafts v outputs v') : ∀ o ∈ outputs, ∃ o' ∈ outputs,
    (moveOf v.home o').source = (moveOf v.home o).source ∧
      v'.shape? (moveOf v.home o).source = some (.file (Text.toBytes o'.contents)) := by
  induction h with
  | nil v => simp
  | @cons v v₁ v₂ v₃ o outputs room written rest ih =>
      obtain ⟨-, hhome, hshape⟩ := Volume.write_eq_ok written
      rw [room.home] at hhome hshape
      rw [hhome] at ih
      have hlater : ∀ o₁ : Output, (∃ o₂ ∈ outputs,
          (moveOf v.home o₂).source = (moveOf v.home o₁).source) → ∃ o' ∈ o :: outputs,
            (moveOf v.home o').source = (moveOf v.home o₁).source ∧
              v₃.shape? (moveOf v.home o₁).source = some (.file (Text.toBytes o'.contents)) := by
        rintro o₁ ⟨o₂, ho₂, hsame⟩
        obtain ⟨o', ho', hsource, hfile⟩ := ih o₂ ho₂
        rw [hsame] at hsource hfile
        exact ⟨o', List.mem_cons_of_mem o ho', hsource, hfile⟩
      refine List.forall_mem_cons.2 ⟨?_, fun o₁ ho₁ => hlater o₁ ⟨o₁, ho₁, rfl⟩⟩
      -- a later draft at the same place is the one that counts
      by_cases hagain : ∃ o₂ ∈ outputs, (moveOf v.home o₂).source = (moveOf v.home o).source
      · exact hlater o hagain
      · refine ⟨o, List.mem_cons_self, rfl, ?_⟩
        have hne : ∀ o₂ ∈ outputs, (moveOf v.home o).source ≠ (moveOf v₂.home o₂).source := by
          rw [hhome]
          exact fun o₂ ho₂ heq => hagain ⟨o₂, ho₂, heq.symm⟩
        rw [rest.shape?_eq_file_iff hne, hshape]
        exact Function.update_self ..

/-- Where drafts stand apart, each one has the contents of its own output. -/
theorem shape?_source (h : Drafts v outputs v')
    (hsources : (outputs.map fun o => (moveOf v.home o).source).Nodup) :
    ∀ o ∈ outputs, v'.shape? (moveOf v.home o).source =
      some (.file (Text.toBytes o.contents)) := by
  intro o ho
  obtain ⟨o', ho', hsource, hfile⟩ := h.exists_shape?_eq_file o ho
  rwa [List.inj_on_of_nodup_map hsources ho' ho hsource] at hfile

theorem reaches (h : Drafts v outputs v') :
    ∀ o ∈ outputs, ∃ directory name, v'.Reaches (draftOf o.path) directory name := by
  induction h with
  | nil v => simp
  | cons room written rest ih =>
      refine List.forall_mem_cons.2 ⟨?_, ih⟩
      obtain ⟨directory, name, hreaches⟩ := (Volume.write_eq_ok written).1.reaches
      exact ⟨directory, name, ((Volume.Keeps.of_write written).trans rest.keeps).reaches hreaches⟩

theorem admits (h : Drafts v outputs v') : ∀ o ∈ outputs, v'.Admits (draftOf o.path) := by
  intro o ho
  refine ⟨h.reaches o ho, ?_⟩
  obtain ⟨o', -, -, hfile⟩ := h.exists_shape?_eq_file o ho
  rw [h.keeps.home]
  show v'.shape? (moveOf v.home o).source ≠ _
  rw [hfile]
  simp

end Drafts

/-! ### Moving drafts into place -/

theorem settle_eq_ok (h : settle v (outputs.map stagedOf) = .ok v')
    (hdrafts : ∀ o ∈ outputs, v.Admits (draftOf o.path)) :
    v.Keeps v' ∧ (∀ o ∈ outputs, ∃ directory name, v'.Reaches o.path directory name) ∧
      v'.shape? = Layout.moveAll v.shape? (outputs.map (moveOf v.home)) := by
  induction outputs generalizing v with
  | nil =>
      obtain rfl := Except.ok.inj h
      exact ⟨.refl v, by simp, rfl⟩
  | cons o outputs ih =>
      obtain ⟨ho, houtputs⟩ := List.forall_mem_cons.1 hdrafts
      rw [settle, List.map_cons, List.foldlM_cons] at h
      obtain ⟨v₁, hrename, h⟩ := Volume.exists_of_bind_eq_ok h
      obtain ⟨hadmits, hhome, hshape⟩ := Volume.rename_eq_ok hrename ho
      obtain ⟨directory, name, hreaches⟩ := hadmits.reaches
      have hkeeps := Volume.Keeps.of_rename hrename ho
      obtain ⟨hkeeps', hothers, hmoved⟩ :=
        ih h fun o' ho' => (houtputs o' ho').of_rename hrename ho
      refine ⟨hkeeps.trans hkeeps', ?_, ?_⟩
      · exact List.forall_mem_cons.2
          ⟨⟨directory, name, (hkeeps.trans hkeeps').reaches hreaches⟩, hothers⟩
      · rw [hmoved, hhome, hshape, List.map_cons, Layout.moveAll_cons]
        rfl

/-! ### Outputs that are all written -/

theorem exists_place_draftOf {p : Path} {n : Text} (h : p.endName? = some n) (home : Location) :
    ∃ directory, p.place home = directory ++ [n] ∧
      (draftOf p).place home = directory ++ [n ++ ".partial"] := by
  obtain ⟨hn, hup, hslash, before, hsplit⟩ := Path.exists_of_endName? h
  rw [draftOf, Path.fileName?_eq hsplit hn hup]
  have hne : ∀ t : Text, t.length < 8 → n ++ (".partial" : Text) ≠ t := by
    rintro t hshort rfl
    have hlength : (".partial" : Text).length = 8 := rfl
    rw [List.length_append, hlength] at hshort
    omega
  refine Path.place_withFileName h ?_ ?_ (hne _ (by decide))
  · rw [Option.getD_some, List.mem_append]
    exact not_or.2 ⟨hslash, by decide⟩
  · rw [Option.getD_some, Path.isIdle, decide_eq_false (hne _ (by decide)),
      decide_eq_false (hne _ (by decide)), Bool.or_false]

/-- Outputs that go to different places have drafts at different places. -/
theorem nodup_sources {home : Location} (hnames : ∀ o ∈ outputs, o.path.endName? ≠ none)
    (hdistinct : (outputs.map fun o => o.path.place home).Nodup) :
    ((outputs.map (moveOf home)).map Move.source).Nodup := by
  rw [List.map_map, List.Nodup, List.pairwise_map]
  rw [List.Nodup, List.pairwise_map] at hdistinct
  refine hdistinct.imp_of_mem fun {o o'} ho ho' hne heq => hne ?_
  obtain ⟨n, hn⟩ := Option.ne_none_iff_exists'.1 (hnames o ho)
  obtain ⟨n', hn'⟩ := Option.ne_none_iff_exists'.1 (hnames o' ho')
  obtain ⟨directory, hplace, hdraft⟩ := exists_place_draftOf hn home
  obtain ⟨directory', hplace', hdraft'⟩ := exists_place_draftOf hn' home
  have heq : directory ++ [n ++ ".partial"] = directory' ++ [n' ++ ".partial"] := by
    rw [← hdraft, ← hdraft']
    exact heq
  obtain ⟨rfl, hname⟩ := List.append_inj' heq rfl
  have hname : n ++ ".partial" = n' ++ ".partial" := List.singleton_inj.1 hname
  rw [hplace, hplace', List.append_cancel_right hname]

/-- The second volume has become of the first one where outputs were written. -/
structure Written (v v' : Volume) (outputs : List Output) : Prop where
  complete_iff : (∀ o ∈ outputs, v'.read o.path = .ok (Text.toBytes o.contents)) ↔
    outputs.Pairwise fun o o' => (draftOf o'.path).place v.home ≠ o.path.place v.home
  drafts : ∀ o ∈ outputs, (∀ o' ∈ outputs, o'.path.place v.home ≠ (draftOf o.path).place v.home) →
    v'.node (draftOf o.path) = .error .notFound
  others : ∀ location,
    (∀ o ∈ outputs, location ≠ (draftOf o.path).place v.home ∧ location ≠ o.path.place v.home) →
      ∀ contents, v'.root.at? location = some (.file contents) ↔
        v.root.at? location = some (.file contents)

theorem Drafts.written {v₁ : Volume} (hstaged : Drafts v outputs v₁)
    (hsettled : settle v₁ (outputs.map stagedOf) = .ok v')
    (hdistinct : (outputs.map fun o => o.path.place v.home).Nodup) : Written v v' outputs := by
  obtain ⟨hkeeps, hreaches, hshape⟩ := settle_eq_ok hsettled hstaged.admits
  have hhome : v₁.home = v.home := hstaged.keeps.home
  have hhome' : v'.home = v.home := hkeeps.home.trans hhome
  rw [hhome] at hshape
  have hsources : ((outputs.map (moveOf v.home)).map Move.source).Nodup := by
    refine nodup_sources (fun o ho => ?_) hdistinct
    obtain ⟨directory, name, hpath⟩ := hreaches o ho
    rw [hpath.endName?_eq]
    simp
  have hdestinations : ((outputs.map (moveOf v.home)).map Move.destination).Nodup := by
    rwa [List.map_map]
  have hdraft := hstaged.shape?_source (by rwa [List.map_map] at hsources)
  have hread : ∀ o ∈ outputs, v'.read o.path = .ok (Text.toBytes o.contents) ↔
      Layout.moveAll v₁.shape? (outputs.map (moveOf v.home))
        (moveOf v.home o).destination = v₁.shape? (moveOf v.home o).source := by
    intro o ho
    obtain ⟨directory, name, hpath⟩ := hreaches o ho
    rw [hpath.read_eq_ok_iff, hhome', hshape, hdraft o ho]
    rfl
  -- the outputs, the drafts, and all other files
  refine ⟨?_, fun o ho hapart => ?_, fun location hlocation contents => ?_⟩
  · have hfilled : ∀ m ∈ outputs.map (moveOf v.home), v₁.shape? m.source ≠ none := by
      refine List.forall_mem_map.2 fun o ho => ?_
      rw [hdraft o ho]
      simp
    have hall := Layout.moveAll_destination_iff hsources hdestinations hfilled
    rw [List.forall_mem_map, Layout.Apart, List.pairwise_map] at hall
    rw [forall₂_congr hread]
    exact hall
  · obtain ⟨directory, name, hpath⟩ := hstaged.reaches o ho
    rw [(hkeeps.reaches hpath).node_eq_notFound_iff, hhome', hshape]
    refine Layout.moveAll_source ⟨_, List.mem_map_of_mem ho, rfl⟩ ?_ _
    exact List.forall_mem_map.2 hapart
  · rw [← Node.shape?_eq_file_iff, ← Node.shape?_eq_file_iff]
    show v'.shape? location = _ ↔ v.shape? location = _
    rw [hshape, Layout.moveAll_of_forall_ne (List.forall_mem_map.2 hlocation),
      hstaged.shape?_eq_file_iff fun o ho => (hlocation o ho).1]

/-- Where writing outputs to different places succeeds, all of them have been written exactly when
none of them has its draft at the place of an earlier one. In any case no draft is left except where
an output belongs, and no other file has changed. -/
theorem writeAll_complete_iff (h : writeAll (m := StateM World) outputs w = (.ok (), w'))
    (hdistinct : (outputs.map fun o => o.path.place w.volume.home).Nodup) :
    ((∀ o ∈ outputs, w'.volume.read o.path = .ok (Text.toBytes o.contents)) ↔
      outputs.Pairwise fun o o' =>
        (draftOf o'.path).place w.volume.home ≠ o.path.place w.volume.home) ∧
    (∀ o ∈ outputs,
      (∀ o' ∈ outputs, o'.path.place w.volume.home ≠ (draftOf o.path).place w.volume.home) →
        w'.volume.node (draftOf o.path) = .error .notFound) ∧
    ∀ location, (∀ o ∈ outputs, location ≠ (draftOf o.path).place w.volume.home ∧
        location ≠ o.path.place w.volume.home) →
      ∀ contents, w'.volume.root.at? location = some (.file contents) ↔
        w.volume.root.at? location = some (.file contents) := by
  obtain ⟨v, hstaged, hsettled⟩ := writeAfter_eq_ok writesDrafts_stage h
  rw [List.nil_append] at hsettled
  have hwritten := hstaged.written hsettled hdistinct
  exact ⟨hwritten.complete_iff, hwritten.drafts, hwritten.others⟩

/-- The draft of the first output stands where the second one belongs. -/
def nested : List Output := [⟨"out/a", "X"⟩, ⟨"out/a.partial", "Y"⟩]

def nestedWorld : World where
  volume := { root := .directory [("kept", .file (Text.toBytes "Z"))], home := [] }

theorem writeAll_complete_nested : ∃ w',
    writeAll (m := StateM World) nested nestedWorld = (.ok (), w') ∧
      (nested.map fun o => o.path.place nestedWorld.volume.home).Nodup ∧
        (∀ o ∈ nested, w'.volume.read o.path = .ok (Text.toBytes o.contents)) ∧
          w'.volume.node (draftOf "out/a.partial") = .error .notFound ∧
            w'.volume.root.at? ["kept"] = some (.file (Text.toBytes "Z")) := by
  have hok : (writeAll (m := StateM World) nested nestedWorld).1 = .ok () := by cbv
  obtain ⟨w', hrun⟩ := World.exists_eq_of_fst hok
  have hdistinct : (nested.map fun o => o.path.place nestedWorld.volume.home).Nodup := by decide
  obtain ⟨hall, hgone, hother⟩ := writeAll_complete_iff hrun hdistinct
  refine ⟨w', hrun, hdistinct, hall.2 (by decide), ?_, ?_⟩
  · exact hgone ⟨"out/a.partial", "Y"⟩ (by decide) (by decide)
  · exact (hother ["kept"] (by decide) (Text.toBytes "Z")).2 rfl

/-- The draft of the second output stands where the first one belongs, and takes its place before it is
moved on: one output is lost, and the other one has the contents of the first. -/
def colliding : List Output := [⟨"a.partial", "Y"⟩, ⟨"a", "X"⟩]

def emptyWorld : World where
  volume := { root := .directory [], home := [] }

theorem writeAll_loses_output :
    (colliding.map fun o => o.path.place emptyWorld.volume.home).Nodup ∧
      (writeAll (m := StateM World) colliding emptyWorld).1 = .ok () ∧
        let left := (writeAll (m := StateM World) colliding emptyWorld).2.volume
        left.node "a.partial" = .error .notFound ∧ left.read "a" = .ok (Text.toBytes "Y") := by
  refine ⟨by decide, by cbv, ?_, ?_⟩
  · cbv
  · cbv

end Staging

end FeatureGuard

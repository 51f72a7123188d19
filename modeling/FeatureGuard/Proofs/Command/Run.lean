import FeatureGuard.Command.Run
import FeatureGuard.Proofs.Log.Setup
import FeatureGuard.Proofs.Settings.Load
import FeatureGuard.Proofs.Staging.Rollback

/-!
Whole runs. A run that ends well has written what the definitions compile to, and a run that fails has
left nothing behind but directories and an empty log. What the definitions compile to is said by the
compiler alone: what is reported on the way has no part in it.
-/

namespace FeatureGuard

open Staging

namespace Command

variable {formats : List Settings.Format} {arguments : List Text} {i : Invocation} {s : Settings}
  {w w' : World} {trouble : Trouble} {files : Artifacts}

/-! ### What is compiled -/

/-- The text of the definitions, or why it cannot be read. -/
def textIn (v : Volume) (p : Path) : Except Trouble Text :=
  match v.read p with
  | .error fault => .error (.reading p fault)
  | .ok bytes =>
    match Text.ofBytes? bytes with
    | some t => .ok t
    | none => .error (.reading p .notText)

/-- What the files of an invocation show. -/
def Invocation.options (i : Invocation) (s : Settings) (w : World) : Options :=
  s.options (definitionsName i.definitions)
    (s.provenance.timestamp.resolve w.clock (Keyed.get? pinVariable w.environment))

/-- What the definitions of an invocation compile to. -/
def compiled (i : Invocation) (o : Options) (v : Volume) : Except Trouble Artifacts := do
  (compile (← textIn v i.definitions) o).mapError (.generation ∘ .rejected)

/-- The outputs of an invocation, the header first. -/
def Invocation.outputs (i : Invocation) (files : Artifacts) : List Output :=
  [⟨i.header, files.header⟩, ⟨i.source, files.source⟩]

theorem readText_eq (p : Path) (w : World) :
    readText (m := StateM World) p w = (textIn w.volume p, w) := by
  have hread : Host.read (m := StateM World) p w = (w.volume.read p, w) := rfl
  rw [readText, World.bind_eq hread, textIn]
  cases w.volume.read p with
  | error fault => rfl
  | ok bytes =>
      simp only
      cases Text.ofBytes? bytes <;> rfl

theorem recordAll_eq (events : List Log.Event) (w : World) :
    recordAll (m := StateM World) events w =
      ((), { w with events := events.reverse ++ w.events }) := by
  induction events generalizing w with
  | nil => rfl
  | cons e events ih =>
      rw [recordAll, World.bind_eq (x := Host.record e) rfl, ih, List.reverse_cons,
        List.append_assoc]
      rfl

/-- Definitions are settled as they are where nothing is reported. -/
theorem settleReported_eq (t : Text) (w : World) :
    ∃ events, settleReported (m := StateM World) t w = (settleText t, { w with events }) := by
  rw [settleReported, settleText]
  cases Document.read t with
  | error errors => exact ⟨w.events, rfl⟩
  | ok rules =>
      refine ⟨(Report.settling rules.settle).reverse ++ Report.rulesRead rules :: w.events, ?_⟩
      simp only
      rw [World.bind_eq (x := Host.record (Report.rulesRead rules)) rfl,
        World.bind_eq (recordAll_eq _ _)]
      rfl

/-- Files are written as definitions compile to them, and nothing else is done to the files. -/
theorem generate_eq (i : Invocation) (s : Settings) (w : World) : ∃ w₁, w₁.volume = w.volume ∧
    generate (m := StateM World) i s w = match compiled i (i.options s w) w.volume with
      | .error trouble => (.error trouble, w₁)
      | .ok files =>
        let run := writeAfter (m := StateM World) stageAloud [] (i.outputs files) w₁
        (run.1.mapError .generation, run.2) := by
  let greeted : World :=
    { w with said := w.said ++ ("Reading definitions from " ++ i.definitions ++ "...\n") }
  have hread : readText (m := StateM World) i.definitions greeted =
    (textIn w.volume i.definitions, greeted) := readText_eq i.definitions greeted
  rw [generate, World.bind_eq (x := Host.say _) rfl, World.bind_eq hread, compiled]
  cases textIn w.volume i.definitions with
  | error unread => exact ⟨greeted, rfl, rfl⟩
  | ok t =>
      obtain ⟨events, hsettle⟩ := settleReported_eq t greeted
      simp only [bind, Except.bind]
      rw [compile]
      cases hsettled : settleText t with
      | error rejection =>
          rw [hsettled] at hsettle
          exact ⟨{ greeted with events }, rfl, World.bind_eq hsettle _⟩
      | ok settlement =>
          rw [hsettled] at hsettle
          let stamped : World :=
            { greeted with
              said := greeted.said ++ "Done.\n"
              events := Report.stampResolved s.provenance.timestamp
                (Keyed.get? pinVariable w.environment).isSome :: events }
          exact ⟨stamped, rfl, (World.bind_eq hsettle _).trans rfl⟩

/-! ### What is written -/

/-- Staging an output aloud does the same to the files as staging it. -/
theorem exists_stage_of_stageAloud {o : Output} {result : Except Failure Staged}
    (h : stageAloud (m := StateM World) o w = (result, w')) : ∃ w₁ w₂, w₁.volume = w.volume ∧
      stage (m := StateM World) o w₁ = (result, w₂) ∧ w₂.volume = w'.volume := by
  let announced : World := { w with said := w.said ++ ("Writing " ++ o.path ++ "...\n") }
  refine ⟨announced, (stage (m := StateM World) o announced).2, rfl, ?_⟩
  rw [stageAloud, World.bind_eq (x := Host.say _) rfl] at h
  rcases hstage : stage (m := StateM World) o announced with ⟨failure | staged, w₂⟩
  · rw [World.bind_eq hstage] at h
    obtain ⟨rfl, rfl⟩ := Prod.mk.inj h
    exact ⟨rfl, rfl⟩
  · rw [World.bind_eq hstage] at h
    obtain ⟨rfl, rfl⟩ := Prod.mk.inj h
    exact ⟨rfl, rfl⟩

theorem writesDrafts_stageAloud : WritesDrafts stageAloud := by
  intro o staged w w' h
  obtain ⟨w₁, w₂, hbefore, hstage, hafter⟩ := exists_stage_of_stageAloud h
  rw [← hbefore, ← hafter]
  exact writesDrafts_stage hstage

theorem leavesNothing_stageAloud : LeavesNothing stageAloud := by
  intro o failure w w' h
  obtain ⟨w₁, w₂, hbefore, hstage, hafter⟩ := exists_stage_of_stageAloud h
  rw [← hbefore, ← hafter]
  exact stage_eq_error hstage

/-- Where files belong, and where their drafts are. -/
def placesOf (home : Location) (paths : List Path) : Set Location :=
  {location | ∃ p ∈ paths, p.place home = location ∨ (draftOf p).place home = location}

/-- In the second volume no file is new, and none has changed except at certain places. -/
structure Undone (v v' : Volume) (places : Set Location) : Prop where
  old : ∀ p contents, v'.read p = .ok contents → v.shape? (p.place v.home) = some (.file contents)
  kept : ∀ location ∉ places, ∀ contents, v.shape? location = some (.file contents) →
    v'.shape? location = some (.file contents)

theorem Undone.refl (v : Volume) (places : Set Location) : Undone v v places :=
  ⟨fun _ _ => Volume.shape?_of_read, fun _ _ _ hfile => hfile⟩

theorem undone_of_rolledBack {outputs : List Output} {v v' : Volume} {refused : List Refused}
    {staged moved : List Staged} (h : RolledBack v v' refused staged moved)
    (hstaged : ∀ s ∈ staged ++ moved, s ∈ outputs.map stagedOf)
    (hrefused : ∀ r ∈ refused, r.output ∈ outputs) :
    Undone v v' (placesOf v.home (outputs.map Output.path)) where
  old p contents hread := Node.shape?_eq_file_iff.2 (h.old p contents hread)
  kept location hlocation contents hfile := by
    refine Node.shape?_eq_file_iff.2 ((h.files location ?_ ?_ contents).2
      (Node.shape?_eq_file_iff.1 hfile))
    · rintro (⟨s, hs, hplace⟩ | ⟨s, hs, hplace⟩)
      · obtain ⟨o, ho, rfl⟩ := List.mem_map.1 (hstaged s (List.mem_append_left _ hs))
        exact hlocation ⟨o.path, List.mem_map_of_mem ho, .inr hplace⟩
      · obtain ⟨o, ho, rfl⟩ := List.mem_map.1 (hstaged s (List.mem_append_right _ hs))
        exact hlocation ⟨o.path, List.mem_map_of_mem ho, .inl hplace⟩
    · rintro ⟨r, hr, hplace⟩
      exact hlocation ⟨r.output.path, List.mem_map_of_mem (hrefused r hr), .inr hplace⟩

theorem undone_of_writeAfter {outputs : List Output} {failure : Failure}
    (h : writeAfter (m := StateM World) stageAloud [] outputs w = (.error failure, w')) :
    Undone w.volume w'.volume (placesOf w.volume.home (outputs.map Output.path)) := by
  rcases rolledBack_of_writeAfter writesDrafts_stageAloud leavesNothing_stageAloud h with
    ⟨done, o, rest, w₁, w₂, rfl, -, -, hback⟩ | ⟨w₁, moved, -, ⟨s, rest, v, fault, hstaged, -⟩, hback⟩
  · refine undone_of_rolledBack hback ?_ (by simp)
    rw [List.append_nil, List.map_append]
    exact fun s hs => List.mem_append_left _ hs
  · refine undone_of_rolledBack hback ?_ (by simp)
    rw [hstaged]
    exact fun s' hs' => (List.mem_append.1 hs').elim id (List.mem_append_left _)

/-! ### Invocations -/

/-- The log file that an invocation sets up, if it gets as far. -/
def Invocation.log? (i : Invocation) (formats : List Settings.Format) (w : World) : Option Path :=
  match (Settings.loadFrom (m := StateM World) formats i.config w).1 with
  | .error _ => none
  | .ok s => (logSetup s.log i.verbosity).file? w.clock

/-- How an invocation ends, where the files are `v` once the log is set up: its settings cannot be
loaded, its log cannot be set up, its definitions do not compile, or what they compile to is
written. -/
inductive Ends (formats : List Settings.Format) (i : Invocation) (w : World) (v : Volume) :
    Except Trouble Unit → World → Prop
  | unloaded {failure : Settings.LoadFailure} {w' : World}
      (unloaded : (Settings.loadFrom (m := StateM World) formats i.config w).1 = .error failure)
      (unchanged : w'.volume = v) : Ends formats i w v (.error (.settings failure)) w'
  | unlogged {s : Settings} {failure : Log.Failure} {w' : World}
      (loaded : (Settings.loadFrom (m := StateM World) formats i.config w).1 = .ok s)
      (unlogged : ((logSetup s.log i.verbosity).install (m := StateM World) w).1 = .error failure)
      (unchanged : w'.volume = v) : Ends formats i w v (.error (.log failure)) w'
  | refused {s : Settings} {trouble : Trouble} {w' : World}
      (loaded : (Settings.loadFrom (m := StateM World) formats i.config w).1 = .ok s)
      (refused : compiled i (i.options s w) v = .error trouble) (unchanged : w'.volume = v) :
      Ends formats i w v (.error trouble) w'
  | unwritten {s : Settings} {files : Artifacts} {w₁ w' : World} {failure : Failure}
      (loaded : (Settings.loadFrom (m := StateM World) formats i.config w).1 = .ok s)
      (accepted : compiled i (i.options s w) v = .ok files) (unchanged : w₁.volume = v)
      (run : writeAfter (m := StateM World) stageAloud [] (i.outputs files) w₁ = (.error failure, w')) :
      Ends formats i w v (.error (.generation failure)) w'
  | written {s : Settings} {files : Artifacts} {w₁ w' : World}
      (loaded : (Settings.loadFrom (m := StateM World) formats i.config w).1 = .ok s)
      (accepted : compiled i (i.options s w) v = .ok files) (unchanged : w₁.volume = v)
      (run : writeAfter (m := StateM World) stageAloud [] (i.outputs files) w₁ = (.ok (), w')) :
      Ends formats i w v (.ok ()) w'

section

variable {w₁ : World}
  (hload : Settings.loadFrom (m := StateM World) formats i.config w = (.ok s, w))
  (hinstall : (logSetup s.log i.verbosity).install (m := StateM World) w = (.ok (), w₁))

include hload hinstall

/-- The options and the definitions decide what happens once the log is set up. -/
theorem invoke_of_installed : ∃ w₂, w₂.volume = w₁.volume ∧
    invoke (m := StateM World) formats i w = match compiled i (i.options s w) w₁.volume with
      | .error trouble => (.error trouble, w₂)
      | .ok files =>
        let run := writeAfter (m := StateM World) stageAloud [] (i.outputs files) w₂
        (run.1.mapError .generation, run.2) := by
  have hlog := Log.Setup.prepared_install (logSetup s.log i.verbosity) w
  rw [hinstall] at hlog
  have hrun : invoke (m := StateM World) formats i w = generate (m := StateM World) i s w₁ :=
    (World.bind_eq hload _).trans (World.bind_eq hinstall _)
  have hoptions : i.options s w = i.options s w₁ := by
    rw [Invocation.options, Invocation.options, hlog.clock, hlog.environment]
  rw [hrun, hoptions]
  exact generate_eq i s w₁

theorem ends_of_installed {result : Except Trouble Unit}
    (h : invoke (m := StateM World) formats i w = (result, w')) :
    Ends formats i w w₁.volume result w' := by
  have hloaded : (Settings.loadFrom (m := StateM World) formats i.config w).1 = .ok s := by
    rw [hload]
  obtain ⟨w₂, hvolume, hrun⟩ := invoke_of_installed hload hinstall
  rw [hrun] at h
  cases hcompiled : compiled i (i.options s w) w₁.volume with
  | error trouble =>
      simp only [hcompiled] at h
      obtain ⟨rfl, rfl⟩ := Prod.mk.inj h
      exact .refused hloaded hcompiled hvolume
  | ok files =>
      simp only [hcompiled] at h
      rcases hwrite : writeAfter (m := StateM World) stageAloud [] (i.outputs files) w₂ with
        ⟨failure | u, w₃⟩
      · rw [hwrite] at h
        obtain ⟨rfl, rfl⟩ := Prod.mk.inj h
        exact .unwritten hloaded hcompiled hvolume hwrite
      · rw [hwrite] at h
        obtain ⟨rfl, rfl⟩ := Prod.mk.inj h
        exact .written hloaded hcompiled hvolume hwrite

end

theorem exists_ends {result : Except Trouble Unit}
    (h : invoke (m := StateM World) formats i w = (result, w')) :
    ∃ v, w.volume.Prepared v (i.log? formats w) ∧ Ends formats i w v result w' := by
  have hsame := Settings.loadFrom_snd formats i.config w
  rw [Invocation.log?]
  rcases hload : Settings.loadFrom (m := StateM World) formats i.config w with ⟨failure | s, w₀⟩
  · rw [hload] at hsame
    obtain rfl := hsame
    have hrun : invoke (m := StateM World) formats i w₀ = (.error (.settings failure), w₀) :=
      World.bind_eq hload _
    obtain ⟨rfl, rfl⟩ := Prod.mk.inj (hrun.symm.trans h)
    exact ⟨w₀.volume, (World.Grows.refl w₀).volume.prepared _, .unloaded (by rw [hload]) rfl⟩
  · rw [hload] at hsame
    obtain rfl := hsame
    have hlog := Log.Setup.prepared_install (logSetup s.log i.verbosity) w₀
    rcases hinstall : (logSetup s.log i.verbosity).install (m := StateM World) w₀ with
      ⟨failure | u, w₁⟩
    · rw [hinstall] at hlog
      have hrun : invoke (m := StateM World) formats i w₀ = (.error (.log failure), w₁) :=
        (World.bind_eq hload _).trans (World.bind_eq hinstall _)
      obtain ⟨rfl, rfl⟩ := Prod.mk.inj (hrun.symm.trans h)
      exact ⟨w₁.volume, hlog.volume, .unlogged (by rw [hload]) (by rw [hinstall]) rfl⟩
    · rw [hinstall] at hlog
      exact ⟨w₁.volume, hlog.volume, ends_of_installed hload hinstall h⟩

/-- What an invocation has done when it ends well: what its definitions compile to is written, with the
settings that were loaded, and but for that the log is set up. -/
def Generated (formats : List Settings.Format) (i : Invocation) (w : World) (v' : Volume) : Prop :=
  ∃ s v files, (Settings.loadFrom (m := StateM World) formats i.config w).1 = .ok s ∧
    w.volume.Prepared v (i.log? formats w) ∧ compiled i (i.options s w) v = .ok files ∧
      Written v v' (i.outputs files)

theorem invoke_generates (h : invoke (m := StateM World) formats i w = (.ok (), w'))
    (hdistinct : i.header.place w.volume.home ≠ i.source.place w.volume.home) :
    Generated formats i w w'.volume := by
  obtain ⟨v, hprepared, hends⟩ := exists_ends h
  cases hends with
  | @written s files w₁ _ loaded accepted unchanged run =>
      refine ⟨s, v, files, loaded, hprepared, accepted, ?_⟩
      obtain ⟨v₁, hdrafts, hsettled⟩ := writeAfter_eq_ok writesDrafts_stageAloud run
      rw [unchanged] at hdrafts
      refine hdrafts.written hsettled ?_
      rw [hprepared.home]
      simpa [Invocation.outputs] using hdistinct

/-- What an invocation has done when it fails: no file is new but an empty log, and none has changed
but those that were to be written. -/
structure Spared (formats : List Settings.Format) (i : Invocation) (w : World) (v' : Volume) : Prop
    where
  old : ∀ p contents, v'.read p = .ok contents →
    w.volume.root.at? (p.place w.volume.home) = some (.file contents) ∨
      contents = .empty ∧ w.volume.root.at? (p.place w.volume.home) = none ∧
        ∃ log ∈ i.log? formats w, log.place w.volume.home = p.place w.volume.home
  kept : ∀ location ∉ placesOf w.volume.home [i.header, i.source], ∀ contents,
    w.volume.root.at? location = some (.file contents) →
      v'.root.at? location = some (.file contents)

theorem invoke_spares (h : invoke (m := StateM World) formats i w = (.error trouble, w')) :
    Spared formats i w w'.volume := by
  obtain ⟨v, hprepared, hends⟩ := exists_ends h
  have hundone : Undone v w'.volume (placesOf v.home [i.header, i.source]) := by
    cases hends with
    | unloaded _ unchanged => exact unchanged ▸ .refl _ _
    | unlogged _ _ unchanged => exact unchanged ▸ .refl _ _
    | refused _ _ unchanged => exact unchanged ▸ .refl _ _
    | unwritten _ _ unchanged run => exact unchanged ▸ undone_of_writeAfter run
  rw [hprepared.home] at hundone
  refine ⟨fun p contents hread => ?_, fun location hlocation contents hfile => ?_⟩
  · have hbefore := hundone.old p contents hread
    rw [hprepared.home] at hbefore
    rcases hprepared.shape?_of_file hbefore with hfile | ⟨hnone, hempty, hlog⟩
    · exact .inl (Node.shape?_eq_file_iff.1 hfile)
    · exact .inr ⟨hempty, Option.map_eq_none_iff.1 hnone, hlog⟩
  · exact Node.shape?_eq_file_iff.1 (hundone.kept location hlocation contents
      (hprepared.shape?_file (Node.shape?_eq_file_iff.2 hfile)))

/-! ### Runs -/

/-- A run that is not to generate files leaves all files as they are. -/
theorem run_of_reply {reply : Reply} (h : Invocation.ofArguments arguments = .error reply) (w : World) :
    (runWith (m := StateM World) formats arguments w).2.volume = w.volume ∧
      ((runWith (m := StateM World) formats arguments w).1.code = 2 ↔
        ∃ m, reply = .misuse m) := by
  rw [runWith, h]
  cases reply with
  | help => exact ⟨rfl, iff_of_false (Nat.zero_ne_add_one 1) (by simp)⟩
  | version => exact ⟨rfl, iff_of_false (Nat.zero_ne_add_one 1) (by simp)⟩
  | misuse m => exact ⟨rfl, iff_of_true rfl ⟨m, rfl⟩⟩

theorem run_of_invocation (h : Invocation.ofArguments arguments = .ok i) (w : World) :
    runWith (m := StateM World) formats arguments w =
      (match (invoke (m := StateM World) formats i w).1 with
      | .ok () => ⟨0, []⟩
      | .error trouble => ⟨1, trouble.report⟩, (invoke (m := StateM World) formats i w).2) := by
  rw [runWith, h]
  rcases hrun : invoke (m := StateM World) formats i w with ⟨trouble | u, w'⟩
  · exact World.bind_eq hrun _
  · exact World.bind_eq hrun _

/-- A run that ends with the code zero has generated both files. One that does not says what the trouble
was, and has spared all other files. -/
theorem run_ends {ending : Ending} (hi : Invocation.ofArguments arguments = .ok i)
    (h : runWith (m := StateM World) formats arguments w = (ending, w')) :
    (ending = ⟨0, []⟩ ∧ (i.header.place w.volume.home ≠ i.source.place w.volume.home →
      Generated formats i w w'.volume)) ∨
    ∃ trouble : Trouble, ending = ⟨1, trouble.report⟩ ∧ Spared formats i w w'.volume := by
  rw [run_of_invocation hi] at h
  rcases hrun : invoke (m := StateM World) formats i w with ⟨trouble | u, w₁⟩
  · rw [hrun] at h
    obtain ⟨rfl, rfl⟩ := Prod.mk.inj h
    exact .inr ⟨trouble, rfl, invoke_spares hrun⟩
  · rw [hrun] at h
    obtain ⟨rfl, rfl⟩ := Prod.mk.inj h
    exact .inl ⟨rfl, invoke_generates hrun⟩

/-- Definitions that do not compile are reported, and nothing is done to the files once the log is set
up. -/
theorem run_refused {w₁ : World} {ending : Ending} (hi : Invocation.ofArguments arguments = .ok i)
    (hload : Settings.loadFrom (m := StateM World) formats i.config w = (.ok s, w))
    (hinstall : (logSetup s.log i.verbosity).install (m := StateM World) w = (.ok (), w₁))
    (hrefused : compiled i (i.options s w) w₁.volume = .error trouble)
    (h : runWith (m := StateM World) formats arguments w = (ending, w')) :
    ending = ⟨1, trouble.report⟩ ∧ w'.volume = w₁.volume := by
  obtain ⟨w₂, hvolume, hrun⟩ := invoke_of_installed hload hinstall
  rw [hrefused] at hrun
  rw [run_of_invocation hi, hrun] at h
  obtain ⟨rfl, rfl⟩ := Prod.mk.inj h
  exact ⟨rfl, hvolume⟩

/-- The second line has no condition. -/
example : (run (m := StateM World) ["rules", "out/a.h", "out/a.c"]
    (worldOf [("rules", .file (Text.toBytes "A\nB equals\n"))])).1.code = 1 := by decide +kernel

/-! ### Failures -/

/-- A failure of the system, with what was being done. -/
def OfSystem (failure : Failure) : Prop := ∃ context fault, failure = failing context fault

/-- A program that fails only because of the system. -/
def FailsOfSystem {α : Type} (x : StateM World (Except Failure α)) : Prop :=
  ∀ w failure, (x w).1 = .error failure → OfSystem failure

namespace FailsOfSystem

variable {α β γ : Type}

theorem pure_ok (a : α) : FailsOfSystem (pure (.ok a)) := nofun

theorem pure_error {failure : Failure} (h : OfSystem failure) :
    FailsOfSystem (α := α) (pure (.error failure)) := by
  rintro w _ ⟨⟩
  exact h

theorem pure_failing (context : Text) (fault : Fault) :
    FailsOfSystem (α := α) (pure (.error (failing context fault))) :=
  pure_error ⟨context, fault, rfl⟩

theorem bind {x : StateM World γ} {f : γ → StateM World (Except Failure β)}
    (hf : ∀ c, FailsOfSystem (f c)) : FailsOfSystem (x >>= f) :=
  fun w => hf (x w).1 (x w).2

theorem bind_except {x : StateM World (Except Failure α)}
    {f : Except Failure α → StateM World (Except Failure β)} (hx : FailsOfSystem x)
    (hok : ∀ a, FailsOfSystem (f (.ok a)))
    (herror : ∀ failure, OfSystem failure → FailsOfSystem (f (.error failure))) :
    FailsOfSystem (x >>= f) := by
  intro w failure h
  rcases hrun : x w with ⟨failure' | a, w₁⟩
  · rw [World.bind_eq hrun] at h
    exact herror failure' (hx w failure' (by rw [hrun])) w₁ failure h
  · rw [World.bind_eq hrun] at h
    exact hok a w₁ failure h

theorem makeRoom (p : Path) : FailsOfSystem (Staging.makeRoom p) := by
  rw [Staging.makeRoom]
  split
  · exact pure_ok ()
  · refine bind fun answer => ?_
    cases answer with
    | error fault => exact pure_failing _ fault
    | ok u => exact pure_ok u

theorem writeDraft (o : Output) : FailsOfSystem (Staging.writeDraft o) := by
  refine bind_except (makeRoom o.path) (fun _ => bind fun answer => ?_) fun _ => pure_error
  cases answer with
  | error fault => exact pure_failing _ fault
  | ok u => exact bind fun _ => pure_ok ()

theorem stage (o : Output) : FailsOfSystem (Staging.stage o) :=
  bind_except (writeDraft o) (fun _ => pure_ok _) fun _ h => bind fun _ => pure_error h

theorem stageAloud (o : Output) : FailsOfSystem (Command.stageAloud o) :=
  bind fun _ => bind_except (stage o) (fun _ => bind fun _ => pure_ok _) fun _ => pure_error

theorem commitAfter (done : List Path) (staged : List Staged) :
    FailsOfSystem (Staging.commitAfter done staged) := by
  induction staged generalizing done with
  | nil => exact pure_ok ()
  | cons s staged ih =>
      refine bind fun answer => ?_
      cases answer with
      | error fault => exact bind fun _ => pure_failing _ fault
      | ok u => exact bind fun _ => ih _

theorem writeAfter (staged : List Staged) (outputs : List Output) :
    FailsOfSystem (Staging.writeAfter Command.stageAloud staged outputs) := by
  induction outputs generalizing staged with
  | nil => exact commitAfter [] staged
  | cons o outputs ih =>
      exact bind_except (stageAloud o) (fun s => ih _) fun _ h => bind fun _ => pure_error h

end FailsOfSystem

theorem rejected_of_compiled {o : Options} {v : Volume} {failure : Failure}
    (h : compiled i o v = .error (.generation failure)) :
    ∃ rejection, failure = .rejected rejection := by
  rw [compiled, textIn] at h
  cases hread : v.read i.definitions with
  | error fault =>
      rw [hread] at h
      cases h
  | ok bytes =>
      rw [hread] at h
      cases htext : Text.ofBytes? bytes with
      | none =>
          simp only [htext] at h
          cases h
      | some t =>
          simp only [htext, bind, Except.bind] at h
          cases hcompile : compile t o with
          | error rejection =>
              rw [hcompile] at h
              cases h
              exact ⟨rejection, rfl⟩
          | ok files =>
              rw [hcompile] at h
              cases h

/-- Generation fails because the definitions are rejected, or because of the system. -/
theorem failure_cases {failure : Failure}
    (h : invoke (m := StateM World) formats i w = (.error (.generation failure), w')) :
    (∃ rejection, failure = .rejected rejection) ∨ OfSystem failure := by
  obtain ⟨v, -, hends⟩ := exists_ends h
  cases hends with
  | refused _ refused _ => exact .inl (rejected_of_compiled refused)
  | unwritten _ _ _ run => exact .inr (FailsOfSystem.writeAfter [] _ _ _ (by rw [run]))

/-- Laying out generated text never fails. -/
theorem ne_unformatted (context : Text) : (invoke (m := StateM World) formats i w).1 ≠
    .error (.generation (Failure.unformatted.withContext context)) := by
  intro h
  obtain ⟨w', hrun⟩ := World.exists_eq_of_fst h
  rcases failure_cases hrun with ⟨rejection, hfailure⟩ | ⟨_, fault, hfailure⟩
  · cases hfailure
  · cases hfailure

end Command

end FeatureGuard

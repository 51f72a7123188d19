import FeatureGuard.Log.Setup
import FeatureGuard.Proofs.Settings.Source
import FeatureGuard.Proofs.Volume.Growth

/-!
Loading settings one by one. Each setting has the value of its variable, if there is one, else that
of its entry in the file, else the usual one. So neither the variables and entries of the other
settings nor the variable with the directives of the log have a part in it.
-/

namespace FeatureGuard

/-- A program that asks about the files and does nothing else. -/
def Asks {α : Type} (x : StateM World α) : Prop :=
  ∃ answer : Volume → α, ∀ w, x w = (answer w.volume, w)

namespace Asks

variable {α β : Type} {x : StateM World α}

protected theorem pure (a : α) : Asks (pure a) := ⟨fun _ => a, fun _ => rfl⟩

theorem ask (question : Volume → α) : Asks (World.ask question) := ⟨question, fun _ => rfl⟩

protected theorem bind (hx : Asks x) {f : α → StateM World β} (hf : ∀ a, Asks (f a)) :
    Asks (x >>= f) := by
  obtain ⟨answer, hanswer⟩ := hx
  choose next hnext using hf
  refine ⟨fun v => next (answer v) v, fun w => ?_⟩
  show f (x w).1 (x w).2 = _
  rw [hanswer]
  exact hnext _ w

end Asks

namespace Settings

variable {formats formats' : List Format} {given given' : Option Path} {w w' : World}
  {file file' : Keyed Tree}

/-! ### Formats -/

/-- In every file that is read, each table has each of its keys once. -/
structure Format.Lawful (format : Format) : Prop where
  complete : ∀ t entries, format.read? t = some entries → Keyed.Complete entries

theorem Format.lawful_toml : toml.Lawful := ⟨fun _ _ => Toml.complete_of_read?⟩

theorem Format.lawful_json : json.Lawful := by
  refine ⟨fun t entries h => ?_⟩
  simp only [json] at h
  split at h
  · rename_i origin read hread
    obtain rfl := Option.some.inj h
    cases Json.wellKeyed_of_read? hread with
    | table hnodup hvalues => exact ⟨hnodup, hvalues⟩
  · cases h

theorem Format.lawful_builtIn : ∀ format ∈ builtIn, format.Lawful :=
  List.forall_mem_cons.2 ⟨lawful_toml, List.forall_mem_singleton.2 lawful_json⟩

/-! ### Reading the file -/

theorem asks_findFile (paths : List (Path × Format)) : Asks (findFile (m := StateM World) paths) := by
  induction paths with
  | nil => exact .pure none
  | cons candidate rest ih =>
      refine .bind (.ask _) fun isFile => ?_
      split
      · exact .pure _
      · exact ih

theorem asks_find (formats : List Format) (p : Path) :
    Asks (find (m := StateM World) formats p) := by
  refine .bind (.ask _) fun isFile => ?_
  split
  · split <;> exact .pure _
  · refine .bind (asks_findFile (candidates formats p)) fun found => ?_
    split <;> exact .pure _

theorem asks_readFile (formats : List Format) (p : Path) :
    Asks (readFile (m := StateM World) formats p) := by
  refine .bind (asks_find formats p) fun found => ?_
  split
  · exact .pure _
  · refine .bind (.ask _) fun contents => ?_
    split <;> exact .pure _

theorem asks_loadFile (formats : List Format) (given : Option Path) :
    Asks (loadFile (m := StateM World) formats given) := by
  refine .bind (asks_readFile formats _) fun read => ?_
  split
  · exact .pure _
  · split <;> exact .pure _

/-- What is loaded, from what the file gives and the environment. -/
theorem loadFrom_eq (formats : List Format) (given : Option Path) (w : World) :
    (loadFrom (m := StateM World) formats given w).1 =
      (loadFile (m := StateM World) formats given w).1.bind fun entries =>
        ofSources entries (environmentEntries w.environment) := by
  obtain ⟨answer, hanswer⟩ := asks_loadFile formats given
  simp only [loadFrom, bind, StateT.bind, hanswer]
  cases answer w.volume <;> rfl

/-- Loading settings leaves everything as it is. -/
theorem loadFrom_snd (formats : List Format) (given : Option Path) (w : World) :
    (loadFrom (m := StateM World) formats given w).2 = w := by
  obtain ⟨answer, hanswer⟩ := asks_loadFile formats given
  simp only [loadFrom, bind, StateT.bind, hanswer]
  cases answer w.volume <;> rfl

/-- The file that is loaded has these entries. Where none is named, there may also be none, and then
there are no entries. -/
inductive FileSays (formats : List Format) (given : Option Path) (w : World) : Keyed Tree → Prop
  | found {path : Path} {format : Format} {t : Text} {entries : Keyed Tree} :
      (readFile (m := StateM World) formats (given.getD usualFile) w).1 = .ok (path, format, t) →
      format.read? t = some entries → FileSays formats given w entries
  | absent {cause : Text} : given = none →
      (readFile (m := StateM World) formats usualFile w).1 = .error cause →
      FileSays formats given w []

theorem mem_of_findFile {paths : List (Path × Format)} {candidate : Path × Format}
    (h : (findFile (m := StateM World) paths w).1 = some candidate) : candidate ∈ paths := by
  induction paths with
  | nil => cases h
  | cons first rest ih =>
      rw [findFile, World.bind_eq (x := Host.isFile first.1) rfl] at h
      split at h
      · obtain rfl := Option.some.inj h
        exact List.mem_cons_self
      · exact List.mem_cons_of_mem first (ih h)

theorem mem_of_find {p path : Path} {format : Format}
    (h : (find (m := StateM World) formats p w).1 = .ok (path, format)) : format ∈ formats := by
  rw [find, World.bind_eq (x := Host.isFile p) rfl] at h
  split at h
  · cases hfits : formats.find? (Format.fits p) with
    | none =>
        simp only [hfits] at h
        cases h
    | some fitting =>
        simp only [hfits] at h
        obtain ⟨-, rfl⟩ := Prod.mk.inj (Except.ok.inj h)
        exact List.mem_of_find?_eq_some hfits
  · rcases hfound : findFile (m := StateM World) (candidates formats p) w with ⟨found, w₁⟩
    rw [World.bind_eq hfound] at h
    cases found with
    | none => cases h
    | some candidate =>
        obtain rfl := Except.ok.inj h
        have hmem := mem_of_findFile (congrArg Prod.fst hfound)
        obtain ⟨other, hother, hpath⟩ := List.mem_flatMap.1 hmem
        obtain ⟨extension, -, heq⟩ := List.mem_map.1 hpath
        obtain ⟨-, rfl⟩ := Prod.mk.inj heq
        exact hother

/-- A file is read in one of the formats that there are. -/
theorem mem_of_readFile {p path : Path} {format : Format} {t : Text}
    (h : (readFile (m := StateM World) formats p w).1 = .ok (path, format, t)) :
    format ∈ formats := by
  rcases hfind : find (m := StateM World) formats p w with ⟨cause | ⟨found, other⟩, w₁⟩
  · rw [readFile, World.bind_eq hfind] at h
    cases h
  · rw [readFile, World.bind_eq hfind] at h
    have hmem := mem_of_find (congrArg Prod.fst hfind)
    have hasked : Host.read (m := StateM World) found w₁ = (w₁.volume.read found, w₁) := rfl
    simp only at h
    rw [World.bind_eq hasked] at h
    cases hread : w₁.volume.read found with
    | error fault =>
        rw [hread] at h
        cases h
    | ok bytes =>
        rw [hread] at h
        obtain ⟨-, heq⟩ := Prod.mk.inj (Except.ok.inj h)
        obtain ⟨rfl, -⟩ := Prod.mk.inj heq
        exact hmem

namespace FileSays

theorem complete (h : FileSays formats given w file)
    (hformats : ∀ format ∈ formats, format.Lawful) : Keyed.Complete file := by
  cases h with
  | found hfile hread => exact (hformats _ (mem_of_readFile hfile)).complete _ _ hread
  | absent _ _ => exact .nil

theorem loadFile_eq (h : FileSays formats given w file) : ∃ origin,
    (loadFile (m := StateM World) formats given w).1 = .ok (Tree.fromEntries origin file) := by
  obtain ⟨answer, hanswer⟩ := asks_readFile formats (given.getD usualFile)
  cases h with
  | @found path format t entries hfile hread =>
      have hfile : answer w.volume = .ok (path, format, t) := by simpa only [hanswer] using hfile
      refine ⟨Path.normalized path, ?_⟩
      simp only [loadFile, bind, StateT.bind, hanswer, hfile]
      show fileEntries path format t = _
      rw [fileEntries, hread]
  | @absent cause hgiven hfile =>
      subst hgiven
      rw [Option.getD_none] at hanswer
      have hfile : answer w.volume = .error cause := by simpa only [hanswer] using hfile
      refine ⟨[], ?_⟩
      simp only [loadFile, Option.getD_none, bind, StateT.bind, hanswer, hfile]
      rfl

end FileSays

/-! ### Loading -/

/-- Only the files and the entries of the environment have a part in what is loaded. -/
theorem loadFrom_congr (hvolume : w'.volume = w.volume)
    (hentries : environmentEntries w'.environment = environmentEntries w.environment) :
    (loadFrom (m := StateM World) formats given w').1 =
      (loadFrom (m := StateM World) formats given w).1 := by
  obtain ⟨answer, hanswer⟩ := asks_loadFile formats given
  rw [loadFrom_eq, loadFrom_eq, hanswer, hanswer, hvolume, hentries]

/-- Variables without the prefix hold no settings. -/
theorem environmentEntries_erase {name : Text} (h : variableKey? name = none)
    (environment : Keyed Text) :
    environmentEntries (Keyed.erase name environment) = environmentEntries environment := by
  rw [environmentEntries, Keyed.erase, List.filterMap_filter, environmentEntries]
  refine List.filterMap_congr fun e _ => ?_
  by_cases heq : e.1 = name
  · simp [heq, h]
  · simp [heq]

theorem exists_loadFrom (hformats : ∀ format ∈ formats, format.Lawful)
    (hfile : FileSays formats given w file) (htyped : Setting.WellTyped file)
    (hapart : Setting.Apart file) (henvironment : Setting.Overrides w.environment) :
    ∃ settings, (loadFrom (m := StateM World) formats given w).1 = .ok settings ∧
      ∀ x : Setting, x.Takes (x.override? w.environment) (x.entry? file) (x.get settings) := by
  obtain ⟨origin, hentries⟩ := hfile.loadFile_eq
  obtain ⟨settings, hsettings, htakes⟩ :=
    Setting.exists_ofSources (hfile.complete hformats) htyped hapart henvironment origin
  refine ⟨settings, ?_, htakes⟩
  rw [loadFrom_eq, hentries]
  exact hsettings

/-- Settings are loaded one by one: each has the value of its variable, else that of its entry, else
the usual one. So what else the file and the environment hold does not matter for a setting, and the
directives of the log matter for none. The formats of files may be any, as long as each key is read
once. -/
theorem each_setting_on_its_own (hformats : ∀ format ∈ formats, format.Lawful)
    (hfile : FileSays formats given w file) (htyped : Setting.WellTyped file)
    (hapart : Setting.Apart file) (henvironment : Setting.Overrides w.environment) :
    ∃ settings, (loadFrom (m := StateM World) formats given w).1 = .ok settings ∧
      (∀ x : Setting,
        x.Takes (x.override? w.environment) (x.entry? file) (x.get settings)) ∧
      (∀ formats' given' w' file' settings', (∀ format ∈ formats', Format.Lawful format) →
        FileSays formats' given' w' file' → Setting.WellTyped file' →
        Setting.Apart file' → Setting.Overrides w'.environment →
        (loadFrom (m := StateM World) formats' given' w').1 = .ok settings' →
        ∀ x : Setting, x.override? w'.environment = x.override? w.environment →
          x.entry? file' = x.entry? file → x.get settings' = x.get settings) ∧
      ∀ environment, Keyed.erase Log.Setup.environmentVariable environment =
          Keyed.erase Log.Setup.environmentVariable w.environment →
        (loadFrom (m := StateM World) formats given { w with environment }).1 = .ok settings := by
  obtain ⟨settings, hload, htakes⟩ := exists_loadFrom hformats hfile htyped hapart henvironment
  refine ⟨settings, hload, htakes, ?_, ?_⟩
  · intro formats' given' w' file' settings' hformats' hfile' htyped' hapart' henvironment' hload' x
      hvariable hentry
    obtain ⟨loaded, hloaded, htakes'⟩ :=
      exists_loadFrom hformats' hfile' htyped' hapart' henvironment'
    obtain rfl : loaded = settings' := Except.ok.inj (hloaded.symm.trans hload')
    have hx := htakes' x
    rw [hvariable, hentry] at hx
    exact hx.unique (htakes x)
  · intro environment herase
    have hnone : variableKey? Log.Setup.environmentVariable = none := by decide
    have hentries : environmentEntries environment = environmentEntries w.environment := by
      rw [← environmentEntries_erase hnone environment, herase, environmentEntries_erase hnone]
    rw [← hload]
    exact loadFrom_congr rfl hentries

/-- A file with two settings, an unknown key in a section and another one outside. -/
def partialFile : Text :=
  "\x7b\"build\":7,\"header\":\x7b\"guard\":\"G\",\"n\":3\x7d,\"log\":\x7b\"rotation\":\"daily\"\x7d\x7d"

def partialEntries : Keyed Tree :=
  [("build", .scalar none (.integer 7)),
    ("header", .table none
      [("guard", .scalar none (.string "G")), ("n", .scalar none (.integer 3))]),
    ("log", .table none [("rotation", .scalar none (.string "daily"))])]

def partialWorld : World where
  volume := { root := .directory [("c.json", .file (Text.toBytes partialFile))], home := [] }
  environment := [("PATH", "/bin"), ("featurec__Header__GUARD", "E")]

theorem each_setting_on_its_own_partial : ∃ settings,
    (load (m := StateM World) (some "c.json") partialWorld).1 = .ok settings ∧
      settings.header.guard = "E" ∧ settings.log.rotation = .daily ∧
        settings.source.table = "FEATURES" := by
  have hread : (readFile (m := StateM World) Format.builtIn "c.json" partialWorld).1 =
      .ok ("c.json", .json, partialFile) := by cbv
  have hfile : FileSays Format.builtIn (some "c.json") partialWorld partialEntries :=
    .found hread (by cbv)
  have htyped : Setting.WellTyped partialEntries := by
    constructor
    · intro x own hown
      cases x <;> cases hown <;> exact ⟨_, _, rfl⟩
    · intro x t ht
      cases x <;> cases ht
      · exact ⟨_, .string _ _⟩
      · exact ⟨_, .string none Rotation.daily⟩
  have hbuild : (KeyPath.ofText "build").root ∉ Setting.homes := by
    rw [KeyPath.ofText_key (by decide) (List.all_eq_true.1 (by decide))]
    decide
  have hapart : Setting.Apart partialEntries := by
    refine List.forall_mem_cons.2 ⟨fun _ => hbuild, List.forall_mem_cons.2 ⟨?_, ?_⟩⟩
    · exact fun h => absurd (by decide) h
    · exact List.forall_mem_singleton.2 fun h => absurd (by decide) h
  have henvironment : Setting.Overrides partialWorld.environment := by
    refine ⟨List.forall_mem_cons.2 ⟨.inl (by decide), List.forall_mem_singleton.2 ?_⟩, ?_⟩
    · exact .inr ⟨.guard, by decide, _, .string _ _⟩
    · refine List.pairwise_pair.2 fun x hx => ?_
      exact absurd (Setting.isPrefix_of_names hx) (by decide)
  obtain ⟨settings, hload, htakes, -⟩ :=
    each_setting_on_its_own Format.lawful_builtIn hfile htyped hapart henvironment
  refine ⟨settings, hload, ?_, ?_, ?_⟩
  · exact (htakes .guard).unique (.override (.string _ _))
  · exact (htakes .rotation).unique (.entry (.string none Rotation.daily))
  · exact (htakes .table).unique .usual

/-- A file whose only key is not that of a section. -/
def indexedFile : Text := "\x7b\"header[0]\":\"Y\"\x7d"

def indexedWorld : World where
  volume := { root := .directory [("c.json", .file (Text.toBytes indexedFile))], home := [] }

def indexedEntries : Keyed Tree := [("header[0]", .scalar none (.string "Y"))]

/-- A key without a dot can still lead into a section, by an index. So it is not enough that the
unknown keys of a file have no dots. -/
theorem unknown_key_sets_guard : ¬∀ (formats : List Format) (given : Option Path) (w : World)
    (file : Keyed Tree), (∀ format ∈ formats, format.Lawful) →
      FileSays formats given w file → Setting.WellTyped file →
        (∀ e ∈ file, e.1 ∉ Setting.homes → '.' ∉ e.1) → Setting.Overrides w.environment →
          ∃ settings, (loadFrom (m := StateM World) formats given w).1 = .ok settings ∧
            ∀ x : Setting,
              x.Takes (x.override? w.environment) (x.entry? file) (x.get settings) := by
  intro h
  have hread : (readFile (m := StateM World) Format.builtIn "c.json" indexedWorld).1 =
      .ok ("c.json", .json, indexedFile) := by cbv
  have hfile : FileSays Format.builtIn (some "c.json") indexedWorld indexedEntries :=
    .found hread (by cbv)
  have htyped : Setting.WellTyped indexedEntries := by
    constructor
    · intro x own hown
      cases x <;> cases hown
    · intro x t ht
      cases x <;> cases ht
  obtain ⟨settings, hload, htakes⟩ := h _ _ _ _ Format.lawful_builtIn hfile htyped
    (List.forall_mem_singleton.2 fun _ => by decide) ⟨List.forall_mem_nil _, .nil⟩
  have hguard : (loadFrom (m := StateM World) Format.builtIn (some "c.json")
      indexedWorld).1.toOption.map (·.header.guard) = some "Y".toList := by cbv
  rw [hload] at hguard
  have husual : settings.header.guard = Setting.guard.usual := (htakes .guard).unique .usual
  rw [Except.toOption, Option.map_some, husual] at hguard
  exact absurd hguard (by decide)

end Settings

end FeatureGuard

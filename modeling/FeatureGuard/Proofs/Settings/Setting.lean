import FeatureGuard.Proofs.Settings.Spelling

/-!
The twelve settings, each with its place in the tree, the values that it can have, and the one that
it has by default. Settings are read from a tree whose sections are tables exactly as the entries
there say, and are the defaults where there is no entry.
-/

namespace FeatureGuard

/-! ### Reading entries -/

namespace Tree

variable {α β : Type} {key : Text} {decode : Tree → Decoded β} {usual b : β} {put : β → α → α}
  {a : α} {entries : Keyed Tree}

/-- What is read where a value may be missing. -/
inductive Reads (decode : Tree → Decoded β) (usual : β) : Option Tree → β → Prop
  | missing : Reads decode usual none usual
  | given {t : Tree} {b : β} : decode t = .ok b → Reads decode usual (some t) b

/-- The first of several fields is set to what is read for it. -/
theorem foldlM_ofDecoder (husual : put usual a = a)
    (h : Reads decode usual (Keyed.get? key entries) b) (fields : List (Field α)) :
    (Field.ofDecoder key decode put :: fields).foldlM (readEntries entries) a =
      fields.foldlM (readEntries entries) (put b a) := by
  have hread : readEntries entries a (.ofDecoder key decode put) = .ok (put b a) := by
    rw [readEntries]
    generalize hvalue : Keyed.get? key entries = value at h
    cases h with
    | missing => simp only [Field.ofDecoder, hvalue, husual]
    | given hdecode => simp [Field.ofDecoder, hvalue, hdecode, Except.map, Except.mapError]
  rw [List.foldlM_cons, hread]
  rfl

/-- A section keeps its defaults where the table has no entries. -/
theorem foldlM_readEntries_nil (fields : List (Field α)) (a : α) :
    fields.foldlM (readEntries []) a = .ok a := by
  induction fields with
  | nil => rfl
  | cons f rest ih => exact ih

/-- A section is read from the entries that it has. -/
theorem HasSection.reads {t : Tree} {root : Text} {fields : List (Field α)} {default : α}
    (hsection : t.HasSection root entries)
    (h : fields.foldlM (readEntries entries) default = .ok a) (name : Text) :
    Reads (readSection name fields default) default (Keyed.get? root t.entries) a := by
  cases hsection with
  | absent hnone =>
      rw [foldlM_readEntries_nil] at h
      cases h
      rw [hnone]
      exact .missing
  | present hsome =>
      rw [hsome]
      exact .given h

end Tree

/-! ### The settings -/

inductive Setting
  | guard
  | buildConfig
  | userConfig
  | configHeader
  | table
  | count
  | generator
  | timestamp
  | level
  | directory
  | rotation
  | maxFiles
  deriving DecidableEq

namespace Setting

/-- The key of the section that a setting belongs to. -/
def home : Setting → Text
  | guard | buildConfig | userConfig => "header"
  | configHeader | table | count => "source"
  | generator | timestamp => "provenance"
  | level | directory | rotation | maxFiles => "log"

/-- The key of a setting in its section. -/
def key : Setting → Text
  | guard => "guard"
  | buildConfig => "build_config"
  | userConfig => "user_config"
  | configHeader => "config_header"
  | table => "table"
  | count => "count"
  | generator => "generator"
  | timestamp => "timestamp"
  | level => "level"
  | directory => "dir"
  | rotation => "rotation"
  | maxFiles => "max_files"

/-- The keys of the sections. -/
def homes : List Text := ["header", "source", "provenance", "log"]

/-- What a setting can be set to. -/
def Value : Setting → Type
  | guard | userConfig | table | count | generator | level => Text
  | buildConfig | configHeader => IncludePath
  | timestamp => StampPolicy
  | directory => Option Text
  | rotation => Rotation
  | maxFiles => ℕ

/-- The value of a setting that is set nowhere. -/
def usual : (x : Setting) → x.Value
  | guard => "FEATURECONFIG_HPP".toList
  | buildConfig => (⟨"cmake_config.hpp", true⟩ : IncludePath)
  | userConfig => "myconfig-final.hpp".toList
  | configHeader => (⟨"config.hpp", false⟩ : IncludePath)
  | table => "FEATURES".toList
  | count => "NUM_FEATURES".toList
  | generator => "featurec".toList
  | timestamp => StampPolicy.now
  | level => "warn".toList
  | directory => (none : Option Text)
  | rotation => Rotation.never
  | maxFiles => (5 : ℕ)

/-- A tree spells a value of a setting. -/
def Spells (t : Tree) : (x : Setting) → x.Value → Prop
  | guard | userConfig | table | count | generator | level => t.SpellsText
  | buildConfig | configHeader => t.SpellsTarget
  | timestamp => Tree.SpellsWord StampPolicy.text t
  | directory => t.SpellsOptional
  | rotation => Tree.SpellsWord Rotation.text t
  | maxFiles => t.SpellsNumber

def decode (t : Tree) : (x : Setting) → Decoded x.Value
  | guard | userConfig | table | count | generator | level => t.text
  | buildConfig | configHeader => IncludePath.ofTree t
  | timestamp => StampPolicy.ofTree t
  | directory => t.optionalText
  | rotation => Rotation.ofTree t
  | maxFiles => t.word64

/-- The value that settings have for one of them. -/
def get (s : Settings) : (x : Setting) → x.Value
  | guard => s.header.guard
  | buildConfig => s.header.buildConfig
  | userConfig => s.header.userConfig
  | configHeader => s.source.configHeader
  | table => s.source.table
  | count => s.source.count
  | generator => s.provenance.generator
  | timestamp => s.provenance.timestamp
  | level => s.log.level
  | directory => s.log.directory
  | rotation => s.log.rotation
  | maxFiles => s.log.maxFiles

variable {t : Tree} {x y : Setting}

theorem decode_eq_ok_iff {v : x.Value} : x.decode t = .ok v ↔ x.Spells t v := by
  cases x with
  | guard | userConfig | table | count | generator | level => exact Tree.text_eq_ok_iff
  | buildConfig | configHeader => exact Tree.ofTree_eq_ok_iff
  | timestamp => exact Tree.policy_eq_ok_iff
  | directory => exact Tree.optionalText_eq_ok_iff
  | rotation => exact Tree.rotation_eq_ok_iff
  | maxFiles => exact Tree.word64_eq_ok_iff

theorem Spells.unique {v v' : x.Value} (h : x.Spells t v) (h' : x.Spells t v') : v = v' :=
  Except.ok.inj ((decode_eq_ok_iff.2 h).symm.trans (decode_eq_ok_iff.2 h'))

theorem Spells.laid {v : x.Value} (h : x.Spells t v) (origin : Text) :
    x.Spells (t.laid origin) v := by
  cases x with
  | guard | userConfig | table | count | generator | level => exact Tree.SpellsText.laid h
  | buildConfig | configHeader =>
      obtain ⟨raw, hraw, hv⟩ := h
      exact ⟨raw, hraw.laid, hv⟩
  | timestamp | rotation => exact Tree.SpellsWord.laid h
  | directory => exact Tree.SpellsOptional.laid h
  | maxFiles => exact Tree.SpellsNumber.laid h

/-! ### Places -/

theorem eq_of_key_eq (hkey : x.key = y.key) : x = y := by
  cases x <;> cases y
  all_goals first | rfl | exact absurd hkey (by decide)

theorem home_mem_homes (x : Setting) : x.home ∈ homes := by
  cases x <;> decide

/-- The key of a section leads to the section. -/
theorem ofText_of_mem_homes {root : Text} (h : root ∈ homes) : KeyPath.ofText root = ⟨root, []⟩ := by
  have hkeys : ∀ root ∈ homes, root ≠ [] ∧ root.all KeyPath.isKeyChar = true := by decide
  exact KeyPath.ofText_key (hkeys root h).1 (List.all_eq_true.1 (hkeys root h).2)

theorem ofText_place (x : Setting) :
    KeyPath.ofText (x.home ++ '.' :: x.key) = ⟨x.home, [.key x.key]⟩ := by
  have hhome : x.home ≠ [] ∧ x.home.all KeyPath.isKeyChar = true := by
    cases x <;> decide
  have hkey : x.key ≠ [] ∧ x.key.all KeyPath.isKeyChar = true := by
    cases x <;> decide
  exact KeyPath.ofText_dotted hhome.1 (List.all_eq_true.1 hhome.2) hkey.1
    (List.all_eq_true.1 hkey.2)

/-! ### Reading settings -/

/-- The settings with certain values. -/
def gather (values : (x : Setting) → x.Value) : Settings where
  header := ⟨values guard, values buildConfig, values userConfig⟩
  source := ⟨values configHeader, values table, values count⟩
  provenance := ⟨values generator, values timestamp⟩
  log := ⟨values level, values directory, values rotation, values maxFiles⟩

theorem get_gather (values : (x : Setting) → x.Value) (x : Setting) :
    x.get (gather values) = values x := by
  cases x <;> rfl

/-- What is read for a setting from the entries of its section. -/
def ReadFrom (entries : Keyed Tree) (x : Setting) : x.Value → Prop :=
  Tree.Reads (fun t => x.decode t) x.usual (Keyed.get? x.key entries)

section Sections

variable {values : (x : Setting) → x.Value} {entries : Keyed Tree}

theorem header_eq (h : ∀ x : Setting, x.home = guard.home → x.ReadFrom entries (values x)) :
    HeaderSettings.fields.foldlM (Tree.readEntries entries) {} = .ok (gather values).header := by
  refine (Tree.foldlM_ofDecoder rfl (h guard rfl) _).trans ?_
  refine (Tree.foldlM_ofDecoder rfl (h buildConfig rfl) _).trans ?_
  exact Tree.foldlM_ofDecoder rfl (h userConfig rfl) []

theorem source_eq (h : ∀ x : Setting, x.home = table.home → x.ReadFrom entries (values x)) :
    SourceSettings.fields.foldlM (Tree.readEntries entries) {} = .ok (gather values).source := by
  refine (Tree.foldlM_ofDecoder rfl (h configHeader rfl) _).trans ?_
  refine (Tree.foldlM_ofDecoder rfl (h table rfl) _).trans ?_
  exact Tree.foldlM_ofDecoder rfl (h count rfl) []

theorem provenance_eq (h : ∀ x : Setting, x.home = generator.home → x.ReadFrom entries (values x)) :
    ProvenanceSettings.fields.foldlM (Tree.readEntries entries) {} =
      .ok (gather values).provenance := by
  refine (Tree.foldlM_ofDecoder rfl (h generator rfl) _).trans ?_
  exact Tree.foldlM_ofDecoder rfl (h timestamp rfl) []

theorem log_eq (h : ∀ x : Setting, x.home = level.home → x.ReadFrom entries (values x)) :
    LogSettings.fields.foldlM (Tree.readEntries entries) {} = .ok (gather values).log := by
  refine (Tree.foldlM_ofDecoder rfl (h level rfl) _).trans ?_
  refine (Tree.foldlM_ofDecoder rfl (h directory rfl) _).trans ?_
  refine (Tree.foldlM_ofDecoder rfl (h rotation rfl) _).trans ?_
  exact Tree.foldlM_ofDecoder rfl (h maxFiles rfl) []

/-- Settings are read from a tree whose sections are tables, each from the entries of its own. -/
theorem ofTree_eq {origin : Option Text} {t : Tree} (ht : t = .table origin entries)
    (h : ∀ x : Setting, ∃ own, t.HasSection x.home own ∧ x.ReadFrom own (values x)) :
    Settings.ofTree t = .ok (gather values) := by
  have hown (y : Setting) : ∃ own, t.HasSection y.home own ∧
      ∀ x : Setting, x.home = y.home → x.ReadFrom own (values x) := by
    obtain ⟨own, hsection, -⟩ := h y
    refine ⟨own, hsection, fun x hx => ?_⟩
    obtain ⟨own', hsection', hreads⟩ := h x
    rw [hx] at hsection'
    rw [hsection.unique hsection']
    exact hreads
  obtain ⟨_, hheader, hguard⟩ := hown guard
  obtain ⟨_, hsource, htable⟩ := hown table
  obtain ⟨_, hprovenance, hgenerator⟩ := hown generator
  obtain ⟨_, hlog, hlevel⟩ := hown level
  have hheader := hheader.reads (header_eq hguard) "HeaderConfig"
  have hsource := hsource.reads (source_eq htable) "SourceConfig"
  have hprovenance := hprovenance.reads (provenance_eq hgenerator) "ProvenanceConfig"
  have hlog := hlog.reads (log_eq hlevel) "LogConfig"
  subst ht
  show Settings.fields.foldlM (Tree.readEntries entries) {} = _
  refine (Tree.foldlM_ofDecoder rfl hheader _).trans ?_
  refine (Tree.foldlM_ofDecoder rfl hsource _).trans ?_
  refine (Tree.foldlM_ofDecoder rfl hprovenance _).trans ?_
  exact Tree.foldlM_ofDecoder rfl hlog []

end Sections

end Setting

end FeatureGuard

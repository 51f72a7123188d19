import FeatureGuard.Artifact.Plan
import FeatureGuard.Log.Rotation
import FeatureGuard.Settings.Decode

/-!
The settings of the generator, in four sections. Every setting has a default.
-/

namespace FeatureGuard

/-- What the header shows. -/
structure HeaderSettings where
  guard : Text := "FEATURECONFIG_HPP"
  buildConfig : IncludePath := .ofText "<cmake_config.hpp>"
  /-- the file that users write themselves; a blank text stands for none -/
  userConfig : Text := "myconfig-final.hpp"
  deriving DecidableEq

/-- What the source shows. -/
structure SourceSettings where
  configHeader : IncludePath := .ofText "config.hpp"
  table : Text := "FEATURES"
  count : Text := "NUM_FEATURES"
  deriving DecidableEq

/-- What the banner says of where a file comes from. -/
structure ProvenanceSettings where
  generator : Text := "featurec"
  timestamp : StampPolicy := .now
  deriving DecidableEq

structure LogSettings where
  /-- the directives of the filter -/
  level : Text := "warn"
  /-- the directory of the log files, if there are any -/
  directory : Option Text := none
  rotation : Rotation := .never
  /-- how many log files are kept -/
  maxFiles : Nat := 5
  deriving DecidableEq

structure Settings where
  header : HeaderSettings := {}
  source : SourceSettings := {}
  provenance : ProvenanceSettings := {}
  log : LogSettings := {}
  deriving DecidableEq

/-! ### Fields -/

namespace IncludePath

def ofTree (t : Tree) : Decoded IncludePath := t.text.map IncludePath.ofText

end IncludePath

def HeaderSettings.fields : List (Tree.Field HeaderSettings) :=
  [.ofDecoder "guard" Tree.text fun t s => { s with guard := t },
    .ofDecoder "build_config" IncludePath.ofTree fun p s => { s with buildConfig := p },
    .ofDecoder "user_config" Tree.text fun t s => { s with userConfig := t }]

def SourceSettings.fields : List (Tree.Field SourceSettings) :=
  [.ofDecoder "config_header" IncludePath.ofTree fun p s => { s with configHeader := p },
    .ofDecoder "table" Tree.text fun t s => { s with table := t },
    .ofDecoder "count" Tree.text fun t s => { s with count := t }]

def StampPolicy.ofTree : Tree → Decoded StampPolicy :=
  Tree.choice "TimestampPolicy" (StampPolicy.all.map fun p => (p.text, p))

def ProvenanceSettings.fields : List (Tree.Field ProvenanceSettings) :=
  [.ofDecoder "generator" Tree.text fun t s => { s with generator := t },
    .ofDecoder "timestamp" StampPolicy.ofTree fun p s => { s with timestamp := p }]

def Rotation.ofTree : Tree → Decoded Rotation :=
  Tree.choice "LogRotation" (Rotation.all.map fun r => (r.text, r))

def LogSettings.fields : List (Tree.Field LogSettings) :=
  [.ofDecoder "level" Tree.text fun t s => { s with level := t },
    .ofDecoder "dir" Tree.optionalText fun t s => { s with directory := t },
    .ofDecoder "rotation" Rotation.ofTree fun r s => { s with rotation := r },
    .ofDecoder "max_files" Tree.word64 fun n s => { s with maxFiles := n }]

namespace Settings

/-- The four sections. -/
def fields : List (Tree.Field Settings) :=
  [.ofDecoder "header" (Tree.readSection "HeaderConfig" HeaderSettings.fields {})
      fun h s => { s with header := h },
    .ofDecoder "source" (Tree.readSection "SourceConfig" SourceSettings.fields {})
      fun f s => { s with source := f },
    .ofDecoder "provenance" (Tree.readSection "ProvenanceConfig" ProvenanceSettings.fields {})
      fun p s => { s with provenance := p },
    .ofDecoder "log" (Tree.readSection "LogConfig" LogSettings.fields {})
      fun l s => { s with log := l }]

/-- The settings that a tree gives. -/
def ofTree : Tree → Decoded Settings := Tree.readSection "GeneratorConfig" fields {}

/-- What the files show for these settings, definitions and an instant. -/
def options (s : Settings) (definitions : Text) (instant : Option Instant) : Options :=
  { generator := s.provenance.generator
    instant
    definitions
    guard := s.header.guard
    buildConfig := s.header.buildConfig
    userConfig :=
      if Text.trim s.header.userConfig = [] then none else some (.ofText s.header.userConfig)
    configHeader := s.source.configHeader
    table := s.source.table
    count := s.source.count }

end Settings

end FeatureGuard

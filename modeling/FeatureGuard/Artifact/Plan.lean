import FeatureGuard.Artifact.Directive
import FeatureGuard.Feature.Settlement
import FeatureGuard.Time.Stamp

/-!
The layout of the two generated files. The header includes what the build system and the user
define, drops what the user says about external features, and settles all others; the source checks
the requirements and lists the features that are defined.
-/

namespace FeatureGuard

/-- What the files show that does not come from the definitions. -/
structure Options where
  generator : Text := "featurec"
  /-- when the files are generated, unless that is left out -/
  instant : Option Instant := none
  /-- the file that users are told to edit -/
  definitions : Text := "features.def"
  guard : Text := "FEATURECONFIG_HPP"
  buildConfig : IncludePath := .ofText "<cmake_config.hpp>"
  userConfig : Option IncludePath := some (.ofText "myconfig-final.hpp")
  configHeader : IncludePath := .ofText "config.hpp"
  table : Text := "FEATURES"
  count : Text := "NUM_FEATURES"
  deriving DecidableEq

/-- The directives of both files. -/
structure Plan where
  header : List Directive
  source : List Directive
  deriving DecidableEq

/-- The texts of both files. -/
structure Artifacts where
  header : Text
  source : Text
  deriving DecidableEq

namespace Plan

def banner (o : Options) : Directive :=
  .banner o.generator (o.instant.map Instant.stamp) o.definitions

def headerOf (s : Settlement) (o : Options) : List Directive :=
  [banner o, .guardBegin o.guard, .inclusion o.buildConfig] ++
    o.userConfig.toList.map .inclusion ++
    .heading "Guards for externals" :: s.externals.map .undefine ++
    [.heading "Definitions from the build system", .inclusion o.buildConfig] ++
    .heading "Handle implications" ::
      s.implications.map (fun i => .implication i.antecedent i.consequent) ++
    .heading "Warn when derived switches are specified manually" ::
      s.derivations.map (fun d => .derivation d.feature d.condition.human d.condition.rendered) ++
    [.tableDeclaration o.table o.count, .guardEnd o.guard]

def sourceOf (s : Settlement) (o : Options) : List Directive :=
  [banner o, .inclusion o.configHeader] ++
    .heading "Handle requirements" ::
      s.requirements.map (fun r => .requirement r.feature r.condition.human r.condition.rendered) ++
    [.heading "Feature list", .tableBegin o.table] ++
    s.features.map .tableEntry ++
    [.tableEnd o.table o.count]

def ofSettlement (s : Settlement) (o : Options) : Plan :=
  { header := headerOf s o, source := sourceOf s o }

def render (p : Plan) : Artifacts :=
  { header := Directive.render p.header, source := Directive.render p.source }

end Plan

end FeatureGuard

import FeatureGuard.Artifact.Compile
import FeatureGuard.Artifact.Directive
import FeatureGuard.Artifact.Include
import FeatureGuard.Artifact.Plan
import FeatureGuard.Command.Arguments
import FeatureGuard.Command.Reply
import FeatureGuard.Command.Report
import FeatureGuard.Command.Run
import FeatureGuard.Condition.Reader
import FeatureGuard.Condition.Token
import FeatureGuard.Decimal.Binary64
import FeatureGuard.Decimal.Shortest
import FeatureGuard.Definitions.Comment
import FeatureGuard.Definitions.Document
import FeatureGuard.Definitions.Statement
import FeatureGuard.Definitions.SyntaxError
import FeatureGuard.Dependency.Component
import FeatureGuard.Dependency.Graph
import FeatureGuard.Dependency.NodeMap
import FeatureGuard.Dependency.Order
import FeatureGuard.Failure
import FeatureGuard.Feature.Check
import FeatureGuard.Feature.Name
import FeatureGuard.Feature.Roster
import FeatureGuard.Feature.Rules
import FeatureGuard.Feature.Settlement
import FeatureGuard.Feature.Violation
import FeatureGuard.Host
import FeatureGuard.Keyed
import FeatureGuard.Log.Event
import FeatureGuard.Log.Failure
import FeatureGuard.Log.Filter
import FeatureGuard.Log.Rotation
import FeatureGuard.Log.Setup
import FeatureGuard.Main
import FeatureGuard.Repetition
import FeatureGuard.Settings.Basic
import FeatureGuard.Settings.Decode
import FeatureGuard.Settings.Json
import FeatureGuard.Settings.Load
import FeatureGuard.Settings.Toml.Document
import FeatureGuard.Settings.Toml.Draft
import FeatureGuard.Settings.Toml.Moment
import FeatureGuard.Settings.Toml.Scalar
import FeatureGuard.Settings.Tree
import FeatureGuard.Staging
import FeatureGuard.Text.Alphanumeric
import FeatureGuard.Text.Basic
import FeatureGuard.Text.Boundary
import FeatureGuard.Text.Bytes
import FeatureGuard.Text.Numeral
import FeatureGuard.Text.Printable
import FeatureGuard.Text.Quoted
import FeatureGuard.Text.Resemblance
import FeatureGuard.Time.Calendar
import FeatureGuard.Time.Stamp
import FeatureGuard.Volume.Basic
import FeatureGuard.Volume.Fault
import FeatureGuard.Volume.Node
import FeatureGuard.Volume.Path
import FeatureGuard.Proofs.Text.Word
import FeatureGuard.Proofs.Dependency.Component
import FeatureGuard.Proofs.Dependency.Cycle
import FeatureGuard.Proofs.Dependency.LeastOrder
import FeatureGuard.Proofs.Feature.Dependency
import FeatureGuard.Proofs.Feature.Acceptance
import FeatureGuard.Proofs.Feature.Settlement
import FeatureGuard.Proofs.Feature.Schedule
import FeatureGuard.Proofs.Feature.Arrangement
import FeatureGuard.Proofs.Feature.Mention
import FeatureGuard.Proofs.Feature.Diagnosis
import FeatureGuard.Proofs.Condition.Formula
import FeatureGuard.Proofs.Condition.Meaning
import FeatureGuard.Proofs.Preprocessor.Condition
import FeatureGuard.Proofs.Preprocessor.Pass
import FeatureGuard.Proofs.Preprocessor.Implication
import FeatureGuard.Proofs.Definitions.Statement
import FeatureGuard.Proofs.Definitions.Document
import FeatureGuard.Proofs.Definitions.Line
import FeatureGuard.Proofs.Definitions.Representation
import FeatureGuard.Proofs.Definitions.Comment
import FeatureGuard.Proofs.Definitions.Report
import FeatureGuard.Proofs.Definitions.Concatenation
import FeatureGuard.Proofs.Definitions.Scanner
import FeatureGuard.Proofs.Preprocessor.Derivation
import FeatureGuard.Proofs.Preprocessor.Header
import FeatureGuard.Proofs.Preprocessor.External
import FeatureGuard.Proofs.Feature.Reordering
import FeatureGuard.Proofs.Definitions.Reordering
import FeatureGuard.Proofs.Artifact.Source
import FeatureGuard.Proofs.Preprocessor.Requirement
import FeatureGuard.Proofs.Preprocessor.Reordering
import FeatureGuard.Proofs.Condition.Spelling
import FeatureGuard.Proofs.Condition.Grammar
import FeatureGuard.Proofs.Condition.Rereading
import FeatureGuard.Proofs.Definitions.Grammar
import FeatureGuard.Proofs.Definitions.Exposure
import FeatureGuard.Proofs.Definitions.Location
import FeatureGuard.Proofs.Definitions.Printing
import FeatureGuard.Proofs.Preprocessor.Comment
import FeatureGuard.Proofs.Preprocessor.Line
import FeatureGuard.Proofs.Preprocessor.Script
import FeatureGuard.Proofs.Preprocessor.Scan
import FeatureGuard.Proofs.Preprocessor.Rendering
import FeatureGuard.Proofs.Preprocessor.Artifacts
import FeatureGuard.Proofs.Preprocessor.Source
import FeatureGuard.Proofs.Volume.Shape
import FeatureGuard.Proofs.Volume.Place
import FeatureGuard.Proofs.Volume.Layout
import FeatureGuard.Proofs.Volume.Operation
import FeatureGuard.Proofs.Volume.Parent
import FeatureGuard.Proofs.Volume.Growth
import FeatureGuard.Proofs.Volume.Removal
import FeatureGuard.Proofs.Staging
import FeatureGuard.Proofs.Staging.Rollback
import FeatureGuard.Proofs.Artifact.Include
import FeatureGuard.Proofs.Text.Numeral
import FeatureGuard.Proofs.Time.Calendar
import FeatureGuard.Proofs.Time.Stamp
import FeatureGuard.Proofs.Keyed
import FeatureGuard.Proofs.Settings.Reading
import FeatureGuard.Proofs.Settings.Layer
import FeatureGuard.Proofs.Settings.Spelling
import FeatureGuard.Proofs.Settings.Setting
import FeatureGuard.Proofs.Settings.Source
import FeatureGuard.Proofs.Settings.Load
import FeatureGuard.Proofs.Log.Setup
import FeatureGuard.Proofs.Command.Run

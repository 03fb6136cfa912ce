import ImportSurvey.Dependency.Registry
import ImportSurvey.Main
import ImportSurvey.Proofs.Source.CommentReach
import ImportSurvey.Proofs.Source.HeadGrammar
import ImportSurvey.Proofs.Source.Tiling
import ImportSurvey.Proofs.Source.WrittenHead
import ImportSurvey.Proofs.Constraint.Conjunction
import ImportSurvey.Proofs.Constraint.BeforeClause
import ImportSurvey.Proofs.Constraint.WrittenFormula
import ImportSurvey.Proofs.Constraint.Alternatives
import ImportSurvey.Proofs.Table
import ImportSurvey.Proofs.Text.Elements
import ImportSurvey.Proofs.Dependency.Pins
import ImportSurvey.Proofs.Dependency.Repository
import ImportSurvey.Proofs.Dependency.Root
import ImportSurvey.Proofs.Dependency.Grouping
import ImportSurvey.Proofs.Dependency.Pinned
import ImportSurvey.Proofs.Graph
import ImportSurvey.Proofs.Survey.Collected
import ImportSurvey.Proofs.Survey.PackageGraph
import ImportSurvey.Proofs.Workspace.PathText
import ImportSurvey.Proofs.Workspace.Discovery
import ImportSurvey.Proofs.Workspace.Remembered
import ImportSurvey.Proofs.Survey.Reading
import ImportSurvey.Proofs.Survey.Found
import ImportSurvey.Proofs.Survey.Accounts
import ImportSurvey.Proofs.Workspace.Coherence
import ImportSurvey.Proofs.Dependency.Registrations
import ImportSurvey.Proofs.Config.Filling
import ImportSurvey.Proofs.Config.Editing
import ImportSurvey.Proofs.Config.File
import ImportSurvey.Proofs.CommandLine.FileVerdict
import ImportSurvey.Proofs.Graph.Degrees
import ImportSurvey.Proofs.Dependency.Spellings
import ImportSurvey.Proofs.Survey.PackageDirectory
import ImportSurvey.Proofs.Survey.LocalImports
import ImportSurvey.Proofs.Platform.FileName
import ImportSurvey.Proofs.MoreTags
import ImportSurvey.Proofs.Workspace.Exclusion
import ImportSurvey.Proofs.Source.Literal
import ImportSurvey.Proofs.Config.Tags
import ImportSurvey.Proofs.Config.Usable
import ImportSurvey.Proofs.Config.Unusable
import ImportSurvey.Proofs.Workspace.Snapshot
import ImportSurvey.Proofs.Workspace.Eviction
import ImportSurvey.Proofs.Survey.ProjectPaths
import ImportSurvey.Proofs.Dependency.WrittenPins
import ImportSurvey.Proofs.Platform.Releases

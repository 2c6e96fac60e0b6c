import FeatureRl.Agents.Budgets
import FeatureRl.Agents.CostSums
import FeatureRl.Agents.Episodes
import FeatureRl.Agents.Honesty
import FeatureRl.Agents.Runner
import FeatureRl.Artifacts.Blobs
import FeatureRl.Artifacts.Exposure
import FeatureRl.Audits.Estimates
import FeatureRl.Audits.Selection
import FeatureRl.Contracts.Samples
import FeatureRl.Contracts.Values
import FeatureRl.Environments.Archives
import FeatureRl.Environments.CargoManifest
import FeatureRl.Environments.CiText
import FeatureRl.Environments.Cleanup
import FeatureRl.Environments.CleanupSafety
import FeatureRl.Environments.Closure
import FeatureRl.Environments.ConditionSafety
import FeatureRl.Environments.Conditions
import FeatureRl.Environments.LockReplay
import FeatureRl.Environments.Locks
import FeatureRl.Environments.PendingEvidence
import FeatureRl.Environments.PoetryConstraints
import FeatureRl.Environments.Products
import FeatureRl.Environments.ProjectWheels
import FeatureRl.Environments.Requirements
import FeatureRl.Environments.Resolution
import FeatureRl.Environments.Solutions
import FeatureRl.Environments.Solver
import FeatureRl.Environments.Updates
import FeatureRl.Environments.Walk
import FeatureRl.Environments.Workspaces
import FeatureRl.Evaluation.Estimates
import FeatureRl.Evaluation.Freeze
import FeatureRl.Evaluation.Ledger
import FeatureRl.Evaluation.NativeCleanup
import FeatureRl.Evaluation.NativeSessions
import FeatureRl.Evaluation.Percentiles
import FeatureRl.Evaluation.Preregistration
import FeatureRl.Evaluation.Reports
import FeatureRl.Evaluation.Statistics
import FeatureRl.Generation.Events
import FeatureRl.Generation.Provider
import FeatureRl.Generation.Publication
import FeatureRl.Generation.Schema
import FeatureRl.Generation.Streams
import FeatureRl.Grading.Models
import FeatureRl.Grading.Outcomes
import FeatureRl.Grading.Rewards
import FeatureRl.Grading.Service
import FeatureRl.History.Commits
import FeatureRl.Intake.RequestDocument
import FeatureRl.Intake.Requests
import FeatureRl.Lib.Ascii
import FeatureRl.Lib.Backtrack
import FeatureRl.Lib.Batches
import FeatureRl.Lib.Binary64
import FeatureRl.Lib.Budgeted
import FeatureRl.Lib.Checked
import FeatureRl.Lib.Codec
import FeatureRl.Lib.Dict
import FeatureRl.Lib.Effects
import FeatureRl.Lib.Fixpoint
import FeatureRl.Lib.Gather
import FeatureRl.Lib.Json
import FeatureRl.Lib.JsonNumber
import FeatureRl.Lib.JsonPlaces
import FeatureRl.Lib.JsonReader
import FeatureRl.Lib.JsonSize
import FeatureRl.Lib.Kahn
import FeatureRl.Lib.Lines
import FeatureRl.Lib.Outline
import FeatureRl.Lib.Paths
import FeatureRl.Lib.Pieces
import FeatureRl.Lib.PyText
import FeatureRl.Lib.Ranges
import FeatureRl.Lib.Reads
import FeatureRl.Lib.RoundRobin
import FeatureRl.Lib.Rounding
import FeatureRl.Lib.Sorting
import FeatureRl.Lib.Timestamp
import FeatureRl.Lib.Toml
import FeatureRl.Lib.TomlReader
import FeatureRl.Lib.TomlTables
import FeatureRl.Lib.UnionFind
import FeatureRl.Lib.Utf8
import FeatureRl.Lib.Wilson
import FeatureRl.Lib.Worklist
import FeatureRl.Pipeline.Admission
import FeatureRl.Pipeline.Attempts
import FeatureRl.Pipeline.Authoring
import FeatureRl.Pipeline.Context
import FeatureRl.Pipeline.Definitions
import FeatureRl.Pipeline.GradeJobs
import FeatureRl.Pipeline.GradeRuns
import FeatureRl.Pipeline.GradeSafety
import FeatureRl.Pipeline.GradeSteps
import FeatureRl.Pipeline.Lifecycle
import FeatureRl.Pipeline.Lines
import FeatureRl.Pipeline.Packages
import FeatureRl.Pipeline.Packaging
import FeatureRl.Pipeline.PendingGrades
import FeatureRl.Pipeline.Phases
import FeatureRl.Pipeline.Reservations
import FeatureRl.Pipeline.Retrieval
import FeatureRl.Pipeline.Settlement
import FeatureRl.Pipeline.SourceAdmission
import FeatureRl.Pipeline.SourceImports
import FeatureRl.Pipeline.SourceRuns
import FeatureRl.Pipeline.Spans
import FeatureRl.Pipeline.Tasks
import FeatureRl.Pipeline.Workflow
import FeatureRl.Registry.Atomicity
import FeatureRl.Registry.Changes
import FeatureRl.Registry.Claims
import FeatureRl.Registry.Configuration
import FeatureRl.Registry.Costs
import FeatureRl.Registry.CrashRecovery
import FeatureRl.Registry.Durability
import FeatureRl.Registry.Graph
import FeatureRl.Registry.Historical
import FeatureRl.Registry.History
import FeatureRl.Registry.JobEnds
import FeatureRl.Registry.JobSteps
import FeatureRl.Registry.Jobs
import FeatureRl.Registry.Models
import FeatureRl.Registry.Operations
import FeatureRl.Registry.Paging
import FeatureRl.Registry.Quarantine
import FeatureRl.Registry.Recovery
import FeatureRl.Registry.Replay
import FeatureRl.Registry.Runs
import FeatureRl.Registry.SemanticKeys
import FeatureRl.Registry.State
import FeatureRl.Registry.Storage
import FeatureRl.Registry.Transitions
import FeatureRl.Registry.Verify
import FeatureRl.Splits.Closure
import FeatureRl.Splits.Components
import FeatureRl.Splits.Planning
import FeatureRl.Submission.Deltas
import FeatureRl.Submission.Service
import FeatureRl.Training.Advantages
import FeatureRl.Training.Barrier
import FeatureRl.Training.Groups
import FeatureRl.Training.Minibatches
import FeatureRl.Training.Sampling
import FeatureRl.Training.Service
import FeatureRl.Training.Teardown
import FeatureRl.Training.UpdateBudget

import Transcode.Program
import Transcode.Host.Script
import Transcode.Main
import Transcode.Proofs.ShellWords
import Transcode.Proofs.PrintedCommands
import Transcode.Proofs.Aliases
import Transcode.Proofs.AliasChains
import Transcode.Proofs.Layers
import Transcode.Proofs.FlagOrder
import Transcode.Proofs.PassThrough
import Transcode.Proofs.PathSteps
import Transcode.Proofs.Places
import Transcode.Proofs.Operations
import Transcode.Proofs.EncodedText
import Transcode.Proofs.ShownPaths
import Transcode.Proofs.StagingPlaces
import Transcode.Proofs.Publishing
import Transcode.Proofs.OpenWays
import Transcode.Proofs.JobRuns
import Transcode.Proofs.Batches
import Transcode.Proofs.Objections
import Transcode.Proofs.Refusals
import Transcode.Proofs.GroupIsolation
import Transcode.Proofs.Recompiling
import Transcode.Proofs.Validation
import Transcode.Proofs.PartialSteps
import Transcode.Proofs.SourceUse
import Transcode.Proofs.PathArguments
import Transcode.Proofs.Reports
import Transcode.Proofs.ToolChoice
import Transcode.Proofs.Planning
import Transcode.Proofs.BuiltinPresets
import Transcode.Proofs.FrameScaling
import Transcode.Proofs.NearestHeights
import Transcode.Proofs.FrameSides
import Transcode.Proofs.KeyframeIntervals
import Transcode.Proofs.RulePasses
import Transcode.Proofs.WholeValues
import Transcode.Proofs.WrittenJson
import Transcode.Proofs.WrittenSettings
import Transcode.Proofs.PinnedValues
import Transcode.Proofs.BrokenAliases
import Transcode.Proofs.ExtendedPresets
import Transcode.Proofs.Templates
import Transcode.Proofs.FiniteValues
import Transcode.Proofs.ProbedRates
import Transcode.Proofs.TextPieces
import Transcode.Proofs.EncoderOptions
import Transcode.Proofs.OutputLines
import Transcode.Proofs.ListedPresets
import Transcode.Proofs.OutputNames
import Transcode.Proofs.SparedInputs
import Transcode.Proofs.WrittenSizes

import LintRunner.Application.Basic
import LintRunner.Application.Report
import LintRunner.Application.Session
import LintRunner.Application.Stages
import LintRunner.Check.Basic
import LintRunner.Check.FileChecker
import LintRunner.Check.Manager
import LintRunner.Check.OpenFile
import LintRunner.Config.Finder
import LintRunner.Config.Ini
import LintRunner.Config.Merge
import LintRunner.Decision
import LintRunner.Diff
import LintRunner.Discovery.Dynamic
import LintRunner.Discovery.Walk
import LintRunner.Distribution.Command
import LintRunner.Distribution.Metadata
import LintRunner.Entries
import LintRunner.Exchange.Calls
import LintRunner.Exchange.FaultData
import LintRunner.Exchange.Json
import LintRunner.Exchange.Reading
import LintRunner.Exchange.View
import LintRunner.Fault
import LintRunner.FileTree
import LintRunner.Glob
import LintRunner.Hook.Commit
import LintRunner.Hook.Git
import LintRunner.Hook.Mercurial
import LintRunner.Log
import LintRunner.Main
import LintRunner.Number.Binary64
import LintRunner.Number.Complex
import LintRunner.Number.Integer
import LintRunner.Number.Numeral
import LintRunner.Options.Aggregate
import LintRunner.Options.BugReport
import LintRunner.Options.CommandLine
import LintRunner.Options.CommandOption
import LintRunner.Options.Declaration
import LintRunner.Options.Defaults
import LintRunner.Options.Help
import LintRunner.Options.Registry
import LintRunner.Path
import LintRunner.PerFile.Mapping
import LintRunner.PerFile.Token
import LintRunner.Plugin.BuiltIn
import LintRunner.Plugin.Catalogue
import LintRunner.Plugin.Collection
import LintRunner.Plugin.Described
import LintRunner.Plugin.EntryPoint
import LintRunner.Plugin.Extension
import LintRunner.Plugin.Flakes
import LintRunner.Plugin.Rules
import LintRunner.Plugin.Signature
import LintRunner.Proofs.AggregatedSettings
import LintRunner.Proofs.AttributeValues
import LintRunner.Proofs.CheckMemories
import LintRunner.Proofs.CheckedLines
import LintRunner.Proofs.ClimbedDirectories
import LintRunner.Proofs.CodeSettings
import LintRunner.Proofs.CodeTotals
import LintRunner.Proofs.CommandWords
import LintRunner.Proofs.ConfiguredValues
import LintRunner.Proofs.CopiedFiles
import LintRunner.Proofs.DecidingConditions
import LintRunner.Proofs.DecimalNumerals
import LintRunner.Proofs.Decisions
import LintRunner.Proofs.DiffSections
import LintRunner.Proofs.DoctestPaths
import LintRunner.Proofs.EnabledPlugins
import LintRunner.Proofs.FailedLoads
import LintRunner.Proofs.FedLines
import LintRunner.Proofs.FilesBelow
import LintRunner.Proofs.Frames
import LintRunner.Proofs.GuidedFindings
import LintRunner.Proofs.IndentColumns
import LintRunner.Proofs.JoinedOptions
import LintRunner.Proofs.KnownWords
import LintRunner.Proofs.LatestSpelling
import LintRunner.Proofs.Lexemes
import LintRunner.Proofs.LineCalls
import LintRunner.Proofs.LineSurroundings
import LintRunner.Proofs.LinesInStep
import LintRunner.Proofs.ListedSuppressions
import LintRunner.Proofs.LogicalPlaces
import LintRunner.Proofs.LongestPatterns
import LintRunner.Proofs.LowerCase
import LintRunner.Proofs.MappingClauses
import LintRunner.Proofs.MappingLexemes
import LintRunner.Proofs.MarkedDiffs
import LintRunner.Proofs.MergedFiles
import LintRunner.Proofs.MetOptions
import LintRunner.Proofs.MutedStrings
import LintRunner.Proofs.NamedEntries
import LintRunner.Proofs.NormalValues
import LintRunner.Proofs.OpenedFiles
import LintRunner.Proofs.PassedOverFiles
import LintRunner.Proofs.PathNames
import LintRunner.Proofs.PerFileGuides
import LintRunner.Proofs.PipedLines
import LintRunner.Proofs.PipedSource
import LintRunner.Proofs.PlaceOrder
import LintRunner.Proofs.PreliminarySettings
import LintRunner.Proofs.PunctualFeed
import LintRunner.Proofs.ReadSettings
import LintRunner.Proofs.ReadingEnds
import LintRunner.Proofs.ReadingOrder
import LintRunner.Proofs.RecordedRun
import LintRunner.Proofs.RefusedValues
import LintRunner.Proofs.RegisteredPlugins
import LintRunner.Proofs.Registrations
import LintRunner.Proofs.RememberedConfiguration
import LintRunner.Proofs.Reports
import LintRunner.Proofs.RestoredNames
import LintRunner.Proofs.Rounds
import LintRunner.Proofs.RunSteps
import LintRunner.Proofs.ScannedLines
import LintRunner.Proofs.SearchedDirectories
import LintRunner.Proofs.Stateful
import LintRunner.Proofs.Tallies
import LintRunner.Proofs.TextLines
import LintRunner.Proofs.Titles
import LintRunner.Proofs.TokenLayout
import LintRunner.Proofs.TokenLedger
import LintRunner.Proofs.TokenRows
import LintRunner.Proofs.TreeFiles
import LintRunner.Proofs.Workers
import LintRunner.Proofs.WrittenMappings
import LintRunner.Report.Formatter
import LintRunner.Settings
import LintRunner.Source.Compile
import LintRunner.Source.Encoding
import LintRunner.Source.LogicalLine
import LintRunner.Source.Processor
import LintRunner.Source.Token
import LintRunner.Source.Tokenizer
import LintRunner.Statistics
import LintRunner.StyleGuide
import LintRunner.Suppression
import LintRunner.Text.Basic
import LintRunner.Text.Blank
import LintRunner.Text.Cased
import LintRunner.Text.Digit
import LintRunner.Text.Lines
import LintRunner.Text.Lower
import LintRunner.Text.Printable
import LintRunner.Text.Quoted
import LintRunner.Text.Template
import LintRunner.Text.Upper
import LintRunner.Text.Word
import LintRunner.Text.Wrap
import LintRunner.Value
import LintRunner.Value.Arithmetic
import LintRunner.Value.Order
import LintRunner.Value.Sequence
import LintRunner.Violation
import LintRunner.World

import SeriesQuery.Cache
import SeriesQuery.Catalog.Basic
import SeriesQuery.Catalog.Pattern
import SeriesQuery.Catalog.Predicate
import SeriesQuery.Catalog.Regex
import SeriesQuery.Catalog.StandardRegex
import SeriesQuery.Catalog.Value
import SeriesQuery.CommandLine.Arguments
import SeriesQuery.CommandLine.Help
import SeriesQuery.CommandLine.Program
import SeriesQuery.CommandLine.Report
import SeriesQuery.Commands
import SeriesQuery.DataSet
import SeriesQuery.Engine.Answer
import SeriesQuery.Engine.Evaluate
import SeriesQuery.Engine.Label
import SeriesQuery.Engine.Plan
import SeriesQuery.Engine.Session
import SeriesQuery.Evaluation.Apply
import SeriesQuery.Evaluation.Choice
import SeriesQuery.Evaluation.Parameter
import SeriesQuery.Evaluation.Reduction
import SeriesQuery.Evaluation.Scope
import SeriesQuery.Evaluation.Shuffle
import SeriesQuery.Expression.Basic
import SeriesQuery.Expression.Outline
import SeriesQuery.Expression.Scan
import SeriesQuery.Fault
import SeriesQuery.Fields
import SeriesQuery.Json.Basic
import SeriesQuery.Json.Printer
import SeriesQuery.Json.Reader
import SeriesQuery.Json.Record
import SeriesQuery.Libraries
import SeriesQuery.Main
import SeriesQuery.Number.Binary
import SeriesQuery.Number.Decimal
import SeriesQuery.Number.Power
import SeriesQuery.Number.Printing
import SeriesQuery.Number.Shortest
import SeriesQuery.Operator
import SeriesQuery.Proofs.Assembly
import SeriesQuery.Proofs.Binary64.Arithmetic
import SeriesQuery.Proofs.Binary64.Nearest
import SeriesQuery.Proofs.Binary64.Order
import SeriesQuery.Proofs.Binary64.Packing
import SeriesQuery.Proofs.Binary64.Products
import SeriesQuery.Proofs.Binary64.Rank
import SeriesQuery.Proofs.Binary64.Rounding
import SeriesQuery.Proofs.Binary64.Spread
import SeriesQuery.Proofs.Binary64.Sum
import SeriesQuery.Proofs.Binary64.WholeNumbers
import SeriesQuery.Proofs.CacheFaithful
import SeriesQuery.Proofs.CacheTransparency
import SeriesQuery.Proofs.Delivery
import SeriesQuery.Proofs.ErrorIsolation
import SeriesQuery.Proofs.ExpressionOrder
import SeriesQuery.Proofs.FaultKinds
import SeriesQuery.Proofs.FunctionOrder
import SeriesQuery.Proofs.Queries
import SeriesQuery.Proofs.SliceAlignment
import SeriesQuery.Proofs.SliceOrder
import SeriesQuery.Proofs.SliceReading
import SeriesQuery.Proofs.SliceWindows
import SeriesQuery.Proofs.Steps
import SeriesQuery.Proofs.Trimming
import SeriesQuery.RawData
import SeriesQuery.Request
import SeriesQuery.Resolver
import SeriesQuery.Response
import SeriesQuery.Sample
import SeriesQuery.Selection
import SeriesQuery.Settings
import SeriesQuery.Slicer
import SeriesQuery.Sorting
import SeriesQuery.Source
import SeriesQuery.Targets
import SeriesQuery.Text.Alphanumeric
import SeriesQuery.Text.Basic
import SeriesQuery.Text.Blank
import SeriesQuery.Text.ByteRanges
import SeriesQuery.Text.Folding
import SeriesQuery.Text.Grammar
import SeriesQuery.Text.Guid
import SeriesQuery.Text.Literal
import SeriesQuery.Text.Lowercase
import SeriesQuery.Text.Mismatch
import SeriesQuery.Text.Nesting
import SeriesQuery.Text.Property
import SeriesQuery.Thinning
import SeriesQuery.Time.Clock
import SeriesQuery.Time.Date
import SeriesQuery.Time.Duration
import SeriesQuery.Time.Range
import SeriesQuery.Toml.Basic
import SeriesQuery.Toml.Reader
import SeriesQuery.Toml.Scalars
import SeriesQuery.Toml.Strings
import SeriesQuery.Unit.Angle
import SeriesQuery.Unit.Time
import SeriesQuery.Proofs.LabelCache
import SeriesQuery.Proofs.Parentheses
import SeriesQuery.Proofs.ScanSteps
import SeriesQuery.Proofs.CallPlaces
import SeriesQuery.Proofs.TopLevelCalls
import SeriesQuery.Proofs.JoinedFields
import SeriesQuery.Proofs.CallSpelling
import SeriesQuery.Proofs.FetchPlan
import SeriesQuery.Proofs.PlannedEvaluation
import SeriesQuery.Proofs.SingleFetch
import SeriesQuery.Proofs.SlicePassing
import SeriesQuery.Proofs.NestingDepth
import SeriesQuery.Proofs.Cancellation
import SeriesQuery.Proofs.ArchiveReading
import SeriesQuery.Proofs.LiteralTargets
import SeriesQuery.Proofs.FirstOccurrences
import SeriesQuery.Proofs.TargetColumns
import SeriesQuery.Proofs.TargetHistory
import SeriesQuery.Proofs.SlicePointwise
import SeriesQuery.Proofs.SetNaming
import SeriesQuery.Proofs.CharacterClasses
import SeriesQuery.Proofs.QuotedValues
import SeriesQuery.Proofs.CatalogValues
import SeriesQuery.Proofs.GuidSpellings
import SeriesQuery.Proofs.RowNames
import SeriesQuery.Proofs.CacheHistory
import SeriesQuery.Proofs.ClosedTexts
import SeriesQuery.Proofs.PredicateReaders
import SeriesQuery.Proofs.PredicateReading
import SeriesQuery.Proofs.PredicateComposition
import SeriesQuery.Proofs.CompiledPatterns
import SeriesQuery.Proofs.PredicateSpelling
import SeriesQuery.Proofs.PhrasePlaces
import SeriesQuery.Proofs.ClauseWords
import SeriesQuery.Proofs.TrailingTop
import SeriesQuery.Proofs.ClauseOrder
import SeriesQuery.Proofs.SelectionSpelling
import SeriesQuery.Proofs.CacheAccounts
import SeriesQuery.Proofs.DistinctNames
import SeriesQuery.Proofs.LabelNames
import SeriesQuery.Proofs.ClauseReading
import SeriesQuery.Proofs.Binary64.Quotients
import SeriesQuery.Proofs.Binary64.Units
import SeriesQuery.Proofs.PercentilePlaces
import SeriesQuery.Proofs.StandardRegex
import SeriesQuery.Proofs.PatternPieces
import SeriesQuery.Proofs.CatalogSorting
import SeriesQuery.Proofs.RelatedSteps
import SeriesQuery.Proofs.NamesApart
import SeriesQuery.Proofs.LabelGroupings
import SeriesQuery.Proofs.DelimitedFields
import SeriesQuery.Proofs.CommandSegments
import SeriesQuery.Proofs.SessionsAbreast
import SeriesQuery.Proofs.QuotedTemplates
import SeriesQuery.Proofs.Buckets
import SeriesQuery.Proofs.ValueRanks
import SeriesQuery.Proofs.Peaks
import SeriesQuery.Proofs.Ranking
import SeriesQuery.Proofs.ExtremeValues
import SeriesQuery.Proofs.ThinnedAnswers
import SeriesQuery.Proofs.ValueSpread
import SeriesQuery.Proofs.MostFrequent
import SeriesQuery.Proofs.DistinctValues
import SeriesQuery.Proofs.SliceProgress
import SeriesQuery.Proofs.SpacedSamples
import SeriesQuery.Proofs.FullCircles
import SeriesQuery.Proofs.CatalogTables
import SeriesQuery.Proofs.Binary64.Overflow
import SeriesQuery.Proofs.DecimalRounding
import SeriesQuery.Proofs.BucketRanges

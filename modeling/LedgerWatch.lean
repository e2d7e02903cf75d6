import LedgerWatch.Batch
import LedgerWatch.Calendar.Layout
import LedgerWatch.Calendar.Moment
import LedgerWatch.Calendar.Timestamp
import LedgerWatch.Command.Arguments
import LedgerWatch.Command.Detect
import LedgerWatch.Command.Display
import LedgerWatch.Command.Host
import LedgerWatch.Contextual.Groups
import LedgerWatch.Density.Heap
import LedgerWatch.Density.LocalOutlier
import LedgerWatch.Density.Neighbors
import LedgerWatch.Detector
import LedgerWatch.Ensemble.Engine
import LedgerWatch.Ensemble.Report
import LedgerWatch.Ensemble.Settings
import LedgerWatch.Ensemble.SettingsJson
import LedgerWatch.Fault
import LedgerWatch.Finding.Basic
import LedgerWatch.Finding.Json
import LedgerWatch.Finding.Ranking
import LedgerWatch.Finding.Severity
import LedgerWatch.Isolation.Forest
import LedgerWatch.Isolation.Tree
import LedgerWatch.Isolation.TreeJson
import LedgerWatch.Json.Decode
import LedgerWatch.Json.Draft
import LedgerWatch.Json.Lexer
import LedgerWatch.Json.Number
import LedgerWatch.Json.Printer
import LedgerWatch.Json.Token
import LedgerWatch.Json.Value
import LedgerWatch.Main
import LedgerWatch.Network.Behavior
import LedgerWatch.Network.Clusters
import LedgerWatch.Network.Components
import LedgerWatch.Network.Graph
import LedgerWatch.Number.Binary64
import LedgerWatch.Number.Elementary
import LedgerWatch.Number.Reading
import LedgerWatch.Number.Shortest
import LedgerWatch.Number.Writing
import LedgerWatch.Proofs.Batch.Layouts
import LedgerWatch.Proofs.Batch.Lines
import LedgerWatch.Proofs.Calendar.Days
import LedgerWatch.Proofs.Calendar.Ranks
import LedgerWatch.Proofs.Calendar.Stamps
import LedgerWatch.Proofs.Calendar.Written
import LedgerWatch.Proofs.Columns
import LedgerWatch.Proofs.Command.Outcomes
import LedgerWatch.Proofs.Command.Seeds
import LedgerWatch.Proofs.Command.World
import LedgerWatch.Proofs.Contextual.Findings
import LedgerWatch.Proofs.Contextual.Outliers
import LedgerWatch.Proofs.Contextual.Separation
import LedgerWatch.Proofs.Contextual.Verdicts
import LedgerWatch.Proofs.Counts
import LedgerWatch.Proofs.Density.Findings
import LedgerWatch.Proofs.Density.HeapContent
import LedgerWatch.Proofs.Density.HeapOrder
import LedgerWatch.Proofs.Density.Nearest
import LedgerWatch.Proofs.Density.Neighborhood
import LedgerWatch.Proofs.Density.Renamed
import LedgerWatch.Proofs.Density.Standings
import LedgerWatch.Proofs.Ensemble.Descending
import LedgerWatch.Proofs.Ensemble.Distinct
import LedgerWatch.Proofs.Ensemble.History
import LedgerWatch.Proofs.Ensemble.Independence
import LedgerWatch.Proofs.Ensemble.Insertion
import LedgerWatch.Proofs.Ensemble.Legible
import LedgerWatch.Proofs.Ensemble.Overlay
import LedgerWatch.Proofs.Ensemble.Patterns
import LedgerWatch.Proofs.Ensemble.Scores
import LedgerWatch.Proofs.Ensemble.SettingsText
import LedgerWatch.Proofs.Ensemble.Sizes
import LedgerWatch.Proofs.Ensemble.Tallies
import LedgerWatch.Proofs.Ensemble.Verdicts
import LedgerWatch.Proofs.Features
import LedgerWatch.Proofs.Finding.About
import LedgerWatch.Proofs.Finding.Grades
import LedgerWatch.Proofs.Finding.Prioritized
import LedgerWatch.Proofs.Finding.Ranked
import LedgerWatch.Proofs.Finding.Reread
import LedgerWatch.Proofs.Finding.Roster
import LedgerWatch.Proofs.Finding.Subjects
import LedgerWatch.Proofs.Groups
import LedgerWatch.Proofs.Insertion.Contextual
import LedgerWatch.Proofs.Insertion.Density
import LedgerWatch.Proofs.Insertion.Inert
import LedgerWatch.Proofs.Insertion.Isolation
import LedgerWatch.Proofs.Insertion.Network
import LedgerWatch.Proofs.Insertion.Position
import LedgerWatch.Proofs.Insertion.Similarity
import LedgerWatch.Proofs.Insertion.Temporal
import LedgerWatch.Proofs.Isolation.Findings
import LedgerWatch.Proofs.Isolation.Flagged
import LedgerWatch.Proofs.Isolation.Growth
import LedgerWatch.Proofs.Isolation.Lineage
import LedgerWatch.Proofs.Isolation.Lookups
import LedgerWatch.Proofs.Isolation.Routing
import LedgerWatch.Proofs.Isolation.Scorable
import LedgerWatch.Proofs.Isolation.Shape
import LedgerWatch.Proofs.Isolation.Splits
import LedgerWatch.Proofs.Json.Decimals
import LedgerWatch.Proofs.Json.Drafts
import LedgerWatch.Proofs.Json.Edits
import LedgerWatch.Proofs.Json.Kept
import LedgerWatch.Proofs.Json.Lexing
import LedgerWatch.Proofs.Json.Literals
import LedgerWatch.Proofs.Json.Pretty
import LedgerWatch.Proofs.Json.Rereading
import LedgerWatch.Proofs.Json.Spelling
import LedgerWatch.Proofs.Json.Unambiguous
import LedgerWatch.Proofs.Keys
import LedgerWatch.Proofs.Lists
import LedgerWatch.Proofs.Network.Clusters
import LedgerWatch.Proofs.Network.Connected
import LedgerWatch.Proofs.Network.Findings
import LedgerWatch.Proofs.Network.Incidence
import LedgerWatch.Proofs.Network.Moved
import LedgerWatch.Proofs.Network.Positions
import LedgerWatch.Proofs.Network.Reachability
import LedgerWatch.Proofs.Network.Reordered
import LedgerWatch.Proofs.Network.Representation
import LedgerWatch.Proofs.Network.Subjects
import LedgerWatch.Proofs.Network.Verdicts
import LedgerWatch.Proofs.Number.Comparison
import LedgerWatch.Proofs.Number.Decimals
import LedgerWatch.Proofs.Number.Extremes
import LedgerWatch.Proofs.Number.Magnitude
import LedgerWatch.Proofs.Number.Mixtures
import LedgerWatch.Proofs.Number.Nearest
import LedgerWatch.Proofs.Number.Operations
import LedgerWatch.Proofs.Number.Order
import LedgerWatch.Proofs.Number.Packing
import LedgerWatch.Proofs.Number.Parts
import LedgerWatch.Proofs.Number.Powers
import LedgerWatch.Proofs.Number.Quotients
import LedgerWatch.Proofs.Number.Reading
import LedgerWatch.Proofs.Number.Rounding
import LedgerWatch.Proofs.Number.Signs
import LedgerWatch.Proofs.Number.Values
import LedgerWatch.Proofs.Presence
import LedgerWatch.Proofs.Random.Periods
import LedgerWatch.Proofs.Random.SampleRange
import LedgerWatch.Proofs.Rearrangement.Density
import LedgerWatch.Proofs.Rearrangement.Matched
import LedgerWatch.Proofs.Rearrangement.Members
import LedgerWatch.Proofs.Rearrangement.Network
import LedgerWatch.Proofs.Rearrangement.Temporal
import LedgerWatch.Proofs.Record.Decorated
import LedgerWatch.Proofs.Scores.Basic
import LedgerWatch.Proofs.Scores.Bounded
import LedgerWatch.Proofs.Scores.Deviations
import LedgerWatch.Proofs.Scores.Shares
import LedgerWatch.Proofs.Scores.Trend
import LedgerWatch.Proofs.Similarity.Findings
import LedgerWatch.Proofs.Stats.Distances
import LedgerWatch.Proofs.Stats.Exact
import LedgerWatch.Proofs.Stats.LeastSquares
import LedgerWatch.Proofs.Stats.LeaveOneOut
import LedgerWatch.Proofs.Stats.LoneOutlier
import LedgerWatch.Proofs.Stats.PeerLists
import LedgerWatch.Proofs.Stats.Spread
import LedgerWatch.Proofs.Stats.Standardized
import LedgerWatch.Proofs.Temporal.Chronology
import LedgerWatch.Proofs.Temporal.Findings
import LedgerWatch.Proofs.Temporal.Later
import LedgerWatch.Proofs.Temporal.Moved
import LedgerWatch.Proofs.Temporal.Trends
import LedgerWatch.Proofs.Temporal.Verdicts
import LedgerWatch.Proofs.Text.Blanks
import LedgerWatch.Proofs.Text.Bytes
import LedgerWatch.Random.Draws
import LedgerWatch.Random.Sample
import LedgerWatch.Random.Stream
import LedgerWatch.Record.Basic
import LedgerWatch.Record.Features
import LedgerWatch.Similarity.OneClass
import LedgerWatch.Sorted
import LedgerWatch.Stats.Distance
import LedgerWatch.Stats.Line
import LedgerWatch.Stats.Peers
import LedgerWatch.Stats.Quantity
import LedgerWatch.Stats.Standardize
import LedgerWatch.Stats.Summary
import LedgerWatch.Table
import LedgerWatch.Temporal.Series
import LedgerWatch.Text.Blank
import LedgerWatch.Text.Hidden
import LedgerWatch.Text.Quoted

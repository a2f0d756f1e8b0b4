import Aniani.ForMathlib.Finmap
import Aniani.ForMathlib.InvertedIndex
import Aniani.ForMathlib.IterOrder
import Aniani.ForMathlib.RoseTree
import Aniani.ForMathlib.RoundEven
import Aniani.ForMathlib.Run
import Aniani.ForMathlib.Share
import Aniani.ForMathlib.SortedList
import Aniani.ForMathlib.SortedGroups
import Aniani.ForMathlib.FirstSeen
import Aniani.ForMathlib.DedupByKey
import Aniani.ForMathlib.TopK
import Aniani.ForMathlib.StackSearch
import Aniani.ForMathlib.Tally
import Aniani.ForMathlib.Tiling
import Aniani.ForMathlib.WhileLoop
import Aniani.ForMathlib.Words
import Aniani.ForMathlib.BinaryHeap
import Aniani.ForMathlib.OptionWalk
import Aniani.ForMathlib.Outlasts
import Aniani.ForMathlib.Signal
import Aniani.ForMathlib.KeyedPerm
import Aniani.ForMathlib.PairJoin
import Aniani.ForMathlib.CountLe
import Aniani.ForMathlib.Pieces
import Aniani.ForMathlib.Leads
import Aniani.ForMathlib.ReplaceAll
import Aniani.Store.Attribute
import Aniani.Store.Interner
import Aniani.Store.PostingList
import Aniani.Store.LabelStore
import Aniani.Store.LabelIndex
import Aniani.Store.Consistency
import Aniani.Store.LogStore
import Aniani.Store.MetricStore
import Aniani.Store.Reachable
import Aniani.Store.TraceIndex
import Aniani.Store.Select
import Aniani.Store.TraceStore
import Aniani.Store.TraceConsistency
import Aniani.Store.Held
import Aniani.Query.Window
import Aniani.ForMathlib.Combinator
import Aniani.Query.Text
import Aniani.Query.Lexical
import Aniani.Query.Timestamps
import Aniani.Query.StepCap
import Aniani.Query.PromQL.Series
import Aniani.Query.LogQL.Syntax
import Aniani.Query.LogQL.Parser
import Aniani.Query.LogQL.Eval
import Aniani.Query.LogQL.Logfmt
import Aniani.Query.LogQL.Newest
import Aniani.Query.LogQL.Overflow
import Aniani.Query.LogQL.TieOrder
import Aniani.Query.LogQL.Tiling
import Aniani.ForMathlib.BreakOn
import Aniani.Mcp.Logs
import Aniani.Mcp.Origin
import Aniani.Mcp.Queries
import Aniani.Mcp.TraceTree
import Aniani.Mcp.MinDuration
import Aniani.Mcp.Args
import Aniani.Mcp.Health
import Aniani.Ingest.Otlp
import Aniani.Ingest.Metrics
import Aniani.Ingest.Names
import Aniani.Ingest.Atomicity
import Aniani.Ingest.Commit
import Aniani.Ingest.Registrations
import Aniani.Ingest.Metadata
import Aniani.Ingest.Logs
import Aniani.Ingest.Traces
import Aniani.Ingest.Stamped
import Aniani.Server.State
import Aniani.Server.Activity
import Aniani.Server.Numbers
import Aniani.Server.Checkpoint
import Aniani.Server.Sequence
import Aniani.Server.Snapshot
import Aniani.Ingest.Grouping
import Aniani.Ingest.Histogram
import Aniani.Ingest.LabelSources
import Aniani.Store.Identity
import Aniani.Store.LabelSet
import Aniani.Server.LabelSets
import Aniani.Server.Reset
import Aniani.Store.Contents
import Aniani.Store.Batching
import Aniani.Store.Eviction
import Aniani.Store.Retention
import Aniani.Store.Restore
import Aniani.Query.Binary64
import Aniani.Query.FloatOrder
import Aniani.Query.DurationLimits
import Aniani.Query.DurationValue
import Aniani.Query.FloatOps
import Aniani.Query.TraceQL.Selector
import Aniani.Query.TraceQL.Parser
import Aniani.Query.TraceQL.Readable
import Aniani.Query.TraceQL.Remainder
import Aniani.Query.TraceQL.Conditions
import Aniani.Query.TraceQL.Structural
import Aniani.Query.TraceQL.Keywords
import Aniani.Query.TraceQL.Narrowing
import Aniani.Query.TraceQL.StructuralResults
import Aniani.Query.TraceQL.Regexes
import Aniani.Query.TraceQL.Complement
import Aniani.Query.PromQL.Syntax
import Aniani.Query.PromQL.Functions
import Aniani.Query.PromQL.Selectors
import Aniani.Query.PromQL.Aggregation
import Aniani.Query.PromQL.Binary
import Aniani.Query.PromQL.Eval
import Aniani.Query.PromQL.Stepwise
import Aniani.Query.PromQL.Lookback
import Aniani.Query.PromQL.AtModifier
import Aniani.Query.PromQL.TopOperators
import Aniani.Query.PromQL.GroupRight
import Aniani.Query.PromQL.SortedLabels
import Aniani.Query.PromQL.LabelOrder
import Aniani.Ui.TraceModel
import Aniani.Ui.Waterfall
import Aniani.Query.PromQL.HistogramSteps
import Aniani.Query.Exact
import Aniani.Query.PromQL.Interpolation
import Aniani.Query.PromQL.HistogramBounds
import Aniani.Query.PromQL.Rate
import Aniani.Api.Summary
import Aniani.Api.Diagnose
import Aniani.Query.HexIds
import Aniani.Query.LogQL.ParserSafety
import Aniani.Query.LogQL.Spelling
import Aniani.Query.TraceQL.Search
import Aniani.Query.PromQL.LabelReplace
import Aniani.Server.Lifetime
import Aniani.Server.RunEviction
import Aniani.ForMathlib.Journal
import Aniani.Ingest.Resolved
import Aniani.Store.Journal
import Aniani.Server.Journal
import Aniani.Query.Reported
import Aniani.Query.LogQL.Answers
import Aniani.Query.TraceQL.Export
import Aniani.Server.Answers
import Aniani.Api.Services
import Aniani.Api.Catalog
import Aniani.Mcp.Protocol
import Aniani.Mcp.Schema
import Aniani.Mcp.Tools
import Aniani.Mcp.Dispatch
import Aniani.Mcp.Host
import Aniani.Ingest.LokiJson
import Aniani.Query.LogQL.Export
import Aniani.Server.Export

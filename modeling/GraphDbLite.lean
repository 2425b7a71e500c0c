import GraphDbLite.AdjacencyDecoding
import GraphDbLite.CacheCalls
import GraphDbLite.ComparisonOperators
import GraphDbLite.CompiledPatterns
import GraphDbLite.DurationPanics
import GraphDbLite.EdgeEndpoints
import GraphDbLite.EdgeFreshness
import GraphDbLite.FullTextCatalogue
import GraphDbLite.GroupCounts
import GraphDbLite.HashedValues
import GraphDbLite.HopFilters
import GraphDbLite.IndexLookups
import GraphDbLite.InlineIndex
import GraphDbLite.IntegerSums
import GraphDbLite.LabelScan
import GraphDbLite.LimitPushdown
import GraphDbLite.MergeIdempotence
import GraphDbLite.OptionalMatch
import GraphDbLite.PullExecution
import GraphDbLite.RangeFunction
import GraphDbLite.RelationshipWrites
import GraphDbLite.ReturnOrder
import GraphDbLite.SizeLimits
import GraphDbLite.SlotRecords
import GraphDbLite.StatementCounts
import GraphDbLite.StatementScopes
import GraphDbLite.StorableValues
import GraphDbLite.TextRewrite
import GraphDbLite.TransactionIsolation
import GraphDbLite.TraversalDepths
import GraphDbLite.WhereIndex
import GraphDbLite.WorkBudget

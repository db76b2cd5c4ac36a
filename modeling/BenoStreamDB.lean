import BenoStreamDB.Manifest.Sync
import BenoStreamDB.Query.PartitionGroups
import BenoStreamDB.Query.TimeTransforms
import BenoStreamDB.Segment.Statistics
import BenoStreamDB.Segment.IndexBuild
import BenoStreamDB.Wal.Worker
import BenoStreamDB.Wal.Compaction
import BenoStreamDB.Reader.DeleteLoading
import BenoStreamDB.Reader.EqualityDeletes
import BenoStreamDB.Table.FilterMasks
import BenoStreamDB.Table.SpecEvolution
import BenoStreamDB.Table.MetadataFrame
import BenoStreamDB.Sql.IndexJoin
import BenoStreamDB.Query.VectorPruning
import BenoStreamDB.Reader.FlatExact
import BenoStreamDB.Segment.Puffin
import BenoStreamDB.Reader.PhraseSearch
import BenoStreamDB.Search.Auth
import BenoStreamDB.Search.SparseVectors
import BenoStreamDB.Table.FileLock
import BenoStreamDB.Query.KeyFilters
import BenoStreamDB.Table.Clustering
import BenoStreamDB.Table.Splits
import BenoStreamDB.Sql.Rerank
import BenoStreamDB.Algorithms.Frontier
import BenoStreamDB.Algorithms.WarmStart
import BenoStreamDB.Sql.AllShortestPaths
import BenoStreamDB.Algorithms.CsrComponents
import BenoStreamDB.Algorithms.TopologicalSort
import BenoStreamDB.Sql.CachingGraph
import BenoStreamDB.Sql.PartialAggregates
import BenoStreamDB.Search.IndexCache
import BenoStreamDB.Index.HnswInsert
import BenoStreamDB.Table.Subscriptions

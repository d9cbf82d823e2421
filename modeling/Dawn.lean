import Dawn.Buffer.ClockTurns
import Dawn.Buffer.PageImages
import Dawn.Buffer.PoolFailures
import Dawn.Buffer.PoolThreads
import Dawn.Buffer.ThresholdPages
import Dawn.Buffer.TmpPages
import Dawn.Executors.CartesianProduct
import Dawn.Executors.JoinedSchema
import Dawn.Executors.Projection
import Dawn.Executors.SelectionScan
import Dawn.Index.ClearFront
import Dawn.Index.InsertCalls
import Dawn.Index.Leaks
import Dawn.Index.LoopEnds
import Dawn.Index.Overflow
import Dawn.Meta.CatalogNames
import Dawn.Meta.DropTable
import Dawn.Meta.SchemaRoundTrip
import Dawn.Server.Accept
import Dawn.Server.Dispatch
import Dawn.Server.Ownership
import Dawn.Server.PoolHistory
import Dawn.Server.Receive
import Dawn.Sql.Conditions
import Dawn.Sql.CreateDefs
import Dawn.Sql.InsertData
import Dawn.Sql.Printing
import Dawn.Sql.Texts
import Dawn.Storage.Compaction
import Dawn.Storage.Crash
import Dawn.Storage.MetaFile
import Dawn.Storage.PageOffsets
import Dawn.Storage.SlotStore
import Dawn.Table.EqualKeys
import Dawn.Table.Lookup
import Dawn.Util.LatchThreads

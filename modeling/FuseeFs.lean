import FuseeFs.Replication.Deletion
import FuseeFs.Replication.Insertion
import FuseeFs.KeyValue.Linearizable
import FuseeFs.Recovery.Delete
import FuseeFs.Engine.Concurrent
import FuseeFs.Engine.Threads
import FuseeFs.Replication.LosingWriter
import FuseeFs.Client.Phases
import FuseeFs.Recovery.Completion
import FuseeFs.Replication.IterativeCas
import FuseeFs.Crash.Search
import FuseeFs.Crash.TranslateTable
import FuseeFs.Memory.SubblockPool
import FuseeFs.Recovery.FailedInsert
import FuseeFs.KeyValue.CachedReads
import FuseeFs.Engine.Confinement
import FuseeFs.Engine.Locking
import FuseeFs.Engine.CentralLocks
import FuseeFs.Engine.SharedCounter
import FuseeFs.Memory.ServerBlocks
import FuseeFs.Replication.LostWrites
import FuseeFs.Memory.GcSlot
import FuseeFs.Network.Messages
import FuseeFs.Index.Geometry
import FuseeFs.Index.FreeSlots
import FuseeFs.Memory.BlockWords
import FuseeFs.Memory.BitmapSize
import FuseeFs.Engine.Refinement
import FuseeFs.Network.Completions
import FuseeFs.Engine.ClientStore
import FuseeFs.Library.Store.Bindings

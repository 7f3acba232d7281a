import Difs.Lib.HexText
import Difs.Lib.PropertyTree
import Difs.Lib.SortedMap
import Difs.Lib.InputStream
import Difs.Lib.Tiling
import Difs.Lib.EventRun
import Difs.KeySpace.Handle
import Difs.KeySpace.Routing
import Difs.KeySpace.Join
import Difs.KeySpace.Leave
import Difs.KeySpace.Selection
import Difs.KeySpace.LocalRange
import Difs.KeySpace.Routes
import Difs.KeySpace.Undo
import Difs.Lib.Exchange
import Difs.Manifest
import Difs.Client.Consumer
import Difs.Client.PutFile
import Difs.Client.Requests
import Difs.Lib.Asserted
import Difs.Command.Validation
import Difs.Command.Assertions
import Difs.Cluster.Network
import Difs.KeySpace.Versions
import Difs.KeySpace.Inapplicable
import Difs.KeySpace.Notices
import Difs.Cluster.Handlers
import Difs.Cluster.Snapshots
import Difs.Cluster.Order
import Difs.Cluster.Coordination
import Difs.Cluster.Migration
import Difs.Cluster.Ranges
import Difs.Names
import Difs.DataStore
import Difs.Insert.WriteHandle
import Difs.Insert.Keys
import Difs.Insert.Segments
import Difs.Insert.NoEnd
import Difs.Insert.Network
import Difs.Insert.Admission
import Difs.Lib.Tlv
import Difs.Command.Parameter
import Difs.Command.Response
import Difs.Insert.Responses
import Difs.Lib.Framing
import Difs.Bulk.TcpBulkInsert
import Difs.Lib.Threads
import Difs.Get.ReadHandle
import Difs.KeySpace.Retries
import Difs.Delete.DeleteHandle
import Difs.Delete.Deletions
import Difs.Delete.ManifestLast
import Difs.Storage.FsStorage
import Difs.ManifestTree
import Difs.Storage.MongoDBStorage
import Difs.Storage.Interchange
import Difs.Storage.FullNames
import Difs.Storage.Prefixes
import Difs.Storage.PrefixCounts
import Difs.Delete.Answers
import Difs.Lib.CountedLoop
import Difs.Delete.BlockRange
import Difs.Insert.WriteNode
import Difs.Insert.Findable
import Difs.Lib.Directory
import Difs.Lib.Ownership
import Difs.KeySpace.Ownership
import Difs.Insert.Reactions
import Difs.Insert.Placement
import Difs.Insert.Directory
import Difs.Insert.Completion
import Difs.Lib.Federation
import Difs.Delete.Network
import Difs.Insert.Counts
import Difs.Client.PutSession
import Difs.Client.PutCompletion
import Difs.Lib.Producers
import Difs.Bulk.Server
import Difs.Storage.SameFiles
import Difs.Client.PutDeletion
import Difs.Lib.Restriction
import Difs.Insert.RepoNode
import Difs.Client.PutCluster
import Difs.Client.GetFile
import Difs.Client.PutThenGet

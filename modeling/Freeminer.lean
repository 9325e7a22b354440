import Freeminer.Block.NodeTimerRun
import Freeminer.Block.PrivateMetadata
import Freeminer.Block.RoundTrip
import Freeminer.Builtin.AfterRuns
import Freeminer.Circuits.Tick
import Freeminer.Client.MeshRevisionOrder
import Freeminer.Client.MeshUpdateSafe
import Freeminer.Content.ModConfiguration
import Freeminer.Craft.Replacements
import Freeminer.Database.LevelDB
import Freeminer.Emerge.Callbacks
import Freeminer.Emerge.Report
import Freeminer.Far.Balance
import Freeminer.Inventory.InfiniteSource
import Freeminer.Inventory.MoveSomewhere
import Freeminer.Inventory.ParseBounds
import Freeminer.Inventory.StackingMoves
import Freeminer.Inventory.Sync
import Freeminer.Inventory.ToolWear
import Freeminer.Liquid.WriteBack
import Freeminer.Login.Secure
import Freeminer.Mapgen.Probabilities
import Freeminer.Mapgen.SchematicFile
import Freeminer.Merge.UpToDate
import Freeminer.Mtp.BufferOrder
import Freeminer.Mtp.CommandNumbers
import Freeminer.Mtp.LinkLoss
import Freeminer.Mtp.PeerId
import Freeminer.Mtp.WindowAdaptation
import Freeminer.Network.WideString
import Freeminer.NodeDef.Transfer
import Freeminer.Noise.PcgRandom
import Freeminer.Pathfinding.GridLimits
import Freeminer.Server.AbmTriggers
import Freeminer.Server.ApplyLBMs
import Freeminer.Server.BlockUnload
import Freeminer.Server.ChunkReservation
import Freeminer.Server.DetachedSync
import Freeminer.Server.KeyValueCached
import Freeminer.Server.KnownIds
import Freeminer.Server.LightingQueue
import Freeminer.Server.Rollback
import Freeminer.Server.SpatialIndex
import Freeminer.Settings.Comments
import Freeminer.Threading.Lock
import Freeminer.Threading.MutexedQueue
import Freeminer.Util.AreaStoreFile
import Freeminer.Util.Base64
import Freeminer.Util.FileSys
import Freeminer.Util.LivePoints
import Freeminer.Util.Sanitize
import Freeminer.Voxel.MonoBlock
import Freeminer.Voxel.NightRuns

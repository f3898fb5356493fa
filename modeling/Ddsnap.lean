import Ddsnap.Agent
import Ddsnap.AllocatorSearch
import Ddsnap.Arguments
import Ddsnap.BitRange
import Ddsnap.ChangelistFile
import Ddsnap.ChunkNumbers
import Ddsnap.CommitFaults
import Ddsnap.Convergence
import Ddsnap.CopyBatches
import Ddsnap.CountBounds
import Ddsnap.DeferredRanges
import Ddsnap.Extents
import Ddsnap.FreshLayout
import Ddsnap.FullVolume
import Ddsnap.LeafHalves
import Ddsnap.LeafPurge
import Ddsnap.LockHolders
import Ddsnap.Raid.CombSort
import Ddsnap.Raid.Newest
import Ddsnap.Raid.Parity
import Ddsnap.ReadHooks
import Ddsnap.Replies
import Ddsnap.Requesters
import Ddsnap.Revert
import Ddsnap.Routing
import Ddsnap.SplitRoom
import Ddsnap.Squashed
import Ddsnap.Status
import Ddsnap.SuperblockUpgrade
import Ddsnap.Victims

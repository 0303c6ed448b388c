import Ext4tc.Fs.IndirectCursor
import Ext4tc.Fs.BlockCount
import Ext4tc.Fs.WordIndexes
import Ext4tc.Fs.ExtentPath
import Ext4tc.Fs.NodeWalk
import Ext4tc.Fs.FailedReads
import Ext4tc.DiskUtils.InodeCache
import Ext4tc.DiskUtils.GroupDescriptors
import Ext4tc.DiskUtils.SplitNumbers
import Ext4tc.DiskUtils.InodeRecords
import Ext4tc.DiskUtils.TableCopies
import Ext4tc.DiskUtils.SectorUnits
import Ext4tc.DiskUtils.CopyResult
import Ext4tc.DiskUtils.FailedLookup
import Ext4tc.DiskUtils.CorruptDirectory
import Ext4tc.DiskUtils.WholeDirectory
import Ext4tc.DiskUtils.SparseFile
import Ext4tc.DiskUtils.PartitionTable
import Ext4tc.Plugin.ReadFileThread
import Ext4tc.Plugin.FilePath
import Ext4tc.Plugin.DirectoryPath
import Ext4tc.Plugin.SearchHandles
import Ext4tc.Plugin.IdMap
import Ext4tc.Plugin.DeviceNames
import Ext4tc.Plugin.Listing
import Ext4tc.Plugin.DirectorySearch
import Ext4tc.Plugin.RootListing
import Ext4tc.Plugin.NameReading
import Ext4tc.DiskUtils.FailedDirectory
import Ext4tc.Plugin.FailedLoads
import Ext4tc.DiskUtils.Detection
import Ext4tc.DiskUtils.DeviceHandle
import Ext4tc.Plugin.BufferLeftovers
import Ext4tc.DiskUtils.LastWrite
import Ext4tc.Fs.Destruction
import Ext4tc.Fs.NodeSearch
import Ext4tc.Plugin.NameConversion
import Ext4tc.Plugin.CopyEnds
import Ext4tc.Plugin.CopyDelivery
import Ext4tc.Plugin.DirectoryListing
import Ext4tc.Plugin.Transparency
import Ext4tc.Plugin.PartitionIndex
import Ext4tc.Plugin.SessionSafety
import Ext4tc.Plugin.FastListing
import Ext4tc.Plugin.StoredTree
import Ext4tc.Plugin.DriveTrees
import Ext4tc.DiskUtils.LostEntries
import Ext4tc.Plugin.SessionOnHeap

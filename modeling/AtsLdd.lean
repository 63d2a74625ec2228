import AtsLdd.CDriver.ClusterCache
import AtsLdd.CDriver.DirChange
import AtsLdd.CDriver.DirEntry
import AtsLdd.CDriver.DirScan
import AtsLdd.CDriver.FileBlocks
import AtsLdd.CDriver.GetBlock
import AtsLdd.CDriver.Growth
import AtsLdd.CDriver.Truncate
import AtsLdd.Core.ByteMap
import AtsLdd.Core.Chain
import AtsLdd.Core.Counted
import AtsLdd.Core.Division
import AtsLdd.Core.LinkStore
import AtsLdd.Core.LinkTable
import AtsLdd.Core.LinkWalk
import AtsLdd.Core.Machine
import AtsLdd.Core.Paged
import AtsLdd.Core.Resume
import AtsLdd.Core.Ring
import AtsLdd.Core.Run
import AtsLdd.Core.Runs
import AtsLdd.Core.Separation
import AtsLdd.Core.Sweep
import AtsLdd.Core.WriteBack
import AtsLdd.Fat.AddBalance
import AtsLdd.Fat.AddEntries
import AtsLdd.Fat.AddOutcome
import AtsLdd.Fat.AddRemove
import AtsLdd.Fat.AllocClusters
import AtsLdd.Fat.Allocation
import AtsLdd.Fat.Backup
import AtsLdd.Fat.Balance
import AtsLdd.Fat.ChainAdd
import AtsLdd.Fat.ChainEnd
import AtsLdd.Fat.Chains
import AtsLdd.Fat.Cluster
import AtsLdd.Fat.Containment
import AtsLdd.Fat.Create
import AtsLdd.Fat.CreateFails
import AtsLdd.Fat.DataBlocks
import AtsLdd.Fat.Dentry
import AtsLdd.Fat.DirBalance
import AtsLdd.Fat.DirBytes
import AtsLdd.Fat.DirReads
import AtsLdd.Fat.DirSize
import AtsLdd.Fat.DirSlots
import AtsLdd.Fat.Discards
import AtsLdd.Fat.Entry
import AtsLdd.Fat.EntryArray
import AtsLdd.Fat.FileRead
import AtsLdd.Fat.FreeClusters
import AtsLdd.Fat.FreeCount
import AtsLdd.Fat.InodeEntry
import AtsLdd.Fat.Iteration
import AtsLdd.Fat.Listing
import AtsLdd.Fat.Mapping
import AtsLdd.Fat.Mirror
import AtsLdd.Fat.Mount
import AtsLdd.Fat.Name
import AtsLdd.Fat.NewEntries
import AtsLdd.Fat.Options
import AtsLdd.Fat.Outcome
import AtsLdd.Fat.ReadCorrect
import AtsLdd.Fat.ReadOnly
import AtsLdd.Fat.ReadPath
import AtsLdd.Fat.Readdir
import AtsLdd.Fat.References
import AtsLdd.Fat.Release
import AtsLdd.Fat.RemoveEntries
import AtsLdd.Fat.Rollback
import AtsLdd.Fat.Scan
import AtsLdd.Fat.Search
import AtsLdd.Fat.SlotSearch
import AtsLdd.Fat.SlotsAdded
import AtsLdd.Fat.SuperBlock
import AtsLdd.Fat.System
import AtsLdd.Fat.Table
import AtsLdd.Fat.Time
import AtsLdd.Fat.Volume
import AtsLdd.Fat.Walk
import AtsLdd.Scull.Access
import AtsLdd.Scull.Contents
import AtsLdd.Scull.Device
import AtsLdd.Scull.Exclusive
import AtsLdd.Scull.FailedWrite
import AtsLdd.Scull.FileOps
import AtsLdd.Scull.Follow
import AtsLdd.Scull.Ioctl
import AtsLdd.Scull.Pipe
import AtsLdd.Scull.PipeFifo
import AtsLdd.Scull.Preconditions
import AtsLdd.Scull.Private
import AtsLdd.Scull.Sparse
import AtsLdd.Scull.StaleGeometry
import AtsLdd.Scull.WriteMemory
import AtsLdd.Vfat.AddEntry
import AtsLdd.Vfat.DirReader
import AtsLdd.Vfat.Directory
import AtsLdd.Vfat.Find
import AtsLdd.Vfat.LongSlots
import AtsLdd.Vfat.ParseLong
import AtsLdd.Vfat.Records
import AtsLdd.Vfat.SearchLong
import AtsLdd.Vfat.ShortName
import AtsLdd.Vfat.Translate

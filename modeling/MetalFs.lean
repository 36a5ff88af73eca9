import MetalFs.Lib.OrderedStore
import MetalFs.Lib.Tiling
import MetalFs.Filesystem.Heap
import MetalFs.Filesystem.HeapRuns
import MetalFs.Filesystem.Extent
import MetalFs.Filesystem.ExtentInvariant
import MetalFs.Filesystem.ExtentSpec
import MetalFs.Filesystem.ReserveContract
import MetalFs.Lib.Runs
import MetalFs.Filesystem.ExtentRuns
import MetalFs.Filesystem.Coalesced
import MetalFs.Lib.Segments
import MetalFs.Filesystem.Inode
import MetalFs.Filesystem.Storage
import MetalFs.Filesystem.StorageSpec
import MetalFs.Filesystem.Metal
import MetalFs.Filesystem.MetalInvariant
import MetalFs.Filesystem.MetalGrow
import MetalFs.Filesystem.GrowContract
import MetalFs.Filesystem.MetalShrink
import MetalFs.Filesystem.ShrinkContract
import MetalFs.Filesystem.MetalCreate
import MetalFs.Filesystem.FileRuns
import MetalFs.Filesystem.StorageRoundTrip
import MetalFs.Filesystem.ByteString
import MetalFs.Filesystem.Isolation
import MetalFs.Filesystem.Directory
import MetalFs.Lib.Records
import MetalFs.Filesystem.DirectoryEntries
import MetalFs.Filesystem.BlockCount
import MetalFs.Filesystem.ExtentCount
import MetalFs.Filesystem.FailedOps
import MetalFs.Filesystem.DirectoryContract
import MetalFs.Filesystem.Listing
import MetalFs.Filesystem.PathResolution
import MetalFs.Lib.Interrupt
import MetalFs.Lib.NameGraph
import MetalFs.Filesystem.Namespace
import MetalFs.Filesystem.NamespaceTree
import MetalFs.Filesystem.NamespaceRuns
import MetalFs.Filesystem.NameTree
import MetalFs.Fpga.Extmap
import MetalFs.Fpga.PartialTransfers
import MetalFs.Fpga.LayoutWalk
import MetalFs.Fpga.Pagefile
import MetalFs.Fpga.NvmeData
import MetalFs.Fpga.FromStreamDataflow
import MetalFs.Fpga.Preload
import MetalFs.Fpga.NvmeResponses
import MetalFs.Lib.ByteWords
import MetalFs.Fpga.Membus
import MetalFs.Fpga.OperatorConfig
import MetalFs.Fpga.ExtmapTransfer
import MetalFs.Lib.ShiftRegister
import MetalFs.Fpga.StreamPadding
import MetalFs.Fpga.NvmeController
import MetalFs.Fpga.NvmeControl
import MetalFs.Fpga.NvmeArbiter
import MetalFs.Fpga.NvmeBurst
import MetalFs.Fpga.NvmeAnswers
import MetalFs.Fpga.NvmeRuns
import MetalFs.Pipeline.FileDataSource
import MetalFs.Lib.Fifo
import MetalFs.Lib.DoubleBuffer
import MetalFs.Driver.Processing
import MetalFs.Driver.ProcessingInvariant
import MetalFs.Driver.InputBuffer
import MetalFs.Driver.OutputBuffer
import MetalFs.Driver.LockStep
import MetalFs.Driver.Socket
import MetalFs.Lib.Trail
import MetalFs.Driver.AgentPool
import MetalFs.Driver.PipelineDetection
import MetalFs.Driver.RegistrationOrder
import MetalFs.Driver.Server
import MetalFs.Driver.FinishedAgents
import MetalFs.Driver.PipelineBuilder
import MetalFs.Driver.ProfilingResults
import MetalFs.Driver.FuseRouting
import MetalFs.Driver.FilesystemFuse
import MetalFs.Filesystem.Skeleton
import MetalFs.Filesystem.NamedFiles
import MetalFs.Lib.Scatter
import MetalFs.Fpga.DataPath
import MetalFs.Fpga.Jobs
import MetalFs.Pipeline.CardFiles
import MetalFs.Pipeline.FileDataSink
import MetalFs.Pipeline.PipelineStorage
import MetalFs.Pipeline.FileSystem
import MetalFs.Lib.Routing
import MetalFs.Fpga.StreamSwitch
import MetalFs.Pipeline.StreamRuns
import MetalFs.Fpga.RunOperators
import MetalFs.Fpga.Perfmon

import DiegOS.Fat.ChainWalks
import DiegOS.Fat.RelativePaths
import DiegOS.Fat.BackLinks
import DiegOS.Fat.LostClusters
import DiegOS.Kernel.Cadence
import DiegOS.Kernel.PciBus
import DiegOS.Support.HashList
import DiegOS.Support.IoMalloc
import DiegOS.Support.TreeRanges
import DiegOS.Support.TreeLayers
import DiegOS.Support.Sequences
import DiegOS.Support.TreeVerify
import DiegOS.Support.TreeFailures
import DiegOS.Support.PacketStorage
import DiegOS.Support.HeapContents
import DiegOS.Support.HeapAccounts
import DiegOS.Support.BitmapWalks
import DiegOS.Support.Cbuffers
import DiegOS.Support.Chunks
import DiegOS.Kernel.CriticalSections
import DiegOS.Network.NetworkCore
import DiegOS.Platform.Mtrr
import DiegOS.Platform.HwInterrupts
import DiegOS.Drivers.LocalLoop
import DiegOS.Drivers.VgaTty
import DiegOS.Drivers.UartStreams
import DiegOS.Drivers.UartInterrupt
import DiegOS.Drivers.WakeUps
import DiegOS.Drivers.PollTruth
import DiegOS.Drivers.PollReadiness
import DiegOS.Libc.Truncation
import DiegOS.Libc.StreamPosition
import DiegOS.Libc.Mktime
import DiegOS.Kernel.Orphans
import DiegOS.Kernel.DelayOrder
import DiegOS.Kernel.Deadlines
import DiegOS.Kernel.KernelTime
import DiegOS.Kernel.Delays
import DiegOS.Applications.Console
import DiegOS.Drivers.VesaLines
import DiegOS.Drivers.VesaText
import DiegOS.Drivers.VgaSpans
import DiegOS.Fat.FreeClusters
import DiegOS.Libc.StringSearch
import DiegOS.Libc.BoundedStrings
import DiegOS.Libc.Qsort
import DiegOS.Libc.MemcpyIa32
import DiegOS.Platform.IntTables
import DiegOS.Kernel.Descriptors
import DiegOS.Libc.Qdivrem

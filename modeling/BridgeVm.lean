import BridgeVm.Machine
import BridgeVm.UserspaceGic.State
import BridgeVm.UserspaceGic.Delivery
import BridgeVm.UserspaceGic.Access
import BridgeVm.Lib.Bits
import BridgeVm.UserspaceGic.Line
import BridgeVm.UserspaceGic.Kick
import BridgeVm.UserspaceGic.CachedLine
import BridgeVm.Lib.ChunkMap
import BridgeVm.Nvme.Disk
import BridgeVm.Nvme.DiskOverlay
import BridgeVm.GuestMemory
import BridgeVm.Lib.Walk
import BridgeVm.VirtioNet.Datapath
import BridgeVm.VirtioNet.TxExactlyOnce
import BridgeVm.Lib.SeqNum
import BridgeVm.NetNat.TcpSend
import BridgeVm.NetNat.HostToGuest
import BridgeVm.NetNat.GuestToHost
import BridgeVm.Lib.Ring
import BridgeVm.Lib.Slots
import BridgeVm.Nvme.DataPath
import BridgeVm.Nvme.Queues
import BridgeVm.Lib.EventLog
import BridgeVm.Nvme.AdminPages
import BridgeVm.Nvme.Engine
import BridgeVm.Lib.Counting
import BridgeVm.UserspaceGic.ActiveList
import BridgeVm.UserspaceGic.ActivePriorities
import BridgeVm.Lib.Bitmap
import BridgeVm.Msix.Table
import BridgeVm.UserspaceGic.PendingLatch
import BridgeVm.Msix.Delivery
import BridgeVm.NetNat.FlowTable
import BridgeVm.NetNat.UnackedBudget
import BridgeVm.Lib.BigEndian
import BridgeVm.Lib.InternetChecksum
import BridgeVm.NetNat.Checksum
import BridgeVm.NetNat.UploadWindow
import BridgeVm.NetNat.Frames
import BridgeVm.NetNat.FrameRoundTrip
import BridgeVm.Xhci.EventOrder
import BridgeVm.Checkpoint.State
import BridgeVm.Checkpoint.File
import BridgeVm.Checkpoint.RoundTrip
import BridgeVm.Nvme.InFlight
import BridgeVm.Nvme.Ledger
import BridgeVm.Nvme.Commands
import BridgeVm.Nvme.Admin
import BridgeVm.Nvme.Drain
import BridgeVm.Nvme.Registers
import BridgeVm.Nvme.ExactlyOnce
import BridgeVm.Nvme.WorkConserving
import BridgeVm.Nvme.Resume
import BridgeVm.Pcie.Config
import BridgeVm.Pcie.Endpoints
import BridgeVm.Pcie.Routing
import BridgeVm.Pcie.Snapshot
import BridgeVm.Pcie.Reach
import BridgeVm.Pcie.Shape
import BridgeVm.Pcie.RestoreRoundTrip
import BridgeVm.VirtioGpu.Device3d
import BridgeVm.VirtioGpu.BlobWindow
import BridgeVm.VirtioGpu.BlobRuns
import BridgeVm.VirtioGpu.Device
import BridgeVm.VirtioGpu.ResourceIds
import BridgeVm.VirtioGpu.PresentMailbox
import BridgeVm.VirtioGpu.Presents
import BridgeVm.Xhci.Interrupts
import BridgeVm.Hda.Rounds
import BridgeVm.Hda.CyclicCopy
import BridgeVm.Hda.StreamRuns
import BridgeVm.Xhci.ControlTransfer
import BridgeVm.Xhci.Ep0Doorbells
import BridgeVm.VirtioGpu.Virtqueue
import BridgeVm.Hda.Controller
import BridgeVm.Hda.Interrupts
import BridgeVm.Lib.Threads
import BridgeVm.Lib.Transition
import BridgeVm.Pause.Gate
import BridgeVm.Pause.Stopped
import BridgeVm.Pause.Offsets
import BridgeVm.Tpm.Framing
import BridgeVm.AgentConsole.SharePut
import BridgeVm.AgentConsole.PutConfirmed
import BridgeVm.AgentConsole.WalkStaged
import BridgeVm.AgentConsole.Delivery
import BridgeVm.AgentConsole.DropDelivered
import BridgeVm.AgentConsole.ClipInvariant
import BridgeVm.AgentConsole.ClipSettled
import BridgeVm.Tpm.Arbitration
import BridgeVm.Hda.CommandRing
import BridgeVm.Hda.Pacing
import BridgeVm.Pflash.P30NorFlash
import BridgeVm.DescriptorChain
import BridgeVm.Lib.Schedule
import BridgeVm.Pflash.ArraySafety
import BridgeVm.VirtioConsole.AgentStream
import BridgeVm.VirtioGpu.VblankPacing
import BridgeVm.Lib.Scatter
import BridgeVm.MappedRam
import BridgeVm.VirtioBlk.BlockRequests
import BridgeVm.VirtioBlk.LogicalBuffers
import BridgeVm.Lib.Painted
import BridgeVm.VirtioGpu.BackingCursor
import BridgeVm.VirtioGpu.ResourceTransfer
import BridgeVm.VirtioGpu.LocalResourceCopy
import BridgeVm.VirtioGpu.Compositor
import BridgeVm.VirtioGpu.ControlBooks
import BridgeVm.VirtioGpu.ChainAnswers
import BridgeVm.NetNat.InOrder
import BridgeVm.UserspaceGic.Acknowledge
import BridgeVm.UserspaceGic.EoiNesting
import BridgeVm.Nvme.PrpList
import BridgeVm.Nvme.QueueGraph
import BridgeVm.Nvme.RingArithmetic
import BridgeVm.Nvme.Deallocate
import BridgeVm.Nvme.DirectDma
import BridgeVm.NetNat.SendWindow
import BridgeVm.Checkpoint.RamRoundTrip
import BridgeVm.FwCfg.DataPort
import BridgeVm.NetNat.LruFlows
import BridgeVm.VirtioNet.RxDelivery
import BridgeVm.Fdt.Builder
import BridgeVm.Fdt.Built
import BridgeVm.Fdt.RoundTrip
import BridgeVm.Xhci.Commands
import BridgeVm.Share.Engine
import BridgeVm.Share.Holds
import BridgeVm.Share.RenamePlans
import BridgeVm.NetNat.Backend
import BridgeVm.NetNat.BackendTable
import BridgeVm.NetNat.PollReplies
import BridgeVm.NetNat.QueueBound
import BridgeVm.AgentConsole.Base64
import BridgeVm.AgentConsole.Clipboard
import BridgeVm.AgentConsole.ChunkedReplies
import BridgeVm.AgentConsole.ReplyRuns
import BridgeVm.Share.Listing
import BridgeVm.Hda.PcmRing
import BridgeVm.Hda.PcmSlots
import BridgeVm.Hda.PcmInvariant
import BridgeVm.Hda.PcmRingRuns
import BridgeVm.Pause.VmClock
import BridgeVm.Psci.BootsOnce
import BridgeVm.Psci.Started
import BridgeVm.Lib.LockTable
import BridgeVm.Media.Lease
import BridgeVm.Media.LeaseLocks
import BridgeVm.Media.LeaseCalls
import BridgeVm.Lib.LineReader
import BridgeVm.Agentd.Framing

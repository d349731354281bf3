import PgLinux.Lib.Bytes
import PgLinux.Virtio
import PgLinux.Dma
import PgLinux.DiskBounds
import PgLinux.Blocks
import PgLinux.DirtyBlocks
import PgLinux.Bus
import PgLinux.Decode
import PgLinux.Sljit
import PgLinux.Cpu
import PgLinux.Fpu
import PgLinux.Jit
import PgLinux.Frames
import PgLinux.Agreement
import PgLinux.Assets
import PgLinux.Run
import PgLinux.Worker
import PgLinux.SaveBoot
import PgLinux.ResumeDisk
import PgLinux.TlbCoherence
import PgLinux.Rules
import PgLinux.MachineMode
import PgLinux.Privilege
import PgLinux.CsrProtection
import PgLinux.ZeroRegister
import PgLinux.Interrupts
import PgLinux.Lib.Loops
import PgLinux.RunLoop
import PgLinux.CommandChannel
import PgLinux.Durability
import PgLinux.Lib.Ring
import PgLinux.Virtqueue
import PgLinux.DiskArray
import PgLinux.BlockRuns
import PgLinux.FlatGuest
import PgLinux.BlockBookkeeping
import PgLinux.QueueIndex
import PgLinux.ConsoleInput
import PgLinux.DeviceResume
import PgLinux.RamMapping
import PgLinux.FpDirty
import PgLinux.AccessedDirty
import PgLinux.HostPointers
import PgLinux.Breakpoints
import PgLinux.DebugRings
import PgLinux.GuestTime
import PgLinux.MulDiv
import PgLinux.Atomics
import PgLinux.PageFaults
import PgLinux.FaultAddress
import PgLinux.TornStores
import PgLinux.AtomicFaults
import PgLinux.WalkSound
import PgLinux.Sv39Checks
import PgLinux.BusConfinement
import PgLinux.FailedBoot
import PgLinux.SyscallTracer
import PgLinux.TraceMixing
import PgLinux.BlockExits
import PgLinux.TrapPrecision
import PgLinux.CodeFetch
import PgLinux.BlockCoherence
import PgLinux.TrapReturn
import PgLinux.CsrViews
import PgLinux.IrqSelection
import PgLinux.JitLegality
import PgLinux.Compressed
import PgLinux.FpGate
import PgLinux.FpBits
import PgLinux.FpToInt
import PgLinux.ScatterGather
import PgLinux.StatusByte
import PgLinux.Lib.Orbit
import PgLinux.VirtioNet
import PgLinux.UartFifo
import PgLinux.PlicClaim
import PgLinux.ClintRegisters
import PgLinux.NetTermination
import PgLinux.QueueRemainder
import PgLinux.DeviceReset
import PgLinux.ExternalLine
import PgLinux.AccessWidth
import PgLinux.ReceiveRing
import PgLinux.TransmitAssembly
import PgLinux.Lib.Search
import PgLinux.MemorySearch
import PgLinux.ConsoleSearch
import PgLinux.DiagnosticWalk
import PgLinux.Lib.Fdt
import PgLinux.DeviceTree
import PgLinux.TreeBounds
import PgLinux.Lib.Overlay
import PgLinux.BootImages
import PgLinux.SnapshotLoad
import PgLinux.FlushFailures
import PgLinux.StoreWatch
import PgLinux.Lib.CallLog
import PgLinux.SyscallReturns
import PgLinux.EpilogueJumps
import PgLinux.BootLog
import PgLinux.Interception
import PgLinux.Disasm
import PgLinux.Arm64Emit
import PgLinux.CpuLayout
import PgLinux.Arm64Block
import PgLinux.Arm64Words
import PgLinux.Arm64Reserve
import PgLinux.Arm64Memory
import PgLinux.Lib.A64
import PgLinux.Arm64FastPath
import PgLinux.Lib.A64Routine
import PgLinux.Lib.Commutes
import PgLinux.Arm64Values
import PgLinux.Arm64Steps
import PgLinux.Arm64Agreement
import PgLinux.Arm64Code
import PgLinux.Arm64Calls
import PgLinux.Arm64Returns
import PgLinux.Arm64Interpreter
import PgLinux.PointerConfinement
import PgLinux.Arm64Below
import PgLinux.Arm64Cache

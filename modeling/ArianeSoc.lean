import ArianeSoc.Sync
import ArianeSoc.BitField
import ArianeSoc.RiscvPkg
import ArianeSoc.Csr.State
import ArianeSoc.Csr.Update
import ArianeSoc.Csr.Frame
import ArianeSoc.Pmp.Entry
import ArianeSoc.Csr.Confinement
import ArianeSoc.Csr.PmpLock
import ArianeSoc.Decoder
import ArianeSoc.CommitStage
import ArianeSoc.Core.Commit
import ArianeSoc.Core.Escalation
import ArianeSoc.Dma.Fsm
import ArianeSoc.Dma.Grant
import ArianeSoc.Dma.Failure
import ArianeSoc.Jtag.DmiJtag
import ArianeSoc.Jtag.Password
import ArianeSoc.Jtag.DmiCdc
import ArianeSoc.Periph.AccessControl
import ArianeSoc.Periph.RegisterLock
import ArianeSoc.Pmp.Decision
import ArianeSoc.Csr.PmpReadback
import ArianeSoc.Controller
import ArianeSoc.Core.DualCommit
import ArianeSoc.Issue.Scoreboard
import ArianeSoc.Ring
import ArianeSoc.Issue.Window
import ArianeSoc.Issue.Queue
import ArianeSoc.Issue.InOrder
import ArianeSoc.Decoder.Units
import ArianeSoc.Issue.ReadOperands
import ArianeSoc.Issue.Stage
import ArianeSoc.Issue.Hazard
import ArianeSoc.Issue.Operands
import ArianeSoc.Periph.CryptoRegs
import ArianeSoc.Periph.Pkt
import ArianeSoc.Periph.Aes
import ArianeSoc.Periph.KeyRead
import ArianeSoc.Periph.Hmac
import ArianeSoc.Periph.KeyClear
import ArianeSoc.Csr.Atomic
import ArianeSoc.Csr.Privilege
import ArianeSoc.Csr.Debug
import ArianeSoc.Mmu.Ptw
import ArianeSoc.Mmu.Response
import ArianeSoc.Lsu.Bypass
import ArianeSoc.Lsu.StoreBuffer
import ArianeSoc.Lsu.StoreQueue
import ArianeSoc.Lsu.StoreOrder
import ArianeSoc.Lsu.LoadUnit
import ArianeSoc.Lsu.LoadStoreUnit
import ArianeSoc.Ledger
import ArianeSoc.Lsu.LoadComplete
import ArianeSoc.Lsu.NonIdempotent
import ArianeSoc.Mmu.Tlb
import ArianeSoc.PageWalk
import ArianeSoc.Mmu.Mmu
import ArianeSoc.Mmu.Walk
import ArianeSoc.Mmu.TlbSound
import ArianeSoc.Mmu.Transparency
import ArianeSoc.Lsu.Agu
import ArianeSoc.Mmu.Canonical
import ArianeSoc.CommonCells.FifoV3
import ArianeSoc.Frontend.InstrRealign
import ArianeSoc.Frontend.InstrQueue
import ArianeSoc.Stripe
import ArianeSoc.Frontend.QueueOrder
import ArianeSoc.Frontend.Frontend
import ArianeSoc.Frontend.FetchFault
import ArianeSoc.Hashing
import ArianeSoc.Periph.HmacHash
import ArianeSoc.Dm.Commands
import ArianeSoc.Cache.Wbuffer
import ArianeSoc.Cache.WbufferInv
import ArianeSoc.Cache.WbufferMemory
import ArianeSoc.Cache.Ctrl
import ArianeSoc.Cache.Missunit
import ArianeSoc.Cache.ReadPorts
import ArianeSoc.Cache.RequestOnce
import ArianeSoc.Loop
import ArianeSoc.Pk.Driver
import ArianeSoc.Pk.Sha256
import ArianeSoc.Plic
import ArianeSoc.Pk.Syscall
import ArianeSoc.Pk.UserMemory
import ArianeSoc.Pk.StackBuffers
import ArianeSoc.Pk.Machine
import ArianeSoc.Pk.Cmp
import ArianeSoc.Pk.Mmap.State
import ArianeSoc.RefCount
import ArianeSoc.Pk.Mmap.Pages
import ArianeSoc.Pk.Mmap.Place
import ArianeSoc.Pk.Mmap.AddressSpace
import ArianeSoc.Pk.Mmap.Result
import ArianeSoc.Pk.Mmap.Brk
import ArianeSoc.Pk.Mmap.Mprotect
import ArianeSoc.Pk.Mmap.Protection
import ArianeSoc.Noc.Buffers
import ArianeSoc.Noc.Credit
import ArianeSoc.Common.AsyncFifo
import ArianeSoc.Noc.Route
import ArianeSoc.Noc.Msg
import ArianeSoc.Framing
import ArianeSoc.Chipset.PacketFilter
import ArianeSoc.Chipset.Transparent
import ArianeSoc.Chipset.MemIoSplitter
import ArianeSoc.Chipset.SplitterRequests
import ArianeSoc.Chipset.SplitterResponses
import ArianeSoc.Chipset.Splitter
import ArianeSoc.ChipBridge.Ends
import ArianeSoc.ChipBridge.Link
import ArianeSoc.Core.AmoPath
import ArianeSoc.Core.AmoInv
import ArianeSoc.Core.AmoOnce
import ArianeSoc.Noc.InputControl
import ArianeSoc.Noc.OutputControl
import ArianeSoc.Noc.Router
import ArianeSoc.Noc.PacketIntegrity
import ArianeSoc.Chipset.AxiliteBridge
import ArianeSoc.Chipset.AxiliteRequests
import ArianeSoc.Chipset.AxiliteExact
import ArianeSoc.LongDivision
import ArianeSoc.Rsa.Mod
import ArianeSoc.Rsa.ModExp
import ArianeSoc.Rsa.Top
import ArianeSoc.Csr.Counters
import ArianeSoc.Csr.TrapVector
import ArianeSoc.Core.Interrupt
import ArianeSoc.Decoder.System
import ArianeSoc.CommonCells.Lzc
import ArianeSoc.Serdiv.Unit
import ArianeSoc.Serdiv.Align
import ArianeSoc.Serdiv.Exact
import ArianeSoc.Csr.Visibility
import ArianeSoc.Decoder.Compressed
import ArianeSoc.Decoder.Rvc
import ArianeSoc.Decoder.Expansion
import ArianeSoc.Decoder.Denoted
import ArianeSoc.Dma.Progress
import ArianeSoc.Jtag.HmacHandshake
import ArianeSoc.Periph.Sha256Wrapper
import ArianeSoc.Lfsr
import ArianeSoc.Periph.Rng
import ArianeSoc.Issue.OneWriter
import ArianeSoc.Core.CsrCommit
import ArianeSoc.Mmu.Sfence
import ArianeSoc.Mmu.Permissions
import ArianeSoc.Lsu.BypassOrder
import ArianeSoc.Cache.AmoAlu
import ArianeSoc.Clint.AxiLite
import ArianeSoc.Clint.Registers
import ArianeSoc.Lsu.RoundTrip
import ArianeSoc.L2.Mshr
import ArianeSoc.L2.BufIn
import ArianeSoc.L2.Smc
import ArianeSoc.Pk.Snprintf
import ArianeSoc.ByteLanes
import ArianeSoc.Chipset.Axi4Bridge
import ArianeSoc.Chipset.Axi4RoundTrip
import ArianeSoc.Dm.AbstractCommand
import ArianeSoc.Dm.RegisterAccess
import ArianeSoc.Mmu.Replacement
import ArianeSoc.L2.AmoAlu
import ArianeSoc.L15.Noc1Buffer
import ArianeSoc.Core.Program

import PassiFlo.Lib.Clocked
import PassiFlo.Lib.Lanes
import PassiFlo.Lib.Fifo
import PassiFlo.Lib.Ripple
import PassiFlo.Lib.Loop
import PassiFlo.Lib.Bubble
import PassiFlo.Lib.FirstMin
import PassiFlo.Lib.Text
import PassiFlo.Lib.Numeral
import PassiFlo.Lib.IntelHex
import PassiFlo.Rtl.Decoder
import PassiFlo.Rtl.Alu
import PassiFlo.Rtl.Memory
import PassiFlo.Rtl.Csr
import PassiFlo.Rtl.Core
import PassiFlo.Rtl.Run
import PassiFlo.Rtl.Sdram
import PassiFlo.Rtl.Board
import PassiFlo.Rtl.Mul
import PassiFlo.Soft.Queue
import PassiFlo.Soft.PairQueue
import PassiFlo.Soft.Rand
import PassiFlo.Soft.Dtn
import PassiFlo.Soft.ErrorBins
import PassiFlo.Soft.ParseHelpers
import PassiFlo.Soft.HexImage
import PassiFlo.Soft.RunLog
import PassiFlo.Isa.Encoding
import PassiFlo.Isa.Instr
import PassiFlo.Isa.Semantics
import PassiFlo.Isa.Decode
import PassiFlo.Isa.Hart
import PassiFlo.Isa.Assembly
import PassiFlo.Proof.Decoding
import PassiFlo.Proof.Grammar
import PassiFlo.Proof.Cycle
import PassiFlo.Proof.Ram
import PassiFlo.Proof.LoadStore
import PassiFlo.Proof.Latch
import PassiFlo.Proof.Status
import PassiFlo.Proof.TrapReturn
import PassiFlo.Proof.PreciseTraps
import PassiFlo.Proof.TrapCause
import PassiFlo.Proof.CsrAccess
import PassiFlo.Proof.MachineCsrs
import PassiFlo.Proof.Privilege
import PassiFlo.Proof.Branches
import PassiFlo.Proof.Computation
import PassiFlo.Proof.Alignment
import PassiFlo.Proof.ByteArray
import PassiFlo.Proof.Injection
import PassiFlo.Proof.SetAndClear
import PassiFlo.Proof.Multiplier
import PassiFlo.Proof.ErrorBins
import PassiFlo.Proof.HexImage
import PassiFlo.Proof.RunLog
import PassiFlo.Proof.RegisterGroups
import PassiFlo.Proof.DebugReads
import PassiFlo.Proof.DoubledLoads
import PassiFlo.Proof.Shows
import PassiFlo.Proof.HartStep
import PassiFlo.Proof.HartCsr
import PassiFlo.Proof.HartRefinement
import PassiFlo.Proof.LoadPatch
import PassiFlo.Proof.ResetHold
import PassiFlo.Proof.Leds
import PassiFlo.Proof.SdramInit
import PassiFlo.Proof.SdramBanks
import PassiFlo.Proof.QueueFifo
import PassiFlo.Proof.Pairs
import PassiFlo.Proof.PairSort
import PassiFlo.Proof.PairFind
import PassiFlo.Proof.Generator
import PassiFlo.Proof.Network
import PassiFlo.Proof.GreedyRoute
import PassiFlo.Proof.PathBuffer
import PassiFlo.Proof.RouteRuns
import PassiFlo.Proof.Injector
import PassiFlo.Lib.Counted
import PassiFlo.Proof.Entry
import PassiFlo.Proof.LedCounter
import PassiFlo.Proof.Campaign

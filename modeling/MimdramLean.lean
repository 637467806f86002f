import MimdramLean.Library.Machine
import MimdramLean.Library.Bits
import MimdramLean.Library.Queue
import MimdramLean.Library.Window
import MimdramLean.Library.ByteMemory
import MimdramLean.Library.Binary
import MimdramLean.Library.Loops
import MimdramLean.Library.Precedence
import MimdramLean.Library.SetBits
import MimdramLean.Library.Blocks
import MimdramLean.Library.Prefixes
import MimdramLean.Library.Ring
import MimdramLean.Library.Simulation
import MimdramLean.RowOps
import MimdramLean.Ambit
import MimdramLean.Params
import MimdramLean.Device
import MimdramLean.Access
import MimdramLean.Refresh
import MimdramLean.Scheduler
import MimdramLean.Controller
import MimdramLean.Answering
import MimdramLean.AbstractMemory
import MimdramLean.Translation
import MimdramLean.PageTable
import MimdramLean.LSQ
import MimdramLean.StoreQueue
import MimdramLean.StorePipeline
import MimdramLean.Cache
import MimdramLean.TagStore
import MimdramLean.Trie
import MimdramLean.TLB
import MimdramLean.FuncPageTable
import MimdramLean.ProcessMemory
import MimdramLean.CoherentXBar
import MimdramLean.Microprogram
import MimdramLean.Microprograms
import MimdramLean.Elementwise
import MimdramLean.WithConstants
import MimdramLean.Predicates
import MimdramLean.Vectors
import MimdramLean.Bitcount
import MimdramLean.Allocation
import MimdramLean.RangeQuery
import MimdramLean.MatchingIndex
import MimdramLean.Proofs.Decode
import MimdramLean.Proofs.AddressMap
import MimdramLean.Proofs.RowOps
import MimdramLean.Proofs.Translation
import MimdramLean.Proofs.PageTable
import MimdramLean.Proofs.Attempts
import MimdramLean.Proofs.ViolationCheck
import MimdramLean.Proofs.StoreQueue
import MimdramLean.Proofs.StoreBuffer
import MimdramLean.Proofs.StoreFlight
import MimdramLean.Proofs.StoreWriteback
import MimdramLean.Proofs.StoreOrder
import MimdramLean.Proofs.Scheduler
import MimdramLean.Proofs.Commands
import MimdramLean.Proofs.Effects
import MimdramLean.Proofs.Bursts
import MimdramLean.Proofs.QueueInvariants
import MimdramLean.Proofs.WriteIndex
import MimdramLean.Proofs.Ordering
import MimdramLean.Proofs.Schedule
import MimdramLean.Proofs.Timing
import MimdramLean.Proofs.BankState
import MimdramLean.Proofs.Bus
import MimdramLean.Proofs.BusTimes
import MimdramLean.Proofs.PowerLog
import MimdramLean.Proofs.Answers
import MimdramLean.Proofs.CacheQueues
import MimdramLean.Proofs.CacheOrder
import MimdramLean.Proofs.Coherence
import MimdramLean.Proofs.TagStore
import MimdramLean.Proofs.Trie
import MimdramLean.Proofs.TLB
import MimdramLean.Proofs.FuncPageTable
import MimdramLean.Proofs.ProcessMemory
import MimdramLean.Proofs.VirtualRows
import MimdramLean.Proofs.FullAdder
import MimdramLean.Proofs.Passes
import MimdramLean.Proofs.Multu
import MimdramLean.Proofs.Divu
import MimdramLean.Proofs.Elementwise
import MimdramLean.Proofs.Predicates
import MimdramLean.Proofs.SignedPrograms
import MimdramLean.Proofs.WithConstants
import MimdramLean.Proofs.Vectors
import MimdramLean.Proofs.Bitcount
import MimdramLean.Proofs.BitcountSpace
import MimdramLean.Proofs.Allocation
import MimdramLean.Proofs.Popcount
import MimdramLean.Proofs.RangeQuery
import MimdramLean.Proofs.RangeBaseline
import MimdramLean.Proofs.MatchingIndex
import MimdramLean.Proofs.RankSteps
import MimdramLean.Proofs.RefreshCycle
import MimdramLean.Proofs.RefreshProgress

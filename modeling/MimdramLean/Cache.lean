import MimdramLean.Library.Loops
import MimdramLean.Library.Machine
import MimdramLean.RowOps
import Mathlib.Data.List.Sort
import Mathlib.Logic.Function.Basic

/-!
# A cache

The request path of `Cache` in timing mode: `recvTimingReq` with `access` and `doWritebacks`, the two
`MSHRQueue`s, and the sending side, `getNextMSHR` and `getTimingPacket`. Block data are taken out.
The replacement policy, the caches above and the outcome of a conditional swap are answers that come
with a request. The cache has no prefetcher.
-/

namespace MimdramLean

open Library

/-! ### Packets -/

/-- The request commands that a cache receives or sends. -/
inductive MemCmd where
  | readReq
  | writeReq
  | writeback
  | cleanEvict
  | softPFReq
  | writeLineReq
  | upgradeReq
  | scUpgradeReq
  | scUpgradeFailReq
  | readExReq
  | readCleanReq
  | readSharedReq
  | loadLockedReq
  | storeCondReq
  | storeCondFailReq
  | swapReq
  | invalidateReq
  deriving DecidableEq, Repr

/-- The attributes of a command. -/
structure CommandInfo where
  isRead : Bool := false
  isWrite : Bool := false
  isUpgrade : Bool := false
  isInvalidate : Bool := false
  needsExclusive : Bool := false
  needsResponse : Bool := false
  isLlsc : Bool := false
  isSWPrefetch : Bool := false

/-- `MemCmd::commandInfo`. -/
def MemCmd.commandInfo : MemCmd → CommandInfo
  | .readReq => { isRead := true, needsResponse := true }
  | .writeReq => { isWrite := true, needsExclusive := true, needsResponse := true }
  | .writeback => { isWrite := true, needsExclusive := true }
  | .cleanEvict => { isWrite := true }
  | .softPFReq => { isRead := true, isSWPrefetch := true, needsResponse := true }
  | .writeLineReq => { isWrite := true, needsExclusive := true, needsResponse := true }
  | .upgradeReq => { isInvalidate := true, needsExclusive := true, isUpgrade := true, needsResponse := true }
  | .scUpgradeReq =>
    { isInvalidate := true, needsExclusive := true, isUpgrade := true, isLlsc := true, needsResponse := true }
  | .scUpgradeFailReq =>
    { isRead := true, needsExclusive := true, isInvalidate := true, isLlsc := true, needsResponse := true }
  | .readExReq => { isRead := true, needsExclusive := true, isInvalidate := true, needsResponse := true }
  | .readCleanReq => { isRead := true, needsResponse := true }
  | .readSharedReq => { isRead := true, needsResponse := true }
  | .loadLockedReq => { isRead := true, isLlsc := true, needsResponse := true }
  | .storeCondReq => { isWrite := true, needsExclusive := true, isLlsc := true, needsResponse := true }
  | .storeCondFailReq => { isWrite := true, needsExclusive := true, isLlsc := true, needsResponse := true }
  | .swapReq => { isRead := true, isWrite := true, needsExclusive := true, needsResponse := true }
  | .invalidateReq => { isInvalidate := true, needsExclusive := true, needsResponse := true }

/-- A request. A row operation is an uncacheable write to address 0: its operands are in the payload. -/
structure CachePacket where
  cmd : MemCmd
  addr : Nat
  size : Nat
  secure : Bool
  uncacheable : Bool
  rowOp : Option RowOpPayload
  /-- `sharedAsserted` -/
  shared : Bool
  /-- `memInhibitAsserted` -/
  memInhibit : Bool
  ofRowOp : rowOp.isSome = true → addr = 0 ∧ uncacheable = true ∧ (cmd = .writeReq ∨ cmd = .writeLineReq)
  deriving DecidableEq

namespace CachePacket

def isRead (pkt : CachePacket) : Bool := pkt.cmd.commandInfo.isRead
def isWrite (pkt : CachePacket) : Bool := pkt.cmd.commandInfo.isWrite
def isUpgrade (pkt : CachePacket) : Bool := pkt.cmd.commandInfo.isUpgrade
def isInvalidate (pkt : CachePacket) : Bool := pkt.cmd.commandInfo.isInvalidate
def needsExclusive (pkt : CachePacket) : Bool := pkt.cmd.commandInfo.needsExclusive
def needsResponse (pkt : CachePacket) : Bool := pkt.cmd.commandInfo.needsResponse
def isLLSC (pkt : CachePacket) : Bool := pkt.cmd.commandInfo.isLlsc
def isSWPrefetch (pkt : CachePacket) : Bool := pkt.cmd.commandInfo.isSWPrefetch

def evictingBlock (pkt : CachePacket) : Bool := pkt.cmd == .writeback || pkt.cmd == .cleanEvict

/-- A cacheable request that is no row operation. -/
def ofBlock (cmd : MemCmd) (addr size : Nat) (secure shared : Bool) : CachePacket where
  cmd := cmd
  addr := addr
  size := size
  secure := secure
  uncacheable := false
  rowOp := none
  shared := shared
  memInhibit := false
  ofRowOp := nofun

end CachePacket

/-! ### Miss status holding registers -/

/-- An entry of a queue: what `MSHR::allocate` notes of its first target, and the targets that were added. -/
structure MSHR where
  blkAddr : Nat
  isSecure : Bool
  readyTime : Nat
  order : Nat
  isUncacheable : Bool
  /-- `getTarget()` -/
  target : CachePacket
  moreTargets : List CachePacket
  deriving DecidableEq

namespace MSHR

/-- `MSHR::allocate`. -/
def allocate (blkAddr : Nat) (pkt : CachePacket) (whenReady order : Nat) : MSHR where
  blkAddr := blkAddr
  isSecure := pkt.secure
  readyTime := whenReady
  order := order
  isUncacheable := pkt.uncacheable
  target := pkt
  moreTargets := []

def getNumTargets (m : MSHR) : Nat := 1 + m.moreTargets.length

def needsExclusive (m : MSHR) : Bool := (m.target :: m.moreTargets).any CachePacket.needsExclusive

def isForwardNoResponse (m : MSHR) : Bool := m.getNumTargets == 1 && !m.target.needsResponse

/-- The entry is for the block. -/
def isFor (m : MSHR) (blkAddr : Nat) (secure : Bool) : Bool := m.blkAddr == blkAddr && m.isSecure == secure

end MSHR

/-- `MSHRQueue`: the entries that wait to be sent, and those that wait for a response. -/
structure MSHRQueue where
  numEntries : Nat
  numReserve : Nat
  readyList : List MSHR
  inServiceList : List MSHR

namespace MSHRQueue

/-- The constructor. -/
def new (numEntries reserve : Nat) : MSHRQueue where
  numEntries := numEntries + reserve - 1
  numReserve := reserve
  readyList := []
  inServiceList := []

def allocated (q : MSHRQueue) : Nat := q.readyList.length + q.inServiceList.length

/-- The entries in the order of allocation. -/
def allocatedList (q : MSHRQueue) : List MSHR :=
  (q.readyList ++ q.inServiceList).insertionSort fun a b => a.order ≤ b.order

/-- `allocated > numEntries - numReserve`, on integers. -/
def isFull (q : MSHRQueue) : Bool := q.numEntries < q.allocated + q.numReserve

def findMatches (q : MSHRQueue) (blkAddr : Nat) (secure : Bool) : List MSHR :=
  q.allocatedList.filter fun m => !m.isUncacheable && m.isFor blkAddr secure

def findMatch (q : MSHRQueue) (blkAddr : Nat) (secure : Bool) : Option MSHR :=
  q.allocatedList.find? fun m => !m.isUncacheable && m.isFor blkAddr secure

def findPending (q : MSHRQueue) (blkAddr : Nat) (secure : Bool) : Option MSHR :=
  q.readyList.find? fun m => m.isFor blkAddr secure

/-- The head of the ready list, if it is ready. -/
def getNextMSHR (q : MSHRQueue) (now : Nat) : Option MSHR :=
  q.readyList.head?.filter fun m => m.readyTime ≤ now

/-- `MSHRQueue::addToReadyList`. -/
def addToReadyList (l : List MSHR) (m : MSHR) : List MSHR :=
  if l.getLast?.all fun back => back.readyTime ≤ m.readyTime then l ++ [m]
  else l.orderedInsert (fun a b => a.readyTime < b.readyTime) m

/-- `allocateTarget` on an entry of the queue. -/
def allocateTarget (q : MSHRQueue) (m : MSHR) (pkt : CachePacket) : MSHRQueue :=
  let add := fun x : MSHR => if x.order = m.order then { x with moreTargets := x.moreTargets ++ [pkt] } else x
  { q with readyList := q.readyList.map add, inServiceList := q.inServiceList.map add }

/-- `MSHRQueue::markInService`. -/
def markInService (q : MSHRQueue) (m : MSHR) : MSHRQueue :=
  if m.isForwardNoResponse then { q with readyList := q.readyList.erase m }
  else { q with readyList := q.readyList.erase m, inServiceList := q.inServiceList ++ [m] }

end MSHRQueue

/-! ### The cache -/

structure CacheParams where
  blkSize : Nat
  mshrs : Nat
  writeBuffers : Nat
  tgtsPerMSHR : Nat
  isReadOnly : Bool

/-- A valid block. -/
structure CacheBlk where
  readable : Bool
  writable : Bool
  dirty : Bool
  deriving DecidableEq, Repr

/-- The block has the permissions that the request needs. -/
def CacheBlk.satisfies (blk : CacheBlk) (pkt : CachePacket) : Bool :=
  if pkt.needsExclusive then blk.writable else blk.readable

/-- The valid blocks, by block address and security. -/
abbrev Tags := Nat → Bool → Option CacheBlk

def Tags.set (tags : Tags) (blkAddr : Nat) (secure : Bool) (blk : Option CacheBlk) : Tags := fun a s =>
  if a = blkAddr ∧ s = secure then blk else tags a s

/-- Why requests are refused; the first two are also the indices of the queues. -/
inductive BlockedCause where
  | noMSHRs
  | noWBBuffers
  | noTargets
  deriving DecidableEq, Repr

inductive CacheFailure where
  /-- not a failure of the code: the port refuses the request -/
  | refused
  /-- not a failure of the code: nothing is ready to be sent -/
  | nothingToSend
  /-- not a failure of the code: the answer that comes with the request is none of this cache's blocks -/
  | noSuchVictim
  | writeInReadOnlyCache
  | noFreeEntry
  /-- `allocateWriteBuffer`: not a pure write -/
  | notAWrite
  /-- `access`: an eviction meets another eviction of its block -/
  | evictionMeetsEviction
  | wrongSize
  | notWritable
  | neitherUpgradeNorInvalidate
  | satisfiedUncacheable
  | writebackMeetsMiss
  | prefetchUncacheable
  | missOnUsableBlock
  | evictedBlockPresent
  | noResponseExpected
  | dirtyInReadOnlyCache
  | sharedReadNeedsExclusive
  | unsharedResponse
  /-- not a failure of the code: the snoop meets a request of its block -/
  | requestUnderWay
  deriving DecidableEq, Repr

structure Cache (p : CacheParams) where
  tags : Tags
  mshrQueue : MSHRQueue
  writeBuffer : MSHRQueue
  order : Nat
  blocked : BlockedCause → Bool

/-- What the cache asks of others while it handles a request. -/
structure CacheEnv where
  /-- `isCachedAbove`, by block -/
  isCachedAbove : Nat → Bool → Bool
  /-- `findVictim`: none, or a frame with the valid block that it holds -/
  victim : Option (Option (Nat × Bool))
  /-- whether a swap writes -/
  overwriteMem : Bool

/-- `MSHRQueueIndex`: the queue that an entry is in. -/
inductive MSHRQueueIndex where
  | mshrs
  | writeBuffer
  deriving DecidableEq, Repr

def MSHRQueueIndex.cause : MSHRQueueIndex → BlockedCause
  | .mshrs => .noMSHRs
  | .writeBuffer => .noWBBuffers

/-- `MSHRQueue::allocate`. -/
def MSHRQueue.allocate (q : MSHRQueue) (m : MSHR) : Except CacheFailure MSHRQueue := do
  ensure (q.allocated < q.numEntries) .noFreeEntry
  return { q with readyList := addToReadyList q.readyList m }

namespace Cache

variable {p : CacheParams}

/-- The cache with the given blocks and no request under way. -/
def idle (p : CacheParams) (tags : Tags) : Cache p where
  tags := tags
  mshrQueue := .new p.mshrs 4
  writeBuffer := .new p.writeBuffers (p.mshrs + 1000)
  order := 0
  blocked := fun _ => false

def blockAlign (p : CacheParams) (addr : Nat) : Nat := addr / p.blkSize * p.blkSize

def findBlock (s : Cache p) (addr : Nat) (secure : Bool) : Option CacheBlk := s.tags (blockAlign p addr) secure

def setBlock (s : Cache p) (addr : Nat) (secure : Bool) (blk : Option CacheBlk) : Cache p :=
  { s with tags := s.tags.set (blockAlign p addr) secure blk }

def setBlocked (s : Cache p) (cause : BlockedCause) : Cache p :=
  { s with blocked := Function.update s.blocked cause true }

def clearBlocked (s : Cache p) (cause : BlockedCause) : Cache p :=
  { s with blocked := Function.update s.blocked cause false }

def isBlocked (s : Cache p) : Bool := s.blocked .noMSHRs || s.blocked .noWBBuffers || s.blocked .noTargets

def queue (s : Cache p) : MSHRQueueIndex → MSHRQueue
  | .mshrs => s.mshrQueue
  | .writeBuffer => s.writeBuffer

def setQueue (s : Cache p) (q : MSHRQueue) : MSHRQueueIndex → Cache p
  | .mshrs => { s with mshrQueue := q }
  | .writeBuffer => { s with writeBuffer := q }

/-! ### Allocation -/

def allocateBufferInternal (s : Cache p) (idx : MSHRQueueIndex) (pkt : CachePacket) (time : Nat) :
    Except CacheFailure (Cache p) := do
  let q ← (s.queue idx).allocate (.allocate (blockAlign p pkt.addr) pkt time s.order)
  let s := { s.setQueue q idx with order := s.order + 1 }
  return if q.isFull then s.setBlocked idx.cause else s

def allocateMissBuffer (s : Cache p) (pkt : CachePacket) (time : Nat) : Except CacheFailure (Cache p) :=
  s.allocateBufferInternal .mshrs pkt time

def allocateWriteBuffer (s : Cache p) (pkt : CachePacket) (time : Nat) : Except CacheFailure (Cache p) := do
  ensure (p.isReadOnly = true → pkt.cmd = .cleanEvict) .writeInReadOnlyCache
  ensure (pkt.isWrite = true ∧ pkt.isRead = false) .notAWrite
  s.allocateBufferInternal .writeBuffer pkt time

/-- `markInServiceInternal`. -/
def markInService (s : Cache p) (idx : MSHRQueueIndex) (m : MSHR) : Cache p :=
  let q := (s.queue idx).markInService m
  if (s.queue idx).isFull && !q.isFull then (s.setQueue q idx).clearBlocked idx.cause else s.setQueue q idx

/-! ### Lookup -/

/-- `writebackBlk`, or `cleanEvictBlk` if the block is clean. -/
def evictBlk (p : CacheParams) (blkAddr : Nat) (secure : Bool) (blk : CacheBlk) : CachePacket :=
  if blk.dirty then .ofBlock .writeback blkAddr p.blkSize secure (!blk.writable)
  else .ofBlock .cleanEvict blkAddr p.blkSize secure false

/-- `Cache::writebackAddr`: what it adds to the list of writebacks, and the blocks that stay. -/
def writebackAddr (p : CacheParams) (tags : Tags) (secure : Bool) (addr : Nat) : List CachePacket × Tags :=
  match tags (blockAlign p addr) secure with
  | some blk => ([evictBlk p (blockAlign p addr) secure blk], tags.set (blockAlign p addr) secure none)
  | none => ([], tags)

def writebackAddrs (p : CacheParams) (secure : Bool) : Tags → List Nat → List CachePacket × Tags
  | tags, [] => ([], tags)
  | tags, addr :: addrs =>
    let first := writebackAddr p tags secure addr
    let rest := writebackAddrs p secure first.2 addrs
    (first.1 ++ rest.1, rest.2)

/-- The addresses that `access` flushes for an uncacheable request. -/
def flushAddrs (p : CacheParams) (pkt : CachePacket) : List Nat :=
  match pkt.rowOp with
  | some addrs =>
    (forLoop 0 rowSize p.blkSize).flatMap fun i => [addrs.dest + i, addrs.src1 + i, addrs.src2 + i]
  | none => [pkt.addr]

/-- `Cache::allocateBlock`: the blocks that stay and the eviction, or nothing if no frame is found. -/
def allocateBlock (s : Cache p) (env : CacheEnv) : Except CacheFailure (Option (Tags × List CachePacket)) :=
  match env.victim with
  | none => .ok none
  | some none => .ok (some (s.tags, []))
  | some (some (replAddr, secure)) =>
    match s.tags replAddr secure with
    | none => .error .noSuchVictim
    | some blk =>
      -- an upgrade of the block is outstanding: too hard to replace
      if (s.mshrQueue.findMatch replAddr secure).isSome then .ok none
      else .ok (some (s.tags.set replAddr secure none, [evictBlk p replAddr secure blk]))

/-- The state of a block after `satisfyCpuSideRequest`; `none` if the copy is given up. -/
def satisfyCpuSideRequest (p : CacheParams) (env : CacheEnv) (pkt : CachePacket) (blk : CacheBlk) :
    Except CacheFailure (Option CacheBlk) := do
  ensure (pkt.addr % p.blkSize + pkt.size ≤ p.blkSize) .wrongSize
  if pkt.cmd = .swapReq then
    return some { blk with dirty := blk.dirty || env.overwriteMem }
  else if pkt.isWrite then do
    ensure (blk.writable = true) .notWritable
    return some { blk with dirty := true }
  else if pkt.isRead then
    if pkt.cmd ∈ [MemCmd.readExReq, .readSharedReq, .readCleanReq, .scUpgradeFailReq] then do
      ensure (pkt.size = p.blkSize) .wrongSize
      if pkt.needsExclusive then
        return none
      -- ownership goes along with exclusivity
      else if blk.writable && !pkt.shared && pkt.cmd != .readCleanReq then
        return some { blk with dirty := false }
      else
        return some blk
    else
      return some blk
  else do
    ensure (pkt.isUpgrade = true ∨ pkt.isInvalidate = true) .neitherUpgradeNorInvalidate
    return none

/-- What `access` returns. -/
structure Accessed (p : CacheParams) where
  satisfied : Bool
  blk : Option CacheBlk
  writebacks : List CachePacket
  cache : Cache p

/-- `access` of a Writeback: the block is written without regard to permissions. -/
def accessWriteback (s : Cache p) (env : CacheEnv) (pkt : CachePacket) : Except CacheFailure (Accessed p) := do
  ensure (p.blkSize = pkt.size) .wrongSize
  match s.findBlock pkt.addr pkt.secure with
  | some blk =>
    let blk := { blk with dirty := true, writable := blk.writable || !pkt.shared }
    return ⟨true, some blk, [], s.setBlock pkt.addr pkt.secure (some blk)⟩
  | none =>
    match ← s.allocateBlock env with
    | none => return ⟨false, none, [], s⟩
    | some (tags, writebacks) =>
      let blk := { readable := true, writable := !pkt.shared, dirty := true }
      return ⟨true, some blk, writebacks, { s with tags := tags }.setBlock pkt.addr pkt.secure (some blk)⟩

/-- `access` of a cacheable request, after the evictions that meet an eviction. -/
def accessBlock (s : Cache p) (env : CacheEnv) (pkt : CachePacket) : Except CacheFailure (Accessed p) :=
  if pkt.cmd = .writeback then
    s.accessWriteback env pkt
  else
    let blk := s.findBlock pkt.addr pkt.secure
    if pkt.cmd = .cleanEvict then
      .ok ⟨blk.isSome, blk, [], s⟩
    else
      match blk with
      | some b => do
        if b.satisfies pkt then
          let b ← satisfyCpuSideRequest p env pkt b
          return ⟨true, b, [], s.setBlock pkt.addr pkt.secure b⟩
        else
          return ⟨false, some b, [], s⟩
      -- a store conditional that misses gives up
      | none => .ok ⟨pkt.isLLSC && pkt.isWrite, none, [], s⟩

/-- `Cache::access`. -/
def access (s : Cache p) (env : CacheEnv) (pkt : CachePacket) : Except CacheFailure (Accessed p) := do
  ensure (¬ (p.isReadOnly = true ∧ pkt.isWrite = true)) .writeInReadOnlyCache
  if pkt.uncacheable then
    let flushed := writebackAddrs p pkt.secure s.tags (flushAddrs p pkt)
    return ⟨false, none, flushed.1, { s with tags := flushed.2 }⟩
  else if pkt.evictingBlock then
    match s.writeBuffer.findMatches pkt.addr pkt.secure with
    | [] => s.accessBlock env pkt
    | [wb] => do
      ensure (pkt.cmd = .cleanEvict ∧ wb.target.cmd = .writeback) .evictionMeetsEviction
      return ⟨true, s.findBlock pkt.addr pkt.secure, [], s⟩
    | _ => .error .evictionMeetsEviction
  else
    s.accessBlock env pkt

/-! ### Requests -/

/-- One packet of `Cache::doWritebacks`: CleanEvicts of blocks that are cached above are dropped. -/
def doWriteback (env : CacheEnv) (forwardTime : Nat) (s : Cache p) (wb : CachePacket) :
    Except CacheFailure (Cache p) :=
  if wb.cmd = .cleanEvict ∧ env.isCachedAbove wb.addr wb.secure = true then .ok s
  else s.allocateWriteBuffer wb forwardTime

/-- `Cache::doWritebacks`. -/
def doWritebacks (s : Cache p) (env : CacheEnv) (forwardTime : Nat) (writebacks : List CachePacket) :
    Except CacheFailure (Cache p) :=
  writebacks.foldlM (doWriteback env forwardTime) s

/-- Coalesce a miss with the entry of its block. -/
def coalesce (s : Cache p) (m : MSHR) (pkt : CachePacket) : Cache p :=
  let s' := { s with mshrQueue := s.mshrQueue.allocateTarget m pkt, order := s.order + 1 }
  if m.getNumTargets + 1 = p.tgtsPerMSHR then s'.setBlocked .noTargets else s'

/-- A miss to a block that has an entry. -/
def missHit (s : Cache p) (m : MSHR) (pkt : CachePacket) : Except CacheFailure (Cache p) :=
  if pkt.isSWPrefetch then .ok s
  else do
    ensure (pkt.cmd ≠ .writeback) .writebackMeetsMiss
    return if pkt.cmd = .cleanEvict then s else s.coalesce m pkt

/-- A write miss to a valid block makes it unreadable. -/
def hideBlock (s : Cache p) (pkt : CachePacket) : Option CacheBlk → Except CacheFailure (Cache p)
  | none => .ok s
  | some blk => do
    ensure (pkt.needsExclusive = true ∧ blk.writable = false) .missOnUsableBlock
    return s.setBlock pkt.addr pkt.secure (some { blk with readable := false })

/-- A miss to a block that has no entry. -/
def missNew (s : Cache p) (forwardTime : Nat) (pkt : CachePacket) (blk : Option CacheBlk) :
    Except CacheFailure (Cache p) :=
  if pkt.evictingBlock || pkt.uncacheable && pkt.isWrite then s.allocateWriteBuffer pkt forwardTime
  else do
    let s ← s.hideBlock pkt blk
    s.allocateMissBuffer pkt forwardTime

/-- The packet that goes on: a software prefetch is answered at once and a copy of it goes on. -/
def forwarded (pkt : CachePacket) : CachePacket :=
  if pkt.isSWPrefetch then .ofBlock pkt.cmd pkt.addr pkt.size pkt.secure false else pkt

/-- The miss part of `recvTimingReq`. -/
def handleMiss (s : Cache p) (forwardTime : Nat) (pkt : CachePacket) (blk : Option CacheBlk) :
    Except CacheFailure (Cache p) := do
  ensure (pkt.isSWPrefetch = true → pkt.uncacheable = false) .prefetchUncacheable
  match if pkt.uncacheable then none else s.mshrQueue.findMatch (blockAlign p pkt.addr) pkt.secure with
  | some m => s.missHit m pkt
  | none => s.missNew forwardTime (forwarded pkt) blk

/-- `Cache::promoteWholeLineWrites`. -/
def promoteWholeLineWrites (p : CacheParams) (pkt : CachePacket) : CachePacket :=
  if pkt.cmd = .writeReq ∧ pkt.size = p.blkSize ∧ pkt.addr % p.blkSize = 0 then
    { pkt with
      cmd := .writeLineReq
      ofRowOp := fun hop => ⟨(pkt.ofRowOp hop).1, (pkt.ofRowOp hop).2.1, .inr rfl⟩ }
  else pkt

/-- `Cache::recvTimingReq`, where `forwardTime` is `clockEdge(forwardLatency)` and the header delay. -/
def recvTimingReq (s : Cache p) (env : CacheEnv) (forwardTime : Nat) (req : CachePacket) :
    Except CacheFailure (Cache p) :=
  let pkt := promoteWholeLineWrites p req
  -- a cache above answers; the express snoop that may be needed goes past the queues
  if pkt.memInhibit then .ok s
  else do
    let a ← s.access env pkt
    let s ← a.cache.doWritebacks env forwardTime a.writebacks
    if a.satisfied then
      ensure (pkt.uncacheable = false) .satisfiedUncacheable
      return s
    else
      s.handleMiss forwardTime pkt a.blk

/-- `Cache::CpuSidePort::recvTimingReq`. -/
def recvAtPort (s : Cache p) (env : CacheEnv) (forwardTime : Nat) (pkt : CachePacket) :
    Except CacheFailure (Cache p) := do
  ensure (pkt.memInhibit = true ∨ s.isBlocked = false) .refused
  s.recvTimingReq env forwardTime pkt

/-! ### Sends -/

/-- A full write buffer goes before the misses. -/
def writesFirst (s : Cache p) : Bool := s.writeBuffer.isFull && s.writeBuffer.inServiceList.isEmpty

/-- The entry to issue when it is a write's turn: an earlier miss to the block goes first. -/
def issueWrite (s : Cache p) (w : MSHR) : MSHRQueueIndex × MSHR :=
  match s.mshrQueue.findPending w.blkAddr w.isSecure with
  | some conflict => if conflict.order < w.order then (.mshrs, conflict) else (.writeBuffer, w)
  | none => (.writeBuffer, w)

/-- The entry to issue when it is a miss's turn: a write to the block goes first, earlier or not. -/
def issueMiss (s : Cache p) (m : MSHR) : MSHRQueueIndex × MSHR :=
  match s.writeBuffer.findPending m.blkAddr m.isSecure with
  | some conflict => (.writeBuffer, conflict)
  | none => (.mshrs, m)

/-- `Cache::getNextMSHR`. -/
def getNextMSHR (s : Cache p) (now : Nat) : Option (MSHRQueueIndex × MSHR) :=
  match s.writeBuffer.getNextMSHR now, s.mshrQueue.getNextMSHR now with
  | some w, some m => some (if s.writesFirst then s.issueWrite w else s.issueMiss m)
  | some w, none => some (s.issueWrite w)
  | none, some m => some (s.issueMiss m)
  | none, none => none

/-- The command that `getBusPacket` sends for a miss. -/
def busCommand (p : CacheParams) (pkt : CachePacket) (blk : Option CacheBlk) (needsExclusive : Bool) :
    Except CacheFailure MemCmd :=
  match blk with
  | some b => do
    ensure (needsExclusive = true ∧ b.writable = false) .missOnUsableBlock
    return if pkt.isLLSC then .scUpgradeReq else .upgradeReq
  | none =>
    .ok (if pkt.cmd = .scUpgradeFailReq ∨ pkt.cmd = .storeCondFailReq then .scUpgradeFailReq
      else if pkt.cmd = .writeLineReq then .invalidateReq
      else if needsExclusive then .readExReq
      else if p.isReadOnly then .readCleanReq
      else .readSharedReq)

/-- `Cache::getBusPacket`. -/
def getBusPacket (p : CacheParams) (pkt : CachePacket) (blk : Option CacheBlk) (needsExclusive : Bool) :
    Except CacheFailure (Option CachePacket) :=
  if pkt.uncacheable || blk.isNone && (pkt.isUpgrade || pkt.evictingBlock) then .ok none
  else do
    ensure (pkt.needsResponse = true) .noResponseExpected
    let cmd ← busCommand p pkt blk needsExclusive
    return some (.ofBlock cmd (blockAlign p pkt.addr) p.blkSize pkt.secure pkt.shared)

/-- The packet that `getTimingPacket` makes for an entry. -/
def getTimingPacket (s : Cache p) (m : MSHR) : Except CacheFailure CachePacket := do
  let blk := s.findBlock m.blkAddr m.isSecure
  if m.isForwardNoResponse then
    ensure (blk.isNone = true) .evictedBlockPresent
    return m.target
  else
    return (← getBusPacket p m.target blk m.needsExclusive).getD m.target

/-- `CacheReqPacketQueue::sendDeferredPacket` when the packet is taken: the cache after it, the entry that was
sent and its packet. -/
def sendDeferredPacket (s : Cache p) (now : Nat) : Except CacheFailure (Cache p × MSHR × CachePacket) :=
  match s.getNextMSHR now with
  | none => .error .nothingToSend
  | some (idx, m) => do
    let pkt ← s.getTimingPacket m
    return (s.markInService idx m, m, pkt)

end Cache

end MimdramLean

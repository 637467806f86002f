import MimdramLean.StoreQueue
import MimdramLean.Library.Ring

/-!
# The write-back of stores

`LSQUnit` from the insertion of a store to the answer of the data cache: `insertStore`, `write` and
`executeStore`, `commitStores`, `writebackStores` with its split packets and its retries,
`completeDataAccess`, `completeStore` and `squash`. A sender state belongs to one store, and is named by
the store's sequence number. The deletion of requests and packets, the checker and the statistics are left
out.
-/

namespace MimdramLean

open Library

namespace RequestFlag

def cacheBlockZero : Nat := 0x00010000
def llsc : Nat := 0x00200000
def memSwap : Nat := 0x00400000
def memSwapCond : Nat := 0x00800000

end RequestFlag

namespace Request

def isCacheBlockZero (req : Request) : Bool := req.flags &&& RequestFlag.cacheBlockZero != 0

def isLLSC (req : Request) : Bool := req.flags &&& RequestFlag.llsc != 0

def isSwap (req : Request) : Bool := req.flags &&& (RequestFlag.memSwap ||| RequestFlag.memSwapCond) != 0

end Request

inductive WriteCmd where
  | storeCondReq
  | swapReq
  | writeReq
  deriving DecidableEq, Repr

/-- `Packet::makeWriteCmd`. -/
def makeWriteCmd (req : Request) : WriteCmd :=
  if req.isLLSC then .storeCondReq else if req.isSwap then .swapReq else .writeReq

/-- The request of a store that a packet is made for: the only one, or a half of a split one. -/
inductive PacketPart where
  | whole
  | low
  | high
  deriving DecidableEq, Repr

/-- A packet to the data cache, with the store whose sender state it carries. -/
structure StorePacket where
  seqNum : Nat
  part : PacketPart
  cmd : WriteCmd
  req : Request
  data : List UInt8
  deriving DecidableEq

/-- `Packet::createWrite` with the data and the sender state. -/
def StorePacket.createWrite (seqNum : Nat) (part : PacketPart) (req : Request) (data : List UInt8) : StorePacket :=
  ⟨seqNum, part, makeWriteCmd req, req, data⟩

/-- `DynInst`, what the write-back reads of it. -/
structure StoreInst where
  seqNum : Nat
  isStoreConditional : Bool
  isDataPrefetch : Bool
  memData : Option (List UInt8)
  deriving DecidableEq

/-- `SQEntry`, with what the write-back reads and writes. -/
structure StoreSlot where
  inst : Option StoreInst
  req : Option Request
  /-- `sreqLow` and `sreqHigh` -/
  sreqs : Option (Request × Request)
  size : Nat
  isSplit : Bool
  canWB : Bool
  committed : Bool
  completed : Bool
  isAllZeros : Bool
  data : List UInt8
  deriving DecidableEq

/-- The constructor for an instruction; the data are 32 bytes. -/
def StoreSlot.ofInst (inst : StoreInst) : StoreSlot where
  inst := some inst
  req := none
  sreqs := none
  size := 0
  isSplit := false
  canWB := false
  committed := false
  completed := false
  isAllZeros := false
  data := List.replicate 32 0

/-- The constructor without an instruction. -/
def StoreSlot.empty : StoreSlot :=
  ⟨none, none, none, 0, false, false, false, false, false, List.replicate 32 0⟩

/-- The bytes that `memset` or `memcpy` puts into `memData`. -/
def StoreSlot.memBytes (e : StoreSlot) (req : Request) : List UInt8 :=
  if e.isAllZeros then List.replicate req.size 0 else e.data.take req.size

structure LSQSenderState (n : Nat) where
  idx : Fin n
  outstanding : Nat
  noWB : Bool
  isSplit : Bool
  pktToSend : Bool
  pendingPacket : Option StorePacket
  deriving DecidableEq

/-- `LSQSenderState::complete`, on a `uint8_t`. -/
def LSQSenderState.complete {n : Nat} (st : LSQSenderState n) : LSQSenderState n :=
  { st with outstanding := (st.outstanding + 255) % 256 }

/-- What a store instruction passes to `write`. -/
structure StoreWrite where
  req : Request
  sreqs : Option (Request × Request)
  data : List UInt8

/-- A well-formed argument of `write`: the data fit, and the halves of a split store make up the whole. -/
def StoreWrite.wellFormed (w : StoreWrite) : Bool :=
  (w.data.length == w.req.size && decide (w.req.size ≤ 32) || w.req.isCacheBlockZero) &&
    w.sreqs.all fun (low, high) => low.size + high.size == w.req.size &&
      low.isMmappedIpr == high.isMmappedIpr

/-- What `LSQUnit::write` puts into the entry; the size is a `uint8_t`. -/
def StoreSlot.fill (e : StoreSlot) (w : StoreWrite) : StoreSlot :=
  { e with
    req := some w.req
    sreqs := w.sreqs
    size := w.req.size % 256
    isAllZeros := w.req.isCacheBlockZero
    isSplit := e.isSplit || w.sreqs.isSome
    data := if w.req.isCacheBlockZero then e.data else w.data.take w.req.size ++ e.data.drop w.req.size }

/-- What the write-back of a store does to the rest of the system. -/
inductive StoreEffect where
  /-- the cache accepts a packet -/
  | accepted (pkt : StorePacket)
  /-- `handleIprWrite` -/
  | iprWrite (pkt : StorePacket)
  /-- a store conditional fails, and its write-back is scheduled -/
  | failed (seqNum : Nat)
  deriving DecidableEq

inductive StoreFailure where
  /-- not a failure of the code: the surroundings do not do this -/
  | notEnabled
  | queueFull
  | noStores
  | noInst
  | noRequest
  | tooLarge
  | alreadyCommitted
  | hasMemData
  | splitConditional
  | iprConditional
  | notIpr
  | retryPending
  | pendingPending
  | noPending
  | noSenderState
  /-- the panic "Is stalled should have been cleared by stalling load!" -/
  | stillStalled
  | squashedStore
  | negativeCount
  /-- a loop does not end -/
  | outOfFuel
  deriving DecidableEq, Repr

structure LSQParams where
  cachePorts : Nat
  needsTSO : Bool

/-- What the surroundings answer during one call: the cache for each packet, and `handleLockedWrite` for
each store conditional. -/
structure StoreEnv where
  sendTimingReq : StorePacket → Bool
  handleLockedWrite : Nat → Bool

/-- The part of `LSQUnit` that stores use, then what it has done, and then what its surroundings know. -/
structure LSQStores (n : Nat) where
  storeQueue : Fin n → StoreSlot
  stores : Int
  storesToWB : Int
  storeHead : Fin n
  storeWBIdx : Fin n
  storeTail : Fin n
  usedPorts : Nat
  stall : Option Stall
  retryPkt : Option StorePacket
  isStoreBlocked : Bool
  storeInFlight : Bool
  pendingPkt : Option StorePacket
  hasPendingPkt : Bool
  senderStates : Nat → Option (LSQSenderState n)
  /-- the instructions with `isSquashed` -/
  squashed : List Nat
  /-- what stores have done, oldest first -/
  performed : List StoreEffect
  /-- the loads that `replayMemInst` was called for -/
  replayed : List Nat
  /-- the store conditionals whose `writeback` was called -/
  writtenBack : List Nat
  /-- the packets that the cache has accepted and not answered -/
  inFlight : List StorePacket
  /-- the youngest store that was ever inserted -/
  lastSeqNum : Nat

namespace LSQStores

variable {n : Nat}

/-- `LSQUnit::incrStIdx`. -/
def incrStIdx (idx : Fin n) : Fin n := Ring.next idx

/-- `LSQUnit::decrStIdx`. -/
def decrStIdx (idx : Fin n) : Fin n := Ring.prev idx

/-- The unit with a store queue of `n + 1` places, one of them the sentinel. The constructor, `init` and
`resetState` leave `pendingPkt` as memory had it. -/
def reset (n : Nat) (pendingPkt : Option StorePacket) : LSQStores (n + 1) where
  storeQueue := fun _ => .empty
  stores := 0
  storesToWB := 0
  storeHead := ⟨0, Nat.succ_pos n⟩
  storeWBIdx := ⟨0, Nat.succ_pos n⟩
  storeTail := ⟨0, Nat.succ_pos n⟩
  usedPorts := 0
  stall := none
  retryPkt := none
  isStoreBlocked := false
  storeInFlight := false
  pendingPkt := pendingPkt
  hasPendingPkt := false
  senderStates := fun _ => none
  squashed := []
  performed := []
  replayed := []
  writtenBack := []
  inFlight := []
  lastSeqNum := 0

def setSlot (s : LSQStores n) (idx : Fin n) (e : StoreSlot) : LSQStores n :=
  { s with storeQueue := Function.update s.storeQueue idx e }

def setState (s : LSQStores n) (seqNum : Nat) (st : LSQSenderState n) : LSQStores n :=
  { s with senderStates := Function.update s.senderStates seqNum (some st) }

def instAt (s : LSQStores n) (idx : Fin n) : Except StoreFailure StoreInst :=
  match (s.storeQueue idx).inst with
  | some inst => .ok inst
  | none => .error .noInst

def stateOf (s : LSQStores n) (pkt : StorePacket) : Except StoreFailure (LSQSenderState n) :=
  match s.senderStates pkt.seqNum with
  | some st => .ok st
  | none => .error .noSenderState

/-! ### Insertion, execution and commit -/

/-- `LSQUnit::insertStore`. -/
def insertStore (s : LSQStores n) (inst : StoreInst) : Except StoreFailure (LSQStores n) := do
  ensure (incrStIdx s.storeTail ≠ s.storeHead) .queueFull
  ensure (s.stores < n) .queueFull
  .ok { s.setSlot s.storeTail (.ofInst inst) with
    storeTail := incrStIdx s.storeTail, stores := s.stores + 1, lastSeqNum := inst.seqNum }

/-- `LSQUnit::write`. -/
def write (s : LSQStores n) (w : StoreWrite) (idx : Fin n) : Except StoreFailure (LSQStores n) := do
  let _ ← s.instAt idx
  ensure (w.req.size ≤ 32 ∨ w.req.isCacheBlockZero = true) .tooLarge
  .ok (s.setSlot idx ((s.storeQueue idx).fill w))

/-- `canWB = true` and `++storesToWB`. -/
def markCanWB (s : LSQStores n) (idx : Fin n) : LSQStores n :=
  { s.setSlot idx { s.storeQueue idx with canWB := true } with storesToWB := s.storesToWB + 1 }

/-- `LSQUnit::executeStore` for a store without a fault; `checkViolations` is in `LSQUnit`. -/
def executeStore (s : LSQStores n) (w : StoreWrite) (idx : Fin n) : Except StoreFailure (LSQStores n) := do
  ensure (s.stores ≠ 0) .noStores
  let s ← s.write w idx
  let inst ← s.instAt idx
  if (s.storeQueue idx).size = 0 then .ok s
  else if inst.isStoreConditional then .ok (s.markCanWB idx)
  else .ok s

/-- The loop of `commitStores`, over the places from the head on. -/
def commitLoop (youngest : Nat) : LSQStores n → List (Fin n) → Except StoreFailure (LSQStores n)
  | s, [] => .ok s
  | s, idx :: rest => do
    let inst ← s.instAt idx
    if (s.storeQueue idx).canWB then commitLoop youngest s rest
    else if youngest < inst.seqNum then .ok s
    else commitLoop youngest (s.markCanWB idx) rest

/-- `LSQUnit::commitStores`. -/
def commitStores (s : LSQStores n) (youngest : Nat) : Except StoreFailure (LSQStores n) := do
  ensure (s.stores = 0 ∨ (s.storeQueue s.storeHead).inst.isSome = true) .noInst
  commitLoop youngest s (Ring.window s.storeHead s.storeTail)

/-! ### Completion -/

/-- `if (isStalled() && … == stallingStoreIsn)`: the load that waits for the store is replayed. -/
def unstall (s : LSQStores n) (seqNum : Nat) : LSQStores n :=
  match s.stall with
  | some st =>
    if seqNum = st.storeIsn then { s with stall := none, replayed := s.replayed ++ [st.loadIdx] } else s
  | none => s

/-- The loop of `completeStore` that frees completed stores at the head. -/
def freeHead : Nat → LSQStores n → Except StoreFailure (LSQStores n)
  | 0, _ => .error .outOfFuel
  | fuel + 1, s =>
    let s := { s with storeHead := incrStIdx s.storeHead, stores := s.stores - 1 }
    if (s.storeQueue s.storeHead).completed = true ∧ s.storeHead ≠ s.storeTail then freeHead fuel s else .ok s

/-- `completed = true` and `--storesToWB`. -/
def markCompleted (s : LSQStores n) (idx : Fin n) : LSQStores n :=
  { s.setSlot idx { s.storeQueue idx with completed := true } with storesToWB := s.storesToWB - 1 }

/-- `if (store_idx == storeHead)`. -/
def freeCompleted (s : LSQStores n) (idx : Fin n) : Except StoreFailure (LSQStores n) :=
  if idx = s.storeHead then freeHead n s else .ok s

/-- `LSQUnit::completeStore`. -/
def completeStore (p : LSQParams) (s : LSQStores n) (idx : Fin n) : Except StoreFailure (LSQStores n) := do
  let inst ← s.instAt idx
  let s ← (s.markCompleted idx).freeCompleted idx
  let s := s.unstall inst.seqNum
  .ok (if p.needsTSO then { s with storeInFlight := false } else s)

/-- `LSQUnit::storePostSend`. -/
def storePostSend (p : LSQParams) (s : LSQStores n) : Except StoreFailure (LSQStores n) := do
  let inst ← s.instAt s.storeWBIdx
  let s := s.unstall inst.seqNum
  let s := if p.needsTSO then { s with storeInFlight := true } else s
  .ok { s with storeWBIdx := incrStIdx s.storeWBIdx }

/-! ### Sending -/

def perform (s : LSQStores n) (effect : StoreEffect) : LSQStores n :=
  { s with performed := s.performed ++ [effect] }

def accept (s : LSQStores n) (pkt : StorePacket) : LSQStores n :=
  { s.perform (.accepted pkt) with inFlight := s.inFlight ++ [pkt] }

/-- `LSQUnit::sendStore`. -/
def sendStore (env : StoreEnv) (s : LSQStores n) (pkt : StorePacket) : Except StoreFailure (Bool × LSQStores n) :=
  if env.sendTimingReq pkt then .ok (true, s.accept pkt)
  else do
    ensure (s.retryPkt = none) .retryPending
    .ok (false, { s with isStoreBlocked := true, retryPkt := some pkt })

/-- `if (sendStore(pkt)) storePostSend(pkt)`. -/
def sendLast (p : LSQParams) (env : StoreEnv) (s : LSQStores n) (pkt : StorePacket) :
    Except StoreFailure (LSQStores n) := do
  let (sent, s) ← s.sendStore env pkt
  if sent then s.storePostSend p else .ok s

/-- `LSQUnit::writebackPendingStore`. -/
def writebackPendingStore (p : LSQParams) (env : StoreEnv) (s : LSQStores n) : Except StoreFailure (LSQStores n) :=
  if s.hasPendingPkt then
    match s.pendingPkt with
    | none => .error .noPending
    | some pkt => do
      let s ← s.sendLast p env pkt
      .ok { s with pendingPkt := none, hasPendingPkt := false }
  else .ok s

/-- `completeStore(storeWBIdx)` and `incrStIdx(storeWBIdx)`. -/
def skipStore (p : LSQParams) (s : LSQStores n) : Except StoreFailure (LSQStores n) := do
  let s ← s.completeStore p s.storeWBIdx
  .ok { s with storeWBIdx := incrStIdx s.storeWBIdx }

/-- `data_pkt` and, if the store is split, `snd_data_pkt`. -/
def packets (inst : StoreInst) (e : StoreSlot) (req : Request) (memData : List UInt8) :
    Except StoreFailure (StorePacket × Option StorePacket) :=
  if e.isSplit then
    match e.sreqs with
    | none => .error .noRequest
    | some (low, high) =>
      .ok (.createWrite inst.seqNum .low low (memData.take low.size),
        some (.createWrite inst.seqNum .high high ((memData.drop low.size).take high.size)))
  else .ok (.createWrite inst.seqNum .whole req memData, none)

/-- What `writebackStores` does with the packets: the write of a memory-mapped register, or the cache. -/
def sendPackets (p : LSQParams) (env : StoreEnv) (s : LSQStores n) (inst : StoreInst) (dataPkt : StorePacket)
    (sndDataPkt : Option StorePacket) : Except StoreFailure (LSQStores n) :=
  if dataPkt.req.isMmappedIpr then do
    ensure (inst.isStoreConditional = false) .iprConditional
    let s := s.perform (.iprWrite dataPkt)
    match sndDataPkt with
    | none => s.skipStore p
    | some pkt => do
      ensure (pkt.req.isMmappedIpr = true) .notIpr
      (s.perform (.iprWrite pkt)).skipStore p
  else do
    let (sent, s) ← s.sendStore env dataPkt
    match sndDataPkt with
    | none => if sent then s.storePostSend p else .ok s
    | some pkt =>
      if sent then
        if s.usedPorts < p.cachePorts then
          let s := { s with usedPorts := s.usedPorts + 1 }
          s.sendLast p env pkt
        else do
          -- the packet waits for a free port
          ensure (s.pendingPkt = none) .pendingPending
          .ok { s with pendingPkt := some pkt, hasPendingPkt := true }
      else do
        let st ← s.stateOf pkt
        .ok (s.setState inst.seqNum { st with pktToSend := true, pendingPacket := some pkt })

/-- `committed = true`, and the instruction gets its `memData`. -/
def markCommitted (s : LSQStores n) (inst : StoreInst) (memData : List UInt8) : LSQStores n :=
  s.setSlot s.storeWBIdx { s.storeQueue s.storeWBIdx with
    committed := true, inst := some { inst with memData := some memData } }

/-- A store that is neither empty nor a prefetch: its packets are made, and sent. -/
def issueStore (p : LSQParams) (env : StoreEnv) (s : LSQStores n) (inst : StoreInst) :
    Except StoreFailure (LSQStores n) := do
  let e := s.storeQueue s.storeWBIdx
  match e.req with
  | none => .error .noRequest
  | some req => do
    ensure (e.committed = false) .alreadyCommitted
    ensure (inst.memData = none) .hasMemData
    let memData := e.memBytes req
    let (dataPkt, sndDataPkt) ← packets inst e req memData
    let outstanding := if e.isSplit then 2 else 1
    let st : LSQSenderState n := ⟨s.storeWBIdx, outstanding, !inst.isStoreConditional, e.isSplit, false, none⟩
    let s := (s.markCommitted inst memData).setState inst.seqNum st
    if inst.isStoreConditional then do
      ensure (e.isSplit = false) .splitConditional
      if env.handleLockedWrite inst.seqNum then s.sendPackets p env inst dataPkt sndDataPkt
      else (s.perform (.failed inst.seqNum)).skipStore p
    else s.sendPackets p env inst dataPkt sndDataPkt

/-- The body of the loop of `writebackStores`. -/
def writebackStore (p : LSQParams) (env : StoreEnv) (s : LSQStores n) : Except StoreFailure (LSQStores n) := do
  let inst ← s.instAt s.storeWBIdx
  if (s.storeQueue s.storeWBIdx).size = 0 then s.skipStore p
  else
    let s := { s with usedPorts := s.usedPorts + 1 }
    if inst.isDataPrefetch then .ok { s with storeWBIdx := incrStIdx s.storeWBIdx }
    else s.issueStore p env inst

/-- The condition of the loop. -/
def canWriteback (p : LSQParams) (s : LSQStores n) : Bool :=
  decide (0 < s.storesToWB) && decide (s.storeWBIdx ≠ s.storeTail) &&
    (s.storeQueue s.storeWBIdx).inst.isSome && (s.storeQueue s.storeWBIdx).canWB &&
    (!p.needsTSO || !s.storeInFlight) && decide (s.usedPorts < p.cachePorts)

def writebackLoop (p : LSQParams) (env : StoreEnv) : Nat → LSQStores n → Except StoreFailure (LSQStores n)
  | 0, _ => .error .outOfFuel
  | fuel + 1, s =>
    if s.canWriteback p = true ∧ s.isStoreBlocked = false then do
      let s ← s.writebackStore p env
      writebackLoop p env fuel s
    else .ok s

/-- `LSQUnit::writebackStores`. -/
def writebackStores (p : LSQParams) (env : StoreEnv) (s : LSQStores n) : Except StoreFailure (LSQStores n) := do
  let s ← s.writebackPendingStore p env
  let s ← writebackLoop p env (p.cachePorts + n + 1) s
  ensure (0 ≤ s.stores ∧ 0 ≤ s.storesToWB) .negativeCount
  .ok { s with usedPorts := 0 }

/-- `LSQUnit::recvRetry`. -/
def recvRetry (p : LSQParams) (env : StoreEnv) (s : LSQStores n) : Except StoreFailure (LSQStores n) :=
  if s.isStoreBlocked then
    match s.retryPkt with
    | none => .error .noPending
    | some pkt => do
      let st ← s.stateOf pkt
      if env.sendTimingReq pkt then
        let s := s.accept pkt
        if st.pktToSend = false ∨ st.pendingPacket = some pkt then do
          let s ← (s.setState pkt.seqNum { st with pktToSend := false }).storePostSend p
          .ok { s with retryPkt := none, isStoreBlocked := false }
        else
          let s := { s with retryPkt := none, isStoreBlocked := false }
          match st.pendingPacket with
          | none => .error .noPending
          | some pending => s.sendLast p env pending
      else .ok s
  else .ok s

/-! ### Answers and squashes -/

/-- `LSQUnit::completeDataAccess` for the answer to a packet of a store. -/
def completeDataAccess (p : LSQParams) (s : LSQStores n) (pkt : StorePacket) : Except StoreFailure (LSQStores n) := do
  let st ← s.stateOf pkt
  let st := st.complete
  let s := s.setState pkt.seqNum st
  if st.outstanding ≠ 0 then .ok s
  else if pkt.seqNum ∈ s.squashed then .ok s
  else
    let s := if st.noWB then s else { s with writtenBack := s.writtenBack ++ [pkt.seqNum] }
    s.completeStore p st.idx

/-- The loop of `squash` over the loads: it clears the stall when it meets the stalled load. -/
def squashLoads (s : LSQStores n) (squashedNum : Nat) : LSQStores n :=
  match s.stall with
  | some st => if squashedNum < st.loadSeqNum then { s with stall := none } else s
  | none => s

/-- The loop of `squash` over the stores, from the youngest. -/
def squashStores (squashedNum : Nat) : Nat → LSQStores n → Except StoreFailure (LSQStores n)
  | 0, s => if s.stores = 0 then .ok s else .error .outOfFuel
  | fuel + 1, s =>
    if s.stores = 0 then .ok s
    else do
      let idx := decrStIdx s.storeTail
      let inst ← s.instAt idx
      if squashedNum < inst.seqNum ∧ (s.storeQueue idx).canWB = false then do
        ensure (s.stall.all fun st => decide (st.storeIsn ≠ inst.seqNum)) .stillStalled
        let e := s.storeQueue idx
        squashStores squashedNum fuel { s.setSlot idx { e with
            inst := none, canWB := false, req := none, sreqs := if e.isSplit then none else e.sreqs } with
          squashed := inst.seqNum :: s.squashed, stores := s.stores - 1, storeTail := idx }
      else .ok s

/-- `LSQUnit::squash`. -/
def squash (s : LSQStores n) (squashedNum : Nat) : Except StoreFailure (LSQStores n) :=
  squashStores squashedNum n (s.squashLoads squashedNum)

/-! ### The calls of the unit -/

inductive StoreEvent (n : Nat) where
  | insertStore (seqNum : Nat) (isStoreConditional isDataPrefetch : Bool)
  | executeStore (seqNum : Nat) (w : StoreWrite) (sqIdx : Fin n)
  | commitStores (youngest : Nat)
  | writebackStores (env : StoreEnv)
  | recvRetry (env : StoreEnv)
  /-- the cache answers a packet -/
  | completeDataAccess (pkt : StorePacket)
  | squash (squashedNum : Nat)
  /-- a load uses a port -/
  | usePort
  /-- `read` stalls a load -/
  | stall (st : Stall)

/-- The sequence number of the store at a place. -/
def seqNumAt (s : LSQStores n) (idx : Fin n) : Option Nat := (s.storeQueue idx).inst.map (·.seqNum)

/-- The places of the stores that have not been sent. -/
def waiting (s : LSQStores n) : List (Fin n) := Ring.window s.storeWBIdx s.storeTail

/-- When the rest of the CPU makes a call. Sequence numbers grow, the rename stage knows when the queue is
full, a store is executed once and before it commits, one that may be conditional is neither split nor
mapped, committed stores are not squashed, and a load stalls on an older store that has not been sent. -/
def enabled (s : LSQStores n) : StoreEvent n → Bool
  | .insertStore seqNum _ _ => decide (s.lastSeqNum < seqNum) && decide (s.stores + 1 < n)
  | .executeStore seqNum w idx =>
    s.waiting.contains idx && s.seqNumAt idx == some seqNum && (s.storeQueue idx).req.isNone &&
      !(s.storeQueue idx).canWB && w.wellFormed && ((s.storeQueue idx).inst.all fun inst =>
        !inst.isStoreConditional || (w.sreqs.isNone && !w.req.isMmappedIpr))
  | .commitStores _ => true
  | .writebackStores _ => true
  | .recvRetry _ => true
  | .completeDataAccess pkt => s.inFlight.contains pkt
  | .squash num => (Ring.window s.storeHead s.storeTail).all fun idx =>
      !(s.storeQueue idx).canWB || (s.seqNumAt idx).all (decide <| · ≤ num)
  | .usePort => true
  | .stall st => (s.waiting.any fun idx => s.seqNumAt idx == some st.storeIsn) &&
      decide (st.storeIsn < st.loadSeqNum) && s.stall.all fun old => decide (st.loadSeqNum < old.loadSeqNum)

/-- A call that the CPU makes. -/
def call (p : LSQParams) (s : LSQStores n) : StoreEvent n → Except StoreFailure (LSQStores n)
  | .insertStore seqNum isStoreConditional isDataPrefetch =>
    s.insertStore ⟨seqNum, isStoreConditional, isDataPrefetch, none⟩
  | .executeStore _ w idx => s.executeStore w idx
  | .commitStores youngest => s.commitStores youngest
  | .writebackStores env => s.writebackStores p env
  | .recvRetry env => s.recvRetry p env
  | .completeDataAccess pkt =>
    let s := { s with inFlight := s.inFlight.erase pkt }
    s.completeDataAccess p pkt
  | .squash num => s.squash num
  | .usePort => .ok { s with usedPorts := s.usedPorts + 1 }
  | .stall st => .ok { s with stall := some st }

def step (p : LSQParams) (s : LSQStores n) (e : StoreEvent n) : Except StoreFailure (LSQStores n) := do
  ensure (s.enabled e = true) .notEnabled
  s.call p e

end LSQStores

end MimdramLean

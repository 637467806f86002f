import MimdramLean.Refresh
import MimdramLean.Scheduler
import Mathlib.Data.Finset.Basic
import Mathlib.Data.Fintype.Basic

/-!
# The memory controller

`DRAMCtrl` as a machine: the handlers of requests, of `nextReqEvent` and `respondEvent`, of the
rank events and of drain requests. An event of the machine carries the tick at which it happens.
`arrived` and `issued` record the packets pushed on the write queue and the packets handed to
`doDRAMAccess`; nothing reads them.
-/

namespace MimdramLean

open Library

inductive BusState where
  | read
  | readToWrite
  | write
  | writeToRead
  deriving DecidableEq, Repr

inductive DrainState where
  | running
  | draining
  | drained
  deriving DecidableEq, Repr

structure BurstHelper where
  burstCount : Nat
  burstsServiced : Nat
  deriving DecidableEq, Repr

structure DRAMCtrl (p : Params) where
  channel : Channel p
  curTick : Nat
  busState : BusState
  readQueue : List (DRAMPacket p)
  writeQueue : List (DRAMPacket p)
  respQueue : List (DRAMPacket p)
  isInWriteQueue : Finset Nat
  burstHelpers : List BurstHelper
  retryRdReq : Bool
  retryWrReq : Bool
  nextReqEvent : Option Nat
  respondEvent : Option Nat
  drainState : DrainState
  /-- the calls of `accessAndRespond`, oldest first -/
  responded : List (Packet × Nat)
  arrived : List (DRAMPacket p)
  issued : List (DRAMPacket p)

namespace DRAMCtrl

variable {p : Params}

/-- The controller after construction and `startup` in timing mode at tick `now`. -/
def startup (p : Params) (now : Nat) : DRAMCtrl p where
  channel := Channel.startup p now
  curTick := now
  busState := .read
  readQueue := []
  writeQueue := []
  respQueue := []
  isInWriteQueue := ∅
  burstHelpers := []
  retryRdReq := false
  retryWrReq := false
  nextReqEvent := none
  respondEvent := none
  drainState := .running
  responded := []
  arrived := []
  issued := []

def readQueueFull (s : DRAMCtrl p) (neededEntries : Nat) : Bool :=
  decide (p.readBufferSize < s.readQueue.length + s.respQueue.length + neededEntries)

def writeQueueFull (s : DRAMCtrl p) (neededEntries : Nat) : Bool :=
  decide (p.writeBufferSize < s.writeQueue.length + neededEntries)

def accessAndRespond (s : DRAMCtrl p) (pkt : Packet) (staticLatency : Nat) : DRAMCtrl p :=
  { s with responded := s.responded ++ [(pkt, staticLatency)] }

/-- Schedule `nextReqEvent` unless it is scheduled. -/
def scheduleNextReq (s : DRAMCtrl p) (tick : Nat) : DRAMCtrl p :=
  if s.nextReqEvent = none then { s with nextReqEvent := some tick } else s

/-! ### Requests -/

/-- The first address after the burst that holds `addr`. -/
def nextBurst (p : Params) (addr : Nat) : Nat := add64 (addr ||| (p.burstSize - 1)) 1

/-- The bytes of `pkt` in the burst that holds `addr`, as an `unsigned`. -/
def burstBytes (p : Params) (pkt : Packet) (addr : Nat) : Nat :=
  sub64 (min (nextBurst p addr) (add64 pkt.getAddr pkt.getSize)) addr % 2 ^ 32

/-- Whether a read of `size` bytes at `addr` is served by the write queue. -/
def foundInWrQ (s : DRAMCtrl p) (addr size : Nat) : Bool :=
  decide (p.burstAlign addr ∈ s.isInWriteQueue) &&
    s.writeQueue.any fun d => decide (d.addr ≤ addr ∧ add64 addr size ≤ add64 d.addr d.size)

/-- The burst helper of a split packet, created for the first burst that goes to the read queue. -/
def withHelper (s : DRAMCtrl p) (pktCount : Nat) (helper : Option Nat) : DRAMCtrl p × Option Nat :=
  if 1 < pktCount ∧ helper = none then
    ({ s with burstHelpers := s.burstHelpers ++ [⟨pktCount, 0⟩] }, some s.burstHelpers.length)
  else (s, helper)

/-- The loop of `addToReadQueue`: `n` bursts from `addr` on, with the burst helper and the number
of bursts served by the write queue so far. -/
def addReadBursts (pkt : Packet) (pktCount : Nat) :
    Nat → Nat → Option Nat → Nat → DRAMCtrl p → Except Failure (DRAMCtrl p × Option Nat × Nat)
  | 0, _, helper, serviced, s => .ok (s, helper, serviced)
  | n + 1, addr, helper, serviced, s =>
    let size := burstBytes p pkt addr
    if s.foundInWrQ addr size then
      addReadBursts pkt pktCount n (nextBurst p addr) helper (serviced + 1) s
    else do
      let (s, helper) := s.withHelper pktCount helper
      let loc ← decodeAddr p addr
      let d := { DRAMPacket.create s.curTick pkt true loc addr size with burstHelper := helper }
      ensure (s.readQueueFull 1 = false) .readQueueFull
      addReadBursts pkt pktCount n (nextBurst p addr) helper serviced
        { s with readQueue := s.readQueue ++ [d] }

def setServiced (s : DRAMCtrl p) (helper : Option Nat) (serviced : Nat) : DRAMCtrl p :=
  match helper with
  | some h => { s with burstHelpers := s.burstHelpers.modify h fun b => { b with burstsServiced := serviced } }
  | none => s

/-- `DRAMCtrl::addToReadQueue`. -/
def addToReadQueue (s : DRAMCtrl p) (pkt : Packet) (pktCount : Nat) : Except Failure (DRAMCtrl p) := do
  ensure (pktCount ≠ 0) .zeroBursts
  let (s, helper, serviced) ← addReadBursts pkt pktCount pktCount pkt.getAddr none 0 s
  if serviced = pktCount then .ok (s.accessAndRespond pkt p.frontendLatency)
  else .ok ((s.setServiced helper serviced).scheduleNextReq s.curTick)

/-- Push a packet on the write queue. -/
def pushWrite (s : DRAMCtrl p) (d : DRAMPacket p) : DRAMCtrl p :=
  { s with writeQueue := s.writeQueue ++ [d], arrived := s.arrived ++ [d] }

/-- The packet that `addToWriteQueue` creates for a row operation. -/
def rowOpPacket (now : Nat) (pkt : Packet) (addrs : RowOpPayload) : Except Failure (DRAMPacket p) := do
  let loc ← decodeAddr p addrs.dest
  let loc1 ← decodeAddr p addrs.src1
  let loc2 ← decodeAddr p addrs.src2
  ensure (addrs.op ≠ .rowAp → loc.rank = loc1.rank ∧ loc.bank = loc1.bank) .rowOpBank
  ensure (addrs.op ≠ .rowNot → addrs.op ≠ .rowAap → addrs.op ≠ .rowAp →
    loc.rank = loc2.rank ∧ loc.bank = loc2.bank) .rowOpBank
  .ok { DRAMPacket.create now pkt false loc addrs.dest 0 with
    rowOp := some addrs.op, src1Row := loc1.row.val, src2Row := loc2.row.val }

/-- The loop of `addToWriteQueue`: a burst whose address is queued already is merged. -/
def addWriteBursts (pkt : Packet) : Nat → Nat → DRAMCtrl p → Except Failure (DRAMCtrl p)
  | 0, _, s => .ok s
  | n + 1, addr, s =>
    if p.burstAlign addr ∈ s.isInWriteQueue then addWriteBursts pkt n (nextBurst p addr) s
    else do
      let loc ← decodeAddr p addr
      ensure (s.writeQueue.length < p.writeBufferSize) .writeQueueFull
      let s := s.pushWrite (DRAMPacket.create s.curTick pkt false loc addr (burstBytes p pkt addr))
      addWriteBursts pkt n (nextBurst p addr)
        { s with isInWriteQueue := insert (p.burstAlign addr) s.isInWriteQueue }

/-- The packets of one request: a row operation is one packet, whatever is queued. -/
def addWritePackets (s : DRAMCtrl p) (pkt : Packet) (pktCount : Nat) : Except Failure (DRAMCtrl p) :=
  match pkt.kind with
  | .rowOpReq addrs => do
    let d ← rowOpPacket s.curTick pkt addrs
    let s := s.pushWrite d
    .ok { s with channel := { s.channel with pendingRowOps := s.channel.pendingRowOps + 1 } }
  | _ => addWriteBursts pkt pktCount pkt.getAddr s

/-- `DRAMCtrl::addToWriteQueue`. -/
def addToWriteQueue (s : DRAMCtrl p) (pkt : Packet) (pktCount : Nat) : Except Failure (DRAMCtrl p) := do
  let s ← s.addWritePackets pkt pktCount
  .ok ((s.accessAndRespond pkt p.frontendLatency).scheduleNextReq s.curTick)

/-- `dram_pkt_count`: the bursts a packet touches, in 32-bit arithmetic. -/
def dramPktCount (p : Params) (pkt : Packet) : Nat :=
  let offset := pkt.getAddr &&& (p.burstSize - 1)
  ((offset + pkt.getSize) % 2 ^ 32 + p.burstSize - 1) % 2 ^ 32 / p.burstSize

/-- `DRAMCtrl::recvTimingReq`. The second component tells whether the packet is accepted. -/
def recvTimingReq (s : DRAMCtrl p) (pkt : Packet) : Except Failure (DRAMCtrl p × Bool) :=
  if pkt.memInhibit then .ok (s, true)
  else match pkt.kind with
    | .cleanEvict _ _ => .ok (s, true)
    | .other _ _ => .ok (s.accessAndRespond pkt 1, true)
    | .readReq _ _ => do
      ensure (pkt.getSize ≠ 0) .zeroSize
      if s.readQueueFull (dramPktCount p pkt) then .ok ({ s with retryRdReq := true }, false)
      else do
        let s ← s.addToReadQueue pkt (dramPktCount p pkt)
        .ok (s, true)
    | .writeReq _ _ | .rowOpReq _ => do
      ensure (pkt.getSize ≠ 0) .zeroSize
      if s.writeQueueFull (dramPktCount p pkt) then .ok ({ s with retryWrReq := true }, false)
      else do
        let s ← s.addToWriteQueue pkt (dramPktCount p pkt)
        .ok (s, true)

/-! ### Responses and draining -/

/-- `Drainable::signalDrainDone`. -/
def signalDrainDone (s : DRAMCtrl p) : DRAMCtrl p :=
  if s.drainState = .draining then { s with drainState := .drained } else s

/-- Count a response of the packet's burst helper: the helpers, and whether the packet from
outside is served completely. -/
def countBurst (helpers : List BurstHelper) (helper : Option Nat) : List BurstHelper × Bool :=
  match helper with
  | none => (helpers, true)
  | some h =>
    let helpers := helpers.modify h fun b => { b with burstsServiced := b.burstsServiced + 1 }
    match helpers[h]? with
    | some b => (helpers, b.burstsServiced == b.burstCount)
    | none => (helpers, false)

/-- Respond to the packet from outside once all its bursts are there. -/
def sendResponse (s : DRAMCtrl p) (d : DRAMPacket p) : DRAMCtrl p :=
  let (helpers, done) := countBurst s.burstHelpers d.burstHelper
  let s := { s with burstHelpers := helpers }
  if done then s.accessAndRespond d.pkt (add64 p.frontendLatency p.backendLatency) else s

/-- Schedule the response after the one just sent, or finish draining. -/
def nextResponse (s : DRAMCtrl p) : Except Failure (DRAMCtrl p) :=
  match s.respQueue with
  | e :: _ => do
    ensure (s.curTick ≤ e.readyTime ∧ s.respondEvent = none) .respondNext
    .ok { s with respondEvent := some e.readyTime }
  | [] => .ok (if s.drainState = .draining ∧ s.writeQueue = [] ∧ s.readQueue = [] then
      s.signalDrainDone else s)

/-- `DRAMCtrl::processRespondEvent`. -/
def processRespondEvent (s : DRAMCtrl p) : Except Failure (DRAMCtrl p) :=
  match s.respQueue with
  | [] => .error .queueEmpty
  | d :: ds => do
    let s ← { s.sendResponse d with respQueue := ds }.nextResponse
    .ok { s with retryRdReq := false }

/-- `DRAMCtrl::drain`, called with the drain state set to draining. -/
def drain (s : DRAMCtrl p) : DRAMCtrl p :=
  if s.writeQueue = [] ∧ s.readQueue = [] ∧ s.respQueue = [] then { s with drainState := .drained }
  else
    let s := { s with drainState := .draining }
    if s.writeQueue ≠ [] then s.scheduleNextReq s.curTick else s

/-! ### The request loop -/

def busyRanks (c : Channel p) : Nat :=
  (List.finRange p.ranksPerChannel).countP fun r => !(c.ranks r).isAvailable

/-- Let the ranks that are busy refreshing know that requests have drained. -/
def checkDrains (s : DRAMCtrl p) : DRAMCtrl p :=
  { s with channel := { s.channel with ranks := fun r =>
      if (s.channel.ranks r).isAvailable then s.channel.ranks r
      else (s.channel.ranks r).checkDrainDone s.curTick } }

/-- Finish a pending bus turnaround. The flag is `switched_cmd_type`. -/
def switchBus (s : DRAMCtrl p) : DRAMCtrl p × Bool :=
  match s.busState with
  | .readToWrite =>
    ({ s with busState := .write, channel := { s.channel with readsThisTime := 0 } }, true)
  | .writeToRead =>
    ({ s with busState := .read, channel := { s.channel with writesThisTime := 0 } }, true)
  | .read => (s, false)
  | .write => (s, false)

/-- A bubble on the data bus, when the command type changed and the rank did not. -/
def addBubble (c : Channel p) (switched : Bool) (d : DRAMPacket p) (bubble : Nat) : Channel p :=
  if switched ∧ d.rank.val = c.activeRank then c.advanceBus bubble else c

/-- Have the response event scheduled before `d` joins the response queue. -/
def scheduleResponse (s : DRAMCtrl p) (d : DRAMPacket p) : Except Failure (DRAMCtrl p) :=
  match s.respQueue.getLast? with
  | none => do
    ensure (s.respondEvent = none) .respondScheduled
    .ok { s with respondEvent := some d.readyTime }
  | some e => do
    ensure (e.readyTime ≤ d.readyTime) .respondOrder
    ensure (s.respondEvent ≠ none) .respondScheduled
    .ok s

/-- Insert a read into the response queue. -/
def pushResponse (s : DRAMCtrl p) (d : DRAMPacket p) : Except Failure (DRAMCtrl p) := do
  ensure (d.size ≤ p.burstSize) .packetSize
  ensure (s.curTick ≤ d.readyTime) .readyInPast
  let s ← s.scheduleResponse d
  .ok { s with respQueue := s.respQueue ++ [d] }

/-- Serve the read at the head of `queue`. -/
def serveRead (s : DRAMCtrl p) (switched : Bool) (d : DRAMPacket p) (rest : List (DRAMPacket p)) :
    Except Failure (DRAMCtrl p) := do
  ensure (s.channel.available d) .rankBusy
  let (served, channel) ←
    (addBubble s.channel switched d (add64 p.tWTR p.tCL)).doDRAMAccess s.curTick d rest
  let s := { s with channel := channel, readQueue := rest, issued := s.issued ++ [d] }
  let s ← s.pushResponse served
  .ok (if p.writeHighThreshold < s.writeQueue.length ∨ 0 < s.channel.pendingRowOps then
    { s with busState := .readToWrite } else s)

/-- The read branch of `processNextReqEvent`. The flag tells whether the function goes on to
schedule the next request. -/
def readBranch (s : DRAMCtrl p) (switched : Bool) : Except Failure (DRAMCtrl p × Bool) :=
  if s.readQueue = [] then
    if s.writeQueue ≠ [] ∧ (s.drainState = .draining ∨ p.writeLowThreshold < s.writeQueue.length ∨
        0 < s.channel.pendingRowOps) then
      .ok ({ s with busState := .readToWrite }, true)
    else
      .ok (if s.drainState = .draining ∧ s.respQueue = [] then s.signalDrainDone else s, false)
  else do
    let (found, queue) ← s.channel.chooseNext s.curTick s.readQueue (if switched then p.tCS else 0)
    if found then
      match queue with
      | [] => .error .queueEmpty
      | d :: rest => do
        let s ← s.serveRead switched d rest
        .ok (s, true)
    else .ok ({ s with readQueue := queue }, false)

/-- Whether the bus turns back to reads after a write. -/
def turnsToReads (s : DRAMCtrl p) : Bool :=
  decide (s.channel.pendingRowOps = 0 ∧ (s.writeQueue = [] ∨
    (s.writeQueue.length + p.minWritesPerSwitch < p.writeLowThreshold ∧ s.drainState ≠ .draining) ∨
    (s.readQueue ≠ [] ∧ p.minWritesPerSwitch ≤ s.channel.writesThisTime)))

/-- Serve the write or row operation at the head of `queue`. -/
def serveWrite (s : DRAMCtrl p) (switched : Bool) (d : DRAMPacket p) (rest : List (DRAMPacket p)) :
    Except Failure (DRAMCtrl p) := do
  ensure (s.channel.available d) .rankBusy
  ensure (d.size ≤ p.burstSize) .packetSize
  let (_, channel) ← (addBubble s.channel switched d p.tRTW).doDRAMAccess s.curTick d rest
  let s := { s with
    channel := channel
    writeQueue := rest
    isInWriteQueue := s.isInWriteQueue.erase (p.burstAlign d.addr)
    issued := s.issued ++ [d] }
  .ok (if s.turnsToReads then { s with busState := .writeToRead } else s)

/-- The write branch of `processNextReqEvent`. -/
def writeBranch (s : DRAMCtrl p) (switched : Bool) : Except Failure (DRAMCtrl p × Bool) := do
  let (found, queue) ← s.channel.chooseNext s.curTick s.writeQueue
    (if switched then min p.tRTW p.tCS else 0)
  if found then
    match queue with
    | [] => .error .queueEmpty
    | d :: rest => do
      let s ← s.serveWrite switched d rest
      .ok (s, true)
  else .ok ({ s with writeQueue := queue }, false)

/-- The end of `processNextReqEvent`: schedule the next request and let a waiting write retry. -/
def finishNextReq (s : DRAMCtrl p) : DRAMCtrl p :=
  let s := s.scheduleNextReq (max s.channel.nextReqTime s.curTick)
  if s.retryWrReq ∧ s.writeQueue.length < p.writeBufferSize then { s with retryWrReq := false } else s

def serveRequest (s : DRAMCtrl p) (switched : Bool) : Except Failure (DRAMCtrl p × Bool) :=
  if s.busState = .read then s.readBranch switched else s.writeBranch switched

/-- `DRAMCtrl::processNextReqEvent`. -/
def processNextReqEvent (s : DRAMCtrl p) : Except Failure (DRAMCtrl p) :=
  let busy := busyRanks s.channel
  let s := s.checkDrains
  if busy = p.ranksPerChannel then .ok s
  else do
    let (s, switched) := s.switchBus
    let (s, goesOn) ← s.serveRequest switched
    .ok (if goesOn then s.finishNextReq else s)

/-! ### The machine -/

inductive Event (p : Params) where
  | recvTimingReq (pkt : Packet)
  | nextReq
  | respond
  | activate (r : Fin p.ranksPerChannel)
  | precharge (r : Fin p.ranksPerChannel)
  | refresh (r : Fin p.ranksPerChannel)
  | power (r : Fin p.ranksPerChannel)
  | drain
  | drainResume

def setRank (s : DRAMCtrl p) (r : Fin p.ranksPerChannel) (rk : Rank p) : DRAMCtrl p :=
  { s with channel := s.channel.setRank r rk }

/-- A refresh of rank `r` has to wait for the request being handled. -/
def awaitsDrain (s : DRAMCtrl p) (r : Fin p.ranksPerChannel) : Bool :=
  decide (r.val % 256 = s.channel.activeRank ∧ s.nextReqEvent ≠ none)

/-- Handle an event that happens at the current tick. -/
def handle (s : DRAMCtrl p) : Event p → Except Failure (DRAMCtrl p)
  | .recvTimingReq pkt => do
    let (s, _) ← s.recvTimingReq pkt
    .ok s
  | .nextReq => do
    ensure (s.nextReqEvent = some s.curTick) .notEnabled
    { s with nextReqEvent := none }.processNextReqEvent
  | .respond => do
    ensure (s.respondEvent = some s.curTick) .notEnabled
    { s with respondEvent := none }.processRespondEvent
  | .activate r => do
    let rk := s.channel.ranks r
    ensure (rk.activateEvent = some s.curTick) .notEnabled
    let rk ← { rk with activateEvent := none }.processActivateEvent s.curTick
    .ok (s.setRank r rk)
  | .precharge r => do
    let rk := s.channel.ranks r
    ensure (rk.prechargeEvent = some s.curTick) .notEnabled
    let rk ← { rk with prechargeEvent := none }.processPrechargeEvent s.curTick
    .ok (s.setRank r rk)
  | .refresh r => do
    let rk := s.channel.ranks r
    ensure (rk.refreshEvent = some s.curTick) .notEnabled
    let rk ← { rk with refreshEvent := none }.processRefreshEvent s.channel.timeStampOffset s.curTick
      (s.awaitsDrain r)
    .ok (s.setRank r rk)
  | .power r => do
    let rk := s.channel.ranks r
    ensure (rk.powerEvent = some s.curTick) .notEnabled
    let (rk, kick) ← { rk with powerEvent := none }.processPowerEvent s.channel.timeStampOffset s.curTick
    let s := s.setRank r rk
    .ok (if kick then s.scheduleNextReq s.curTick else s)
  | .drain => .ok s.drain
  | .drainResume => do
    ensure (s.drainState = .drained) .notEnabled
    .ok { s with drainState := .running }

/-- One event at the tick it happens. Time does not go back. -/
def step (s : DRAMCtrl p) (e : Nat × Event p) : Except Failure (DRAMCtrl p) := do
  ensure (s.curTick ≤ e.1) .notEnabled
  { s with curTick := e.1 }.handle e.2

/-- The state after a list of events, from `startup` at tick `now`. -/
def run (p : Params) (now : Nat) (es : List (Nat × Event p)) : Except Failure (DRAMCtrl p) :=
  runFrom step (startup p now) es

end DRAMCtrl

end MimdramLean

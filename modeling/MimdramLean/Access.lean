import MimdramLean.Device

/-!
# DRAM accesses

`DRAMCtrl::DRAMPacket` and `DRAMCtrl::doDRAMAccess`. `Channel` is the part of the controller that
`doDRAMAccess` reads and writes: the ranks, the data bus and three counters. Row-hit and latency
statistics are left out.
-/

namespace MimdramLean

open Library

/-- What a packet from outside asks for. -/
inductive PacketKind where
  | readReq (addr size : Nat)
  | writeReq (addr size : Nat)
  /-- `mainReq->setPaddr(0)` and the payload as data -/
  | rowOpReq (payload : RowOpPayload)
  | cleanEvict (addr size : Nat)
  /-- neither read nor write -/
  | other (addr size : Nat)
  deriving DecidableEq, Repr

structure Packet where
  id : Nat
  kind : PacketKind
  memInhibit : Bool
  deriving DecidableEq, Repr

namespace Packet

def getAddr (pkt : Packet) : Nat :=
  match pkt.kind with
  | .readReq addr _ => addr
  | .writeReq addr _ => addr
  | .rowOpReq _ => 0
  | .cleanEvict addr _ => addr
  | .other addr _ => addr

def getSize (pkt : Packet) : Nat :=
  match pkt.kind with
  | .readReq _ size => size
  | .writeReq _ size => size
  | .rowOpReq _ => RowOpPayload.sizeOf
  | .cleanEvict _ size => size
  | .other _ size => size

end Packet

structure DRAMPacket (p : Params) where
  entryTime : Nat
  readyTime : Nat
  pkt : Packet
  isRead : Bool
  rank : Fin p.ranksPerChannel
  bank : Fin p.banksPerRank
  row : Fin Row.noRow
  src1Row : Nat
  src2Row : Nat
  /-- `is_row_op` and `row_op` -/
  rowOp : Option RowOp
  addr : Nat
  size : Nat
  /-- index of the burst helper of a split packet -/
  burstHelper : Option Nat

namespace DRAMPacket

variable {p : Params}

def isRowOp (d : DRAMPacket p) : Bool := d.rowOp.isSome

def bankId (d : DRAMPacket p) : Nat := (p.banksPerRank * d.rank.val + d.bank.val) % 2 ^ 16

/-- The packet that `decodeAddr` creates. -/
def create (now : Nat) (pkt : Packet) (isRead : Bool) (loc : Location p) (addr size : Nat) :
    DRAMPacket p where
  entryTime := now
  readyTime := now
  pkt := pkt
  isRead := isRead
  rank := loc.rank
  bank := loc.bank
  row := loc.row
  src1Row := 0
  src2Row := 0
  rowOp := none
  addr := addr
  size := size
  burstHelper := none

end DRAMPacket

structure Channel (p : Params) where
  ranks : Fin p.ranksPerChannel → Rank p
  busBusyUntil : Nat
  nextReqTime : Nat
  activeRank : Nat
  pendingRowOps : Int
  writesThisTime : Nat
  readsThisTime : Nat
  timeStampOffset : Nat

namespace Channel

variable {p : Params}

/-- The channel after construction and `DRAMCtrl::startup` in timing mode at tick `now`. -/
def startup (p : Params) (now : Nat) : Channel p where
  ranks := fun _ => { Rank.init p with refreshEvent := some (sub64 (add64 now p.tREFI) p.tRP) }
  busBusyUntil := add64 (add64 (add64 now p.tRP) p.tRCD) p.tCL
  nextReqTime := 0
  activeRank := 0
  pendingRowOps := 0
  writesThisTime := 0
  readsThisTime := 0
  timeStampOffset := divCeil now p.tCK

def setRank (c : Channel p) (r : Fin p.ranksPerChannel) (rk : Rank p) : Channel p :=
  { c with ranks := Function.update c.ranks r rk }

def bank (c : Channel p) (d : DRAMPacket p) : Bank := (c.ranks d.rank).banks d.bank

/-- The update of the times after an access of either kind. -/
def setBusy (c : Channel p) (d : DRAMPacket p) (readyTime : Nat) : Channel p :=
  { c with
    activeRank := d.rank.val
    busBusyUntil := readyTime
    nextReqTime := sub64 readyTime (add64 (add64 p.tRP p.tRCD) p.tCL) }

/-- The row-operation branch of `doDRAMAccess`. -/
def doRowOp (c : Channel p) (now : Nat) (d : DRAMPacket p) (op : RowOp) :
    Except Failure (DRAMPacket p × Channel p) := do
  let cmdAt := max (c.bank d).colAllowedAt now
  let rk ← (c.ranks d.rank).closeBank c.timeStampOffset d.bank now
  let (rk, cmdAt) ← rk.issueAll c.timeStampOffset d.bank
    (max cmdAt (rk.banks d.bank).actAllowedAt) (rowOpCommands op d.row.val d.src1Row d.src2Row)
  let readyTime := add64 cmdAt p.tCL
  let c := (c.setRank d.rank rk).setBusy d readyTime
  .ok ({ d with readyTime := readyTime }, { c with pendingRowOps := c.pendingRowOps - 1 })

/-- Open the row of an ordinary access unless it is open: the rank, and the earliest tick of the
column command. -/
def openRow (c : Channel p) (now : Nat) (d : DRAMPacket p) : Except Failure (Rank p × Nat) :=
  if (c.bank d).openRow = d.row.val then
    .ok (c.ranks d.rank, max (c.bank d).colAllowedAt now)
  else do
    let rk ← (c.ranks d.rank).closeBank c.timeStampOffset d.bank now
    let actTick := max (rk.banks d.bank).actAllowedAt now
    let rk ← rk.activateBank c.timeStampOffset d.bank actTick d.row.val
    .ok (rk, (rk.banks d.bank).colAllowedAt)

/-- `cmd_dly`: the delay from a column command of `d` to one of bank `i` of rank `j`. -/
def colDelay (d : DRAMPacket p) (j : Fin p.ranksPerChannel) (i : Fin p.banksPerRank) : Nat :=
  if d.rank = j then
    if p.bankGroupArch && p.bankgr d.bank == p.bankgr i then p.tCCDL else p.tBURST
  else add64 p.tBURST p.tCS

/-- Push back the next column command of every bank of the channel. -/
def holdCols (c : Channel p) (d : DRAMPacket p) (cmdAt : Nat) : Channel p :=
  { c with ranks := fun j => { c.ranks j with banks := fun i => { (c.ranks j).banks i with
      colAllowedAt := max (add64 cmdAt (colDelay d j i)) ((c.ranks j).banks i).colAllowedAt } } }

/-- The search of the adaptive page policies: more hits in the queue, and bank conflicts seen
before the first hit. -/
def pageHits (d : DRAMPacket p) : List (DRAMPacket p) → Bool → Bool → Bool × Bool
  | [], hits, conflict => (hits, conflict)
  | q :: qs, hits, conflict =>
    if hits then (hits, conflict)
    else
      let sameRankBank := d.rank = q.rank ∧ d.bank = q.bank
      let sameRow := d.row = q.row
      pageHits d qs (hits || decide (sameRankBank ∧ sameRow))
        (conflict || decide (sameRankBank ∧ ¬sameRow))

/-- Whether an access closes its row. `rest` is the packet's own queue without the packet. -/
def autoPrecharge (d : DRAMPacket p) (rowAccesses : Nat) (rest : List (DRAMPacket p)) : Bool :=
  if p.pageMgmt = .close ∨ rowAccesses = p.maxAccessesPerRow then true
  else if p.pageMgmt = .openAdaptive ∨ p.pageMgmt = .closeAdaptive then
    let (hits, conflict) := pageHits d rest false false
    !hits && (conflict || p.pageMgmt == .closeAdaptive)
  else false

/-- What an ordinary access does to its own bank after the column command at `cmdAt`. -/
def finishBank (bank : Bank) (d : DRAMPacket p) (cmdAt readyTime : Nat) : Bank :=
  { bank with
    preAllowedAt := max bank.preAllowedAt (if d.isRead then add64 cmdAt p.tRTP else add64 readyTime p.tWR)
    rowAccesses := (bank.rowAccesses + 1) % 2 ^ 32 }

/-- Close the row of an access that precharges automatically. -/
def closeRow (rk : Rank p) (off now : Nat) (d : DRAMPacket p) (rest : List (DRAMPacket p)) :
    Except Failure (Rank p) :=
  if autoPrecharge d (rk.banks d.bank).rowAccesses rest then
    rk.prechargeBank off d.bank (max now (rk.banks d.bank).preAllowedAt) true
  else .ok rk

def countAccess (c : Channel p) (d : DRAMPacket p) : Channel p :=
  if d.isRead then { c with readsThisTime := c.readsThisTime + 1 }
  else { c with writesThisTime := c.writesThisTime + 1 }

/-- The branch of `doDRAMAccess` for reads and writes. -/
def doBurst (c : Channel p) (now : Nat) (d : DRAMPacket p) (rest : List (DRAMPacket p)) :
    Except Failure (DRAMPacket p × Channel p) := do
  let (rk, cmdAt) ← c.openRow now d
  let cmdAt := max cmdAt (sub64 c.busBusyUntil p.tCL)
  let readyTime := add64 (add64 cmdAt p.tCL) p.tBURST
  ensure (p.tBURST ≤ sub64 readyTime c.busBusyUntil) .busOverlap
  let c := (c.setRank d.rank (rk.record (.col d.bank d.row.val cmdAt))).holdCols d cmdAt
  let rk := (c.ranks d.rank).setBank d.bank (finishBank (c.bank d) d cmdAt readyTime)
  let rk ← closeRow rk c.timeStampOffset now d rest
  let rk := rk.doCommand c.timeStampOffset (if d.isRead then .rd else .wr) d.bank cmdAt
  .ok ({ d with readyTime := readyTime },
    ((c.setRank d.rank rk).setBusy d readyTime).countAccess d)

/-- A turnaround bubble on the data bus. -/
def advanceBus (c : Channel p) (bubble : Nat) : Channel p :=
  { c with busBusyUntil := add64 c.busBusyUntil bubble }

/-- `DRAMCtrl::doDRAMAccess`. `rest` is the queue the packet heads, without the packet. -/
def doDRAMAccess (c : Channel p) (now : Nat) (d : DRAMPacket p) (rest : List (DRAMPacket p)) :
    Except Failure (DRAMPacket p × Channel p) :=
  match d.rowOp with
  | some op => c.doRowOp now d op
  | none => c.doBurst now d rest

end Channel

/-! ### Sequences of accesses -/

/-- A call of `doDRAMAccess` as `processNextReqEvent` makes it: at tick `now`, after a turnaround
bubble on the data bus. -/
structure Call (p : Params) where
  now : Nat
  bubble : Nat
  pkt : DRAMPacket p
  rest : List (DRAMPacket p)

/-- The channel, and the packets served so far with their ready times. -/
structure Calls (p : Params) where
  channel : Channel p
  served : List (DRAMPacket p)

namespace Calls

variable {p : Params}

def startup (p : Params) (now : Nat) : Calls p := ⟨Channel.startup p now, []⟩

def access (s : Calls p) (a : Call p) : Except Failure (Calls p) := do
  let (d, channel) ← (s.channel.advanceBus a.bubble).doDRAMAccess a.now a.pkt a.rest
  .ok ⟨channel, s.served ++ [d]⟩

end Calls

end MimdramLean

import MimdramLean.LSQ

/-!
# The search of the store queue

A load on its way to the cache: `BaseDynInst::readMem` with the split of its request and their
translation, and `LSQUnit::read`, which looks through the older stores first. The store queue is
circular. The side effects of a locked load and the deletion of requests are left out.
-/

namespace MimdramLean

open Library

/-! ### The requests of a load -/

namespace RequestFlag

def mmappedIpr : Nat := 0x2000

end RequestFlag

namespace Request

def isUncacheable (req : Request) : Bool := req.flags &&& RequestFlag.uncacheable != 0

def isMmappedIpr (req : Request) : Bool := req.flags &&& RequestFlag.mmappedIpr != 0

/-- `Request::splitOnVaddr`. -/
def splitOnVaddr (req : Request) (splitAddr : Nat) : Request × Request :=
  let low := { req with size := splitAddr - req.vaddr }
  (low, { req with vaddr := splitAddr, size := req.size - low.size })

/-- `BaseDynInst::splitRequest`: two requests if the access spans two blocks. -/
def split (blockSize : Nat) (req : Request) : Option (Request × Request) :=
  let splitAddr := sub64 (add64 req.vaddr req.size) 1 / blockSize * blockSize
  if req.vaddr < splitAddr then some (req.splitOnVaddr splitAddr) else none

end Request

namespace WholeTranslationState

variable {F : Type}

/-- The constructor for one request. -/
def ofSingle (req : Request) : WholeTranslationState F where
  outstanding := 1
  faults := fun _ => none
  isSplit := false
  isRowOp := false
  mainReq := req
  sreqLow := none
  sreqHigh := none
  sreq := fun _ => none
  data := ⟨.rowAnd, 0, 0, 0⟩

/-- The constructor for a split request. -/
def ofSplit (req low high : Request) : WholeTranslationState F :=
  { ofSingle req with outstanding := 2, isSplit := true, sreqLow := some low, sreqHigh := some high }

/-- The TLB answers for the only request, with index 0. -/
def answerMain (st : WholeTranslationState F) (a : Answer F) :
    Except TranslationFailure (WholeTranslationState F × Bool) :=
  { st with mainReq := translated st.mainReq a }.finish (faultOf a) Operand.dest.index

/-- The TLB answers for the low fragment, with index 0. -/
def answerLow (st : WholeTranslationState F) (a : Answer F) :
    Except TranslationFailure (WholeTranslationState F × Bool) :=
  { st with sreqLow := st.sreqLow.map (translated · a) }.finish (faultOf a) Operand.dest.index

/-- The TLB answers for the high fragment, with index 1. -/
def answerHigh (st : WholeTranslationState F) (a : Answer F) :
    Except TranslationFailure (WholeTranslationState F × Bool) :=
  { st with sreqHigh := st.sreqHigh.map (translated · a) }.finish (faultOf a) Operand.src1.index

/-- Both fragments, in the order in which their page walks end. -/
def answerBoth (st : WholeTranslationState F) (low high : Answer F) (highFirst : Bool) :
    Except TranslationFailure (WholeTranslationState F × Bool) := do
  if highFirst then
    let (st, _) ← st.answerHigh high
    st.answerLow low
  else
    let (st, _) ← st.answerLow low
    st.answerHigh high

end WholeTranslationState

/-- What `readMem` passes to `cpu->read`. -/
structure LoadRequests where
  req : Request
  /-- `sreqLow` and `sreqHigh` -/
  sreqs : Option (Request × Request)

/-- A load and how the TLB translates it: address and flags for the low fragment or the whole,
and for the high fragment. -/
structure LoadEnv where
  blockSize : Nat
  low : Nat × Nat
  high : Nat × Nat
  highFirst : Bool

/-- `BaseDynInst::readMem` up to the call of `cpu->read`, for a load without faults. -/
def LoadRequests.readMem (env : LoadEnv) (addr size flags : Nat) :
    Except TranslationFailure LoadRequests := do
  let req : Request := ⟨addr, size, none, flags⟩
  match req.split env.blockSize with
  | none =>
    let (st, _) ← (WholeTranslationState.ofSingle req : WholeTranslationState Unit).answerMain (.ok env.low)
    .ok ⟨st.mainReq, none⟩
  | some (low, high) =>
    let (st, _) ← (WholeTranslationState.ofSplit req low high : WholeTranslationState Unit).answerBoth
      (.ok env.low) (.ok env.high) env.highFirst
    match st.sreqLow, st.sreqHigh with
    | some low, some high => .ok ⟨st.mainReq, some (low, high)⟩
    | _, _ => .error .nullRequest

/-! ### The store queue -/

/-- `SQEntry` with the instruction's fields. The size is 0 until `write` fills the entry in; a row
operation is then a store of its payload at address 0. -/
structure SQEntry where
  seqNum : Nat
  effAddr : Nat
  effAddrValid : Bool
  strictlyOrdered : Bool
  size : Nat
  /-- the payload if `req->isRowOp()` -/
  rowOp : Option RowOpPayload
  isAllZeros : Bool
  completed : Bool
  executed : size ≠ 0 → effAddrValid = true
  ofRowOp : rowOp.isSome = true → size ≠ 0 → effAddr = 0 ∧ size = RowOpPayload.sizeOf
  deriving DecidableEq

/-- The load that waits for a store: `stallingStoreIsn`, `stallingLoadIdx` and the load's number. -/
structure Stall where
  storeIsn : Nat
  loadIdx : Nat
  loadSeqNum : Nat
  deriving DecidableEq, Repr

structure StoreQueue (n : Nat) where
  storeQueue : Fin n → SQEntry
  storeWBIdx : Fin n
  /-- `stalled` -/
  stall : Option Stall

/-- What `read` knows of the load instruction. -/
structure ReadInst (n : Nat) where
  seqNum : Nat
  loadIdx : Nat
  /-- the store queue's tail when the load was inserted -/
  sqIdx : Fin n
  /-- `load_idx == loadHead` -/
  atHead : Bool
  atCommit : Bool

inductive ReadFailure where
  | noPaddr
  | effAddrInvalid
  /-- the panic "Should not check one of these" -/
  | storeCompleted
  deriving DecidableEq, Repr

inductive ReadResult (n : Nat) where
  /-- the load is rescheduled until it is next to commit -/
  | strictlyOrdered
  | ipr
  /-- data of a store: from an offset on, or zeros -/
  | forwarded (idx : Fin n) (shiftAmt : Option Int)
  | rescheduled (stall : Option Stall)
  /-- the packets handed to the cache, and whether it refused one -/
  | access (pkts : List (Nat × Nat)) (blocked : Bool)
  deriving DecidableEq

/-- The four comparisons of a load with a store. -/
structure Overlap where
  storeHasLowerLimit : Bool
  storeHasUpperLimit : Bool
  lowerLoadHasStorePart : Bool
  upperLoadHasStorePart : Bool
  deriving DecidableEq, Repr

namespace Overlap

/-- By virtual addresses. -/
def ofStore (req : Request) (st : SQEntry) : Overlap where
  storeHasLowerLimit := decide (st.effAddr ≤ req.vaddr)
  storeHasUpperLimit := decide (add64 req.vaddr req.size ≤ add64 st.effAddr st.size)
  lowerLoadHasStorePart := decide (req.vaddr < add64 st.effAddr st.size)
  upperLoadHasStorePart := decide (st.effAddr < add64 req.vaddr req.size)

/-- What a row operation that the load overlaps with pretends to be. -/
def pretended : Overlap := ⟨true, false, true, false⟩

/-- The load's bytes from its physical address on meet the destination row. -/
def meetsRow (paddr size : Nat) (addrs : RowOpPayload) : Bool :=
  decide (addrs.dest < add64 paddr size ∧ paddr < add64 addrs.dest rowSize)

def of (req : Request) (paddr : Nat) (st : SQEntry) : Overlap :=
  match st.rowOp with
  | some addrs => if meetsRow paddr req.size addrs then pretended else ofStore req st
  | none => ofStore req st

def isFull (o : Overlap) : Bool := o.storeHasLowerLimit && o.storeHasUpperLimit

def isPartial (o : Overlap) : Bool :=
  o.storeHasLowerLimit && o.lowerLoadHasStorePart || o.storeHasUpperLimit && o.upperLoadHasStorePart ||
    o.lowerLoadHasStorePart && o.upperLoadHasStorePart

end Overlap

namespace StoreQueue

variable {n : Nat}

/-- The indices that `while (store_idx != storeWBIdx) { --store_idx … }` visits, youngest store
first. -/
def olderIndices (q : StoreQueue n) (sqIdx : Fin n) : List (Fin n) :=
  (List.range (LSQUnit.distance q.storeWBIdx sqIdx)).map fun k =>
    ⟨(sqIdx.val + n - 1 - k) % n, Nat.mod_lt _ sqIdx.pos⟩

/-- Stall the load unless an older one is stalled already. -/
def stallOn (q : StoreQueue n) (inst : ReadInst n) (st : SQEntry) : Option Stall :=
  if q.stall.all fun s => decide (inst.seqNum < s.loadSeqNum) then
    some ⟨st.seqNum, inst.loadIdx, inst.seqNum⟩
  else q.stall

/-- `int shift_amt = req->getVaddr() - effAddr`. -/
def shiftAmt (req : Request) (st : SQEntry) : Int :=
  Int.bmod (sub64 req.vaddr st.effAddr : Nat) (2 ^ 32)

/-- The loop over the older stores; no result if none of them stops it. -/
def search (q : StoreQueue n) (inst : ReadInst n) (req : Request) (paddr : Nat) :
    List (Fin n) → Except ReadFailure (Option (ReadResult n))
  | [] => .ok none
  | idx :: rest =>
    let st := q.storeQueue idx
    if st.size = 0 ∨ st.strictlyOrdered = true then q.search inst req paddr rest
    else do
      ensure (st.effAddrValid = true) .effAddrInvalid
      let o := Overlap.of req paddr st
      if o.isFull then
        .ok (some (.forwarded idx (if st.isAllZeros then none else some (shiftAmt req st))))
      else if o.isPartial then do
        ensure (st.completed = false) .storeCompleted
        .ok (some (.rescheduled (q.stallOn inst st)))
      else q.search inst req paddr rest

/-- The packets that go to the cache, where `accepts` are the answers of the port. -/
def sendLoad (reqs : LoadRequests) (paddr : Nat) (accepts : Fin 2 → Bool) :
    Except ReadFailure (ReadResult n) :=
  match reqs.sreqs with
  | none => .ok (.access [(paddr, reqs.req.size)] (!accepts 0))
  | some (low, high) =>
    match low.paddr, high.paddr with
    | some paddrLow, some paddrHigh =>
      if accepts 0 then .ok (.access [(paddrLow, low.size), (paddrHigh, high.size)] (!accepts 1))
      else .ok (.access [(paddrLow, low.size)] true)
    | _, _ => .error .noPaddr

/-- What comes after the loop. -/
def conclude (reqs : LoadRequests) (paddr : Nat) (accepts : Fin 2 → Bool) :
    Option (ReadResult n) → Except ReadFailure (ReadResult n)
  | some result => .ok result
  | none => sendLoad reqs paddr accepts

/-- `LSQUnit::read`. -/
def read (q : StoreQueue n) (inst : ReadInst n) (reqs : LoadRequests) (accepts : Fin 2 → Bool) :
    Except ReadFailure (ReadResult n) :=
  if reqs.req.isStrictlyOrdered && (!inst.atHead || !inst.atCommit) then .ok .strictlyOrdered
  else if reqs.req.isMmappedIpr then .ok .ipr
  else
    match reqs.req.paddr with
    | none => .error .noPaddr
    | some paddr => q.search inst reqs.req paddr (q.olderIndices inst.sqIdx) >>= conclude reqs paddr accepts

end StoreQueue

end MimdramLean

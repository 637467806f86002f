import MimdramLean.Library.Machine
import MimdramLean.RowOps
import Mathlib.Data.Finset.Basic
import Mathlib.Data.Fintype.Basic
import Mathlib.Logic.Function.Basic

/-!
# Address translation of a row operation

`WholeTranslationState`, `Request::splitRowOp`, and the two places that wait for a translation: the
store path of an out-of-order instruction (`BaseDynInst::writeMem`, `finishTranslation`) and
`TimingSimpleCPU::finishTranslation`. Faults are of an arbitrary type, `NoFault` is `none`. The TLB is
a parameter: its answer to the request of each operand, a function of the request's virtual address, and
whether a page walk delays it. The requests are answered at different times, so the function may be
another one for each operand.
-/

namespace MimdramLean

open Library

inductive Operand where
  | dest
  | src1
  | src2
  deriving DecidableEq, Repr

instance : Fintype Operand := ⟨{.dest, .src1, .src2}, fun o => by cases o <;> decide⟩

/-- The index of an operand's `DataTranslation`. -/
def Operand.index : Operand → Fin 3
  | .dest => 0
  | .src1 => 1
  | .src2 => 2

namespace RowOpPayload

def get (addrs : RowOpPayload) : Operand → Nat
  | .dest => addrs.dest
  | .src1 => addrs.src1
  | .src2 => addrs.src2

def set (addrs : RowOpPayload) (o : Operand) (addr : Nat) : RowOpPayload :=
  match o with
  | .dest => { addrs with dest := addr }
  | .src1 => { addrs with src1 := addr }
  | .src2 => { addrs with src2 := addr }

/-- Round the operands down to rows. -/
def rowAlign (addrs : RowOpPayload) : RowOpPayload where
  op := addrs.op
  dest := addrs.dest / rowSize * rowSize
  src1 := addrs.src1 / rowSize * rowSize
  src2 := addrs.src2 / rowSize * rowSize

end RowOpPayload

/-- The operands for which `splitRowOp` makes a request. -/
def RowOp.uses (op : RowOp) : Operand → Bool
  | .dest => true
  | .src1 => op != .rowAp
  | .src2 => !(op == .rowNot || op == .rowAp || op == .rowAap)

namespace RequestFlag

def uncacheable : Nat := 0x400
def strictOrder : Nat := 0x800
def prefetchHint : Nat := 0x1000000
def rowOp : Nat := 0x40000000

end RequestFlag

/-- The part of a `Request` that translation works on. -/
structure Request where
  vaddr : Nat
  size : Nat
  paddr : Option Nat
  flags : Nat
  deriving DecidableEq, Repr

/-- Assertions of the translation state. -/
inductive TranslationFailure where
  /-- not a failure of the code: no translation of this operand is under way -/
  | notEnabled
  /-- `finish`: nothing is outstanding -/
  | noneOutstanding
  /-- `getPaddr`: the request has no physical address -/
  | noPaddr
  /-- a request that is not there -/
  | nullRequest
  /-- `executeStore`: a fault although the store queue has data -/
  | storeFault
  deriving DecidableEq, Repr

namespace Request

def getPaddr (req : Request) : Except TranslationFailure Nat :=
  match req.paddr with
  | some paddr => .ok paddr
  | none => .error .noPaddr

def setFlags (req : Request) (flags : Nat) : Request := { req with flags := req.flags ||| flags }

def isStrictlyOrdered (req : Request) : Bool := req.flags &&& RequestFlag.strictOrder != 0

def isPrefetch (req : Request) : Bool := req.flags &&& RequestFlag.prefetchHint != 0

/-- `Request::splitRowOp`: a request for each operand that the operation uses. -/
def splitRowOp (req : Request) (addrs : RowOpPayload) : Operand → Option Request := fun o =>
  if addrs.op.uses o then some { req with vaddr := addrs.get o } else none

end Request

/-- `sreq` has `sreqDest`, `sreqSrc1` and `sreqSrc2`; `data` is what the pointer of that name points
to when the translation is that of a row operation. -/
structure WholeTranslationState (F : Type) where
  outstanding : Nat
  faults : Fin 3 → Option F
  isSplit : Bool
  isRowOp : Bool
  mainReq : Request
  sreqLow : Option Request
  sreqHigh : Option Request
  sreq : Operand → Option Request
  data : RowOpPayload

namespace WholeTranslationState

variable {F : Type}

/-- The constructor for a row operation. -/
def ofRowOp (req : Request) (sreq : Operand → Option Request) (data : RowOpPayload) :
    WholeTranslationState F where
  outstanding := if (sreq .src1).isNone then 1 else if (sreq .src2).isNone then 2 else 3
  faults := fun _ => none
  isSplit := false
  isRowOp := true
  mainReq := req
  sreqLow := none
  sreqHigh := none
  sreq := sreq
  data := data

/-- Copy the physical address of an operand to the payload unless it faulted, and its flags to the
main request. -/
def copyOperand (st : WholeTranslationState F) (o : Operand) :
    Except TranslationFailure (WholeTranslationState F) :=
  match st.sreq o with
  | none => .ok st
  | some req =>
    if (st.faults o.index).isNone then do
      let paddr ← req.getPaddr
      .ok { st with data := st.data.set o paddr, mainReq := st.mainReq.setFlags req.flags }
    else .ok { st with mainReq := st.mainReq.setFlags req.flags }

/-- The end of a row operation's translation. -/
def copyRowOp (st : WholeTranslationState F) : Except TranslationFailure (WholeTranslationState F) := do
  let st ← st.copyOperand .dest
  let st ← st.copyOperand .src1
  let st ← st.copyOperand .src2
  .ok { st with mainReq := { st.mainReq with paddr := some 0 } }

/-- The end of a split translation. -/
def copySplit (st : WholeTranslationState F) : Except TranslationFailure (WholeTranslationState F) :=
  match st.sreqLow, st.sreqHigh with
  | some low, some high =>
    if (st.faults 0).isNone then do
      let paddr ← low.getPaddr
      .ok { st with mainReq :=
        ({ st.mainReq with paddr := some paddr }.setFlags low.flags).setFlags high.flags }
    else .ok { st with mainReq := (st.mainReq.setFlags low.flags).setFlags high.flags }
  | _, _ => .error .nullRequest

def copySplitWhenDone (st : WholeTranslationState F) :
    Except TranslationFailure (WholeTranslationState F) :=
  if st.isSplit ∧ st.outstanding = 0 then st.copySplit else .ok st

def copyRowOpWhenDone (st : WholeTranslationState F) :
    Except TranslationFailure (WholeTranslationState F) :=
  if st.isRowOp ∧ st.outstanding = 0 then st.copyRowOp else .ok st

/-- `faults[index] = fault; outstanding--`. -/
def note (st : WholeTranslationState F) (fault : Option F) (index : Fin 3) : WholeTranslationState F :=
  { st with
    faults := Function.update st.faults index fault
    outstanding := st.outstanding - 1 }

/-- `WholeTranslationState::finish`. The flag tells whether the whole translation is complete. -/
def finish (st : WholeTranslationState F) (fault : Option F) (index : Fin 3) :
    Except TranslationFailure (WholeTranslationState F × Bool) := do
  ensure (st.outstanding ≠ 0) .noneOutstanding
  let st ← (st.note fault index).copySplitWhenDone
  let st ← st.copyRowOpWhenDone
  .ok (st, st.outstanding == 0)

/-- `WholeTranslationState::getFault`. -/
def getFault (st : WholeTranslationState F) : Option F :=
  if !st.isSplit then st.faults 0
  else (st.faults 0).or ((st.faults 1).or (st.faults 2))

/-- An answer of the TLB: a fault, or a physical address and flags to set. -/
abbrev Answer (F : Type) := Except F (Nat × Nat)

def faultOf : Answer F → Option F
  | .ok _ => none
  | .error fault => some fault

/-- What the TLB does to the request it translates. -/
def translated (req : Request) : Answer F → Request
  | .ok (paddr, flags) => { req.setFlags flags with paddr := some paddr }
  | .error _ => req

def setRequest (st : WholeTranslationState F) (o : Operand) (req : Request) : WholeTranslationState F :=
  { st with sreq := Function.update st.sreq o (some req) }

/-- The TLB translates the virtual address of an operand's request, and calls `finish`. -/
def answer (st : WholeTranslationState F) (o : Operand) (tlb : Nat → Answer F) :
    Except TranslationFailure (WholeTranslationState F × Bool) :=
  match st.sreq o with
  | none => .error .notEnabled
  | some req =>
    let a := tlb req.vaddr
    (st.setRequest o (translated req a)).finish (faultOf a) o.index

end WholeTranslationState

/-! ### The in-order CPU -/

/-- What `TimingSimpleCPU::finishTranslation` does. -/
inductive TimingSend (F : Type) where
  | translationFault (fault : Option F)
  | sendData (data : RowOpPayload)
  | sendSplitData

/-- `TimingSimpleCPU::finishTranslation`. -/
def TimingSimpleCPU.finishTranslation {F : Type} (st : WholeTranslationState F) : TimingSend F :=
  match st.getFault with
  | some fault => .translationFault (if st.mainReq.isPrefetch then none else some fault)
  | none => if st.isSplit then .sendSplitData else .sendData st.data

/-! ### The out-of-order CPU -/

/-- A row operation and how the TLB treats it: the operation, its registers, the answer to the request
of each operand by virtual address, and which answers wait for a page walk. -/
structure RowOpEnv (F : Type) where
  op : RowOp
  rdi : Nat
  rsi : Nat
  rdx : Nat
  answer : Operand → Nat → WholeTranslationState.Answer F
  delayed : Operand → Bool

/-- `rowop_data`: the payload that each attempt builds in its own frame. -/
def RowOpEnv.payload {F : Type} (env : RowOpEnv F) : RowOpPayload where
  op := env.op
  dest := env.rdi
  src1 := if env.op.uses .src1 then env.rsi else 0
  src2 := if env.op.uses .src2 then env.rdx else 0

/-- A row operation in flight. `frame` is the payload of the attempt that started the translations,
to which the translation state points; `written` and `storeSize` are the entry of the store queue. -/
structure DynInst (F : Type) where
  fault : Option F
  translationStarted : Bool
  translationCompleted : Bool
  state : Option (WholeTranslationState F)
  walking : Operand → Bool
  savedReq : Option Request
  frame : RowOpPayload
  effAddr : Nat
  effSize : Nat
  effAddrValid : Bool
  strictlyOrdered : Bool
  deferred : Bool
  written : Option RowOpPayload
  storeSize : Nat

namespace DynInst

variable {F : Type}

/-- An instruction that has not been executed. -/
def fetched (F : Type) : DynInst F where
  fault := none
  translationStarted := false
  translationCompleted := false
  state := none
  walking := fun _ => false
  savedReq := none
  frame := ⟨.rowAnd, 0, 0, 0⟩
  effAddr := 0
  effSize := 0
  effAddrValid := false
  strictlyOrdered := false
  deferred := false
  written := none
  storeSize := 0

def isTranslationDelayed (inst : DynInst F) : Bool :=
  inst.translationStarted && !inst.translationCompleted

/-- `BaseDynInst::finishTranslation`. The state is gone; what it wrote to the frame stays. -/
def finishTranslation (inst : DynInst F) (st : WholeTranslationState F) : DynInst F :=
  { inst with
    fault := st.getFault
    strictlyOrdered := st.mainReq.isStrictlyOrdered
    translationCompleted := true
    frame := st.data
    state := none }

/-- `DataTranslation::finish` of an operand. -/
def finishPart (inst : DynInst F) (o : Operand) (tlb : Nat → WholeTranslationState.Answer F) :
    Except TranslationFailure (DynInst F) :=
  match inst.state with
  | none => .error .notEnabled
  | some st => do
    let (st, done) ← st.answer o tlb
    .ok (if done then inst.finishTranslation st else { inst with state := some st })

/-- `TLB::translateTiming` of an operand's request, if it has one. -/
def translateTiming (env : RowOpEnv F) (inst : DynInst F) (o : Operand) :
    Except TranslationFailure (DynInst F) :=
  if env.op.uses o then
    if env.delayed o then .ok { inst with walking := Function.update inst.walking o true }
    else inst.finishPart o (env.answer o)
  else .ok inst

/-- The end of `writeMem`, with `LSQUnit::write`. -/
def finishWrite (inst : DynInst F) (req : Request) (data : RowOpPayload) (size : Nat) : DynInst F :=
  if inst.fault.isNone ∧ inst.translationCompleted then
    { inst with
      effAddr := req.vaddr
      effSize := size
      effAddrValid := true
      written := some data
      storeSize := req.size }
  else inst

/-- Start the translations of a row operation. -/
def startTranslation (env : RowOpEnv F) (inst : DynInst F) (req : Request) (data : RowOpPayload) :
    Except TranslationFailure (DynInst F) := do
  let inst := { inst with
    translationStarted := true
    state := some (WholeTranslationState.ofRowOp req (req.splitRowOp data) data)
    frame := data }
  let inst ← inst.translateTiming env .dest
  let inst ← inst.translateTiming env .src1
  let inst ← inst.translateTiming env .src2
  .ok (if inst.translationCompleted then inst
    else { inst with fault := none, savedReq := some req })

/-- `BaseDynInst::writeMem` of a row operation. -/
def writeMem (env : RowOpEnv F) (inst : DynInst F) (data : RowOpPayload) (size addr flags : Nat) :
    Except TranslationFailure (DynInst F) :=
  if inst.translationStarted then
    match inst.savedReq with
    | none => .error .nullRequest
    | some req => .ok (inst.finishWrite req data size)
  else do
    let req : Request := ⟨addr, size, none, flags⟩
    let inst ← inst.startTranslation env req data.rowAlign
    .ok (inst.finishWrite req inst.frame size)

/-- `RowOpInitiateAcc`. -/
def initiateAcc (env : RowOpEnv F) (inst : DynInst F) : Except TranslationFailure (DynInst F) :=
  inst.writeMem env env.payload RowOpPayload.sizeOf 0 (RequestFlag.uncacheable ||| RequestFlag.rowOp)

inductive Event where
  /-- the instruction issues, for the first time or after its translation was deferred -/
  | execute
  /-- a page walk ends -/
  | walked (o : Operand)

/-- One event. An instruction whose translation is delayed is deferred until it has completed. -/
def step (env : RowOpEnv F) (inst : DynInst F) : Event → Except TranslationFailure (DynInst F)
  | .execute => do
    ensure (inst.translationStarted = false ∨ (inst.deferred = true ∧ inst.translationCompleted = true)) .notEnabled
    let inst ← inst.initiateAcc env
    .ok { inst with deferred := inst.isTranslationDelayed && inst.fault.isNone }
  | .walked o => do
    ensure (inst.walking o = true) .notEnabled
    { inst with walking := Function.update inst.walking o false }.finishPart o (env.answer o)

/-- The instruction after a list of events. -/
def run (env : RowOpEnv F) (es : List Event) : Except TranslationFailure (DynInst F) :=
  runFrom (step env) (fetched F) es

end DynInst

end MimdramLean

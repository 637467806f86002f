import MimdramLean.Translation

/-!
# The load queue of the out-of-order CPU

`LSQUnit::checkViolations` and `LSQUnit::executeStore` for a row operation, and the store branch of
the issue stage that calls it. Of a load in the queue there is what the check reads; `bytesRead` are
the bytes of physical memory that the load has read, and nothing looks at them.
-/

namespace MimdramLean

open Library

structure LoadInst where
  seqNum : Nat
  effAddr : Nat
  effSize : Nat
  effAddrValid : Bool
  strictlyOrdered : Bool
  hitExternalSnoop : Bool
  possibleLoadViolation : Bool
  bytesRead : List Nat
  deriving DecidableEq, Repr

/-- What the check reads of the instruction it is made for. -/
structure CheckedInst where
  seqNum : Nat
  effAddr : Nat
  effSize : Nat
  isLoad : Bool

/-- The fault "Detected fault with inst [sn] and [sn] at address". -/
structure OrderViolation where
  inst : Nat
  load : Nat
  addr : Nat
  deriving DecidableEq, Repr

structure LSQUnit (lqEntries : Nat) where
  loadQueue : Fin lqEntries → LoadInst
  loadTail : Fin lqEntries
  depCheckShift : Nat
  memDepViolator : Option LoadInst

namespace LSQUnit

variable {n : Nat}

/-- `LSQUnit::incrLdIdx`. -/
def incrLdIdx (idx : Fin n) : Fin n :=
  if h : idx.val + 1 < n then ⟨idx.val + 1, h⟩ else ⟨0, idx.pos⟩

/-- The entries between an index and the tail of the queue. -/
def distance (idx tail : Fin n) : Nat := (tail.val + n - idx.val) % n

/-- The indices that `while (load_idx != loadTail) … incrLdIdx(load_idx)` visits. -/
def indicesFrom (tail idx : Fin n) : List (Fin n) :=
  (List.range (distance idx tail)).map fun k => ⟨(idx.val + k) % n, Nat.mod_lt _ idx.pos⟩

/-- The first and the last block of an access. -/
def blocks (s : LSQUnit n) (effAddr effSize : Nat) : Nat × Nat :=
  (effAddr >>> s.depCheckShift, sub64 (add64 effAddr effSize) 1 >>> s.depCheckShift)

/-- Whether the check looks at a load at all, and then finds it in the way. -/
def conflicts (s : LSQUnit n) (inst : CheckedInst) (ld : LoadInst) : Bool :=
  let (instEffAddr1, instEffAddr2) := s.blocks inst.effAddr inst.effSize
  let (ldEffAddr1, ldEffAddr2) := s.blocks ld.effAddr ld.effSize
  ld.effAddrValid && !ld.strictlyOrdered &&
    decide (ldEffAddr1 ≤ instEffAddr2 ∧ instEffAddr1 ≤ ldEffAddr2)

def violation (s : LSQUnit n) (inst : CheckedInst) (ld : LoadInst) : OrderViolation :=
  ⟨inst.seqNum, ld.seqNum, ld.effAddr >>> s.depCheckShift⟩

/-- `memDepViolator && ld_inst->seqNum > memDepViolator->seqNum`. -/
def hasOlderViolator (s : LSQUnit n) (ld : LoadInst) : Bool :=
  s.memDepViolator.any fun v => decide (v.seqNum < ld.seqNum)

/-- `!memDepViolator || ld_inst->seqNum < memDepViolator->seqNum`. -/
def precedesViolator (s : LSQUnit n) (ld : LoadInst) : Bool :=
  s.memDepViolator.all fun v => decide (ld.seqNum < v.seqNum)

def markPossible (s : LSQUnit n) (idx : Fin n) : LSQUnit n :=
  { s with loadQueue :=
      Function.update s.loadQueue idx { s.loadQueue idx with possibleLoadViolation := true } }

/-- The loop of `checkViolations` over the indices it visits. -/
def checkLoop (inst : CheckedInst) : LSQUnit n → List (Fin n) → LSQUnit n × Option OrderViolation
  | s, [] => (s, none)
  | s, idx :: rest =>
    let ld := s.loadQueue idx
    if s.conflicts inst ld then
      if inst.isLoad then
        if ld.hitExternalSnoop && s.precedesViolator ld then
          ({ s with memDepViolator := some ld }, some (s.violation inst ld))
        else checkLoop inst (s.markPossible idx) rest
      else if s.hasOlderViolator ld then (s, none)
      else ({ s with memDepViolator := some ld }, some (s.violation inst ld))
    else checkLoop inst s rest

/-- `LSQUnit::checkViolations`. -/
def checkViolations (s : LSQUnit n) (loadIdx : Fin n) (inst : CheckedInst) :
    LSQUnit n × Option OrderViolation :=
  checkLoop inst s (indicesFrom s.loadTail loadIdx)

inductive StoreFault (F : Type) where
  | translation (fault : F)
  | order (violation : OrderViolation)

variable {F : Type}

/-- `LSQUnit::executeStore` of a row operation. -/
def executeStore (s : LSQUnit n) (env : RowOpEnv F) (lqIdx : Fin n) (seqNum : Nat) (inst : DynInst F) :
    Except TranslationFailure (LSQUnit n × DynInst F × Option (StoreFault F)) := do
  let inst ← inst.initiateAcc env
  if inst.isTranslationDelayed ∧ inst.fault.isNone then .ok (s, inst, none)
  else if inst.storeSize = 0 then .ok (s, inst, inst.fault.map .translation)
  else do
    ensure (inst.fault.isNone = true) .storeFault
    let (s, fault) := s.checkViolations lqIdx ⟨seqNum, inst.effAddr, inst.effSize, false⟩
    .ok (s, inst, fault.map .order)

/-- The store branch of `DefaultIEW::executeInsts`: an instruction whose translation is delayed is
deferred. -/
def executeInsts (s : LSQUnit n) (env : RowOpEnv F) (lqIdx : Fin n) (seqNum : Nat) (inst : DynInst F) :
    Except TranslationFailure (LSQUnit n × DynInst F × Option (StoreFault F)) := do
  ensure (inst.translationStarted = false ∨ (inst.deferred = true ∧ inst.translationCompleted = true)) .notEnabled
  let (s, inst, fault) ← s.executeStore env lqIdx seqNum inst
  .ok (s, { inst with deferred := inst.isTranslationDelayed && inst.fault.isNone }, fault)

end LSQUnit

end MimdramLean

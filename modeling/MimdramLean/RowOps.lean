import Mathlib.Algebra.Order.Ring.Nat
import Mathlib.Data.List.Basic

/-!
# Bulk row operations

The row operations of `mem/request.hh`, the row names of `DRAMCtrl::Bank`, and the bank
commands that `DRAMCtrl::doDRAMAccess` issues for each operation. Throughout, ticks and addresses
are natural numbers, added and subtracted by `add64` and `sub64`.
-/

namespace MimdramLean

/-- Unsigned 64-bit addition and subtraction, as on `Tick` and `Addr`. -/
def add64 (a b : Nat) : Nat := (a + b) % 2 ^ 64

def sub64 (a b : Nat) : Nat := if b ≤ a then a - b else 2 ^ 64 + a - b

lemma add64_le (a b : Nat) : add64 a b ≤ a + b := Nat.mod_le _ _

lemma add64_of_lt {a b : Nat} (h : a + b < 2 ^ 64) : add64 a b = a + b := Nat.mod_eq_of_lt h

lemma sub64_of_le {a b : Nat} (h : b ≤ a) : sub64 a b = a - b := by simp [sub64, h]

/-- `divCeil` of `base/intmath.hh` on ticks. -/
def divCeil (a b : Nat) : Nat := sub64 (add64 a b) 1 / b

/-- `ROW_SIZE` of `mem/request.hh`, in bytes. -/
def rowSize : Nat := 8192

inductive RowOp where
  | rowAnd
  | rowOr
  | rowNot
  | rowXor
  | rowAp
  | rowAap
  deriving DecidableEq, Repr

structure RowOpPayload where
  op : RowOp
  dest : Nat
  src1 : Nat
  src2 : Nat
  deriving DecidableEq, Repr

/-- `sizeof(RowOpPayload)`: a four-byte enumeration, padding and three addresses. -/
def RowOpPayload.sizeOf : Nat := 32

/-! ### Row names of `DRAMCtrl::Bank`

Row numbers are 32-bit. The top of the range is reserved: the constants are small negative
numbers converted to `uint32_t`. -/

namespace Row

def noRow : Nat := 2 ^ 32 - 1
def doubleRow : Nat := 2 ^ 32 - 2
def bT0 : Nat := 2 ^ 32 - 3
def bT1 : Nat := 2 ^ 32 - 4
def bT2 : Nat := 2 ^ 32 - 5
def bDCC0 : Nat := 2 ^ 32 - 7
def bDCC0N : Nat := 2 ^ 32 - 8
def bDCC0NT0 : Nat := 2 ^ 32 - 11
def bDCC1NT1 : Nat := 2 ^ 32 - 12
def bT2T3 : Nat := 2 ^ 32 - 13
def bT0T1T2 : Nat := 2 ^ 32 - 15
def bDCC0T1T2 : Nat := 2 ^ 32 - 17
def bDCC1T0T3 : Nat := 2 ^ 32 - 18
def c0 : Nat := 2 ^ 32 - 19
def c1 : Nat := 2 ^ 32 - 20

end Row

/-- The calls of `apBank` and `aapBank`. -/
inductive BankCommand where
  | ap (row : Nat)
  | aap (row1 row2 : Nat) (actOverlapped : Bool)
  deriving DecidableEq, Repr

open Row in
/-- The row-operation switch of `doDRAMAccess`. -/
def rowOpCommands (op : RowOp) (row src1Row src2Row : Nat) : List BankCommand :=
  match op with
  | .rowAnd =>
    [.aap src1Row bT0 true, .aap src2Row bT1 true, .aap c0 bT2 true, .aap bT0T1T2 row true]
  | .rowOr =>
    [.aap src1Row bT0 true, .aap src2Row bT1 true, .aap c1 bT2 true, .aap bT0T1T2 row true]
  | .rowNot =>
    [.aap src1Row bDCC0N true, .aap bDCC0 row true]
  | .rowXor =>
    [.aap src1Row bDCC0NT0 true, .aap src2Row bDCC1NT1 true, .aap c0 bT2T3 true,
      .ap bDCC0T1T2, .ap bDCC1T0T3, .aap c1 bT2 true, .aap bT0T1T2 row true]
  | .rowAp =>
    [.ap bT0T1T2]
  | .rowAap =>
    -- both rows are literally zero in the source, with a note to replace them
    [.aap 0 0 true]

end MimdramLean

import MimdramLean.Library.ByteMemory
import MimdramLean.RowOps

/-!
# Row operations on the memory content

The row-operation switch of `AbstractMemory::access`. The host memory is addressed as the
simulated one: `pmemAddr - range.start()` is taken out. The other requests of `access` do not touch
rows and are left out.
-/

namespace MimdramLean

open Library

/-- `for (int i = 0; i < ROW_SIZE; i += sizeof(uint64_t)) *dest++ = …`. -/
def forRow (dest : Nat) (word : Memory → Nat → BitVec 64) (m : Memory) : Memory :=
  storeWords dest word (rowSize / 8) m

/-- `AbstractMemory::access` of a row operation. -/
def accessRowOp (m : Memory) (addrs : RowOpPayload) : Memory :=
  match addrs.op with
  | .rowAnd => forRow addrs.dest (fun m o => load64 m (addrs.src1 + o) &&& load64 m (addrs.src2 + o)) m
  | .rowOr => forRow addrs.dest (fun m o => load64 m (addrs.src1 + o) ||| load64 m (addrs.src2 + o)) m
  | .rowNot => forRow addrs.dest (fun m o => ~~~load64 m (addrs.src1 + o)) m
  | .rowXor => forRow addrs.dest (fun m o => load64 m (addrs.src1 + o) ^^^ load64 m (addrs.src2 + o)) m
  -- to be implemented, says the source
  | .rowAp => m
  | .rowAap => m

end MimdramLean

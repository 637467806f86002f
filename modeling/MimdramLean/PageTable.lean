import MimdramLean.AbstractMemory
import MimdramLean.Translation

/-!
# Pages

The page table that the TLB looks operands up in, and the bytes that `AbstractMemory::access` reads and
writes for a row operation.
-/

namespace MimdramLean

open WholeTranslationState

/-- `PageBytes`. -/
def pageBytes : Nat := 2 ^ 12

/-- The physical page of each virtual page that is mapped. -/
abbrev PageTable := Nat → Option Nat

namespace PageTable

variable {F : Type}

/-- The physical image of a virtual address. -/
def translate (pt : PageTable) (vaddr : Nat) : Option Nat :=
  (pt (vaddr / pageBytes)).map fun ppn => ppn * pageBytes + vaddr % pageBytes

/-- What the TLB answers for a request at `vaddr`. -/
def answer (pt : PageTable) (fault : F) (flags vaddr : Nat) : Answer F :=
  match pt.translate vaddr with
  | some paddr => .ok (paddr, flags)
  | none => .error fault

/-- The row at `vaddr` is mapped to physical pages in a row. -/
def Contiguous (pt : PageTable) (vaddr : Nat) : Prop :=
  ∃ ppn, pt (vaddr / pageBytes) = some ppn ∧ pt (vaddr / pageBytes + 1) = some (ppn + 1)

end PageTable

/-- The operands whose rows `access` reads or writes. -/
def RowOp.touches (op : RowOp) (o : Operand) : Bool :=
  match op with
  | .rowAnd => true
  | .rowOr => true
  | .rowXor => true
  | .rowNot => o != .src2
  | .rowAp => false
  | .rowAap => false

/-- The byte that `access` touches at offset `i` of an operand: its pointers start at the operands and
go up with the loop. -/
def RowOpPayload.touched (addrs : RowOpPayload) (o : Operand) (i : Nat) : Nat := addrs.get o + i

end MimdramLean

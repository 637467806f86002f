import MimdramLean.Library.Loops
import MimdramLean.Microprogram

/-!
# The vector macros

`FOR_ALL_VECTORS`, `AAP_VECTORS` and `AP_VECTOR` of `mimdram.h`. An operand vector is a piece of memory
of `per_col_rows` rows; the B-group has one set of cells for each of the `ROWS_PER_VECTOR` rows that a
command works on at a time. A byte holds a bit for each element of an arbitrary type `β`.

The macros compute in `int`. None of their values leaves that type as long as a vector is an
`int` number of bytes, which is how the programs allocate them.
-/

namespace MimdramLean

open Library

/-- `ROWS_PER_VECTOR`, `BANK_COUNT * RANK_COUNT`. -/
def rowsPerVector : Nat := 16 * 2

/-- Where the operand vectors are. Two of them do not overlap. -/
structure Layout (P : Type) (perColRows : Nat) where
  ptr : P → Nat
  disjoint : ∀ p q, p ≠ q →
    ptr p + perColRows * rowSize ≤ ptr q ∨ ptr q + perColRows * rowSize ≤ ptr p

/-- What the memory holds: the cells of the B-group for each slot, byte of the row and bit of the
byte, and the bits of every byte. -/
structure VectorMemory (β : Type) where
  bgroup : Nat → Nat → β → BGroup
  mem : Nat → β → Bool

/-- A row as the arguments of `rowop_aap` and `rowop_ap` tell it. -/
inductive Place where
  | b (row : BRow) (slot : Nat)
  | c (bit : Bool)
  | addr (a : Nat)

/-- A command of a body for one row. -/
structure RowCall (P : Type) where
  cmd : RowCommand P
  baseRow : Nat
  row : Nat

/-- The values of `row` in `FOR_ALL_ROWS_IN_VECTOR`. -/
def rowsInVector (perColRows baseRow : Nat) : List Nat :=
  forLoop 0 (min (perColRows - baseRow) rowsPerVector) 1

/-- The calls that a body makes for the vector at `base_row`. -/
def vectorCalls {P : Type} (perColRows : Nat) (body : List (RowCommand P)) (baseRow : Nat) :
    List (RowCall P) :=
  body.flatMap fun cmd => (rowsInVector perColRows baseRow).map fun row => ⟨cmd, baseRow, row⟩

/-- The values of `base_row` in `FOR_ALL_VECTORS`. -/
def baseRows (perColRows : Nat) : List Nat := forLoop 0 perColRows rowsPerVector

/-- All calls that `FOR_ALL_VECTORS` makes. -/
def allCalls {P : Type} (perColRows : Nat) (body : List (RowCommand P)) : List (RowCall P) :=
  (baseRows perColRows).flatMap (vectorCalls perColRows body)

namespace VectorMemory

variable {P β : Type} {perColRows : Nat} (pair : Bool → Bool → Bool)

def sense (s : VectorMemory β) : Place → Nat → β → Bool
  | .b row slot => fun o i => (s.bgroup slot o i).sense pair row
  | .c bit => fun _ _ => bit
  | .addr a => fun o i => s.mem (a + o) i

/-- Connect a row to bitlines that hold `v`. -/
def drive (s : VectorMemory β) (v : Nat → β → Bool) : Place → VectorMemory β
  | .b row slot =>
    { s with bgroup := Function.update s.bgroup slot fun o i => (s.bgroup slot o i).drive (v o i) row }
  | .c _ => s
  | .addr a => { s with mem := fun x i => if a ≤ x ∧ x < a + rowSize then v (x - a) i else s.mem x i }

/-- `rowop_ap`. -/
def rowopAp (s : VectorMemory β) (dst : Place) : VectorMemory β := s.drive (s.sense pair dst) dst

/-- `rowop_aap`. -/
def rowopAap (s : VectorMemory β) (dst src : Place) : VectorMemory β :=
  (s.drive (s.sense pair src) src).drive (s.sense pair src) dst

/-- `ROW(name)` for a row of the B-group or a constant row, `ROW(VECTOR(ptr))` for an operand. -/
def place (L : Layout P perColRows) (baseRow row : Nat) : RowName P → Place
  | .b brow => .b brow row
  | .c bit => .c bit
  | .vec p => .addr (L.ptr p + baseRow * rowSize + row * rowSize)

def call (L : Layout P perColRows) (s : VectorMemory β) (c : RowCall P) : VectorMemory β :=
  match c.cmd with
  | .ap dst => s.rowopAp pair (place L c.baseRow c.row dst)
  | .aap dst src => s.rowopAap pair (place L c.baseRow c.row dst) (place L c.baseRow c.row src)

/-- The body of `FOR_ALL_VECTORS` for the vector at `base_row`. -/
def forVector (L : Layout P perColRows) (body : List (RowCommand P)) (s : VectorMemory β) (baseRow : Nat) :
    VectorMemory β := (vectorCalls perColRows body baseRow).foldl (call pair L) s

/-- `FOR_ALL_VECTORS`. -/
def forAllVectors (L : Layout P perColRows) (body : List (RowCommand P)) (s : VectorMemory β) :
    VectorMemory β := (baseRows perColRows).foldl (forVector pair L body) s

/-- Several `FOR_ALL_VECTORS` one after the other. -/
def runBodies (L : Layout P perColRows) (bodies : List (List (RowCommand P))) (s : VectorMemory β) :
    VectorMemory β := bodies.foldl (fun s body => s.forAllVectors pair L body) s

/-- The memory after the first `v` vectors. -/
def afterVectors (L : Layout P perColRows) (body : List (RowCommand P)) (s : VectorMemory β) (v : Nat) :
    VectorMemory β := ((baseRows perColRows).take v).foldl (forVector pair L body) s

/-- One lane of row `r` of the operand vectors, with the cells of one slot. -/
def laneAt (L : Layout P perColRows) (s : VectorMemory β) (r slot o : Nat) (i : β) : LaneState P where
  bgroup := s.bgroup slot o i
  data := fun p => s.mem (L.ptr p + r * rowSize + o) i

end VectorMemory

end MimdramLean

import MimdramLean.AbstractMemory
import MimdramLean.Allocation

/-!
# Range queries on the processor

The two range queries of `src/microworkloads` that count their matches: `90_bitweave-ambit.c`, which is
also `bitweave-buddy.c`, issues the row operations of Ambit, and `90_bitweave-baseline.c` uses 128-bit
vectors. The column data of both is the content of the memory at the start.
-/

namespace MimdramLean

open Library

def upopcount (val : BitVec 32) : BitVec 32 :=
  let val := val - ((val >>> 1) &&& 0x55555555#32)
  let val := (val &&& 0x33333333#32) + ((val >>> 2) &&& 0x33333333#32)
  (((val + (val >>> 4)) &&& 0x0F0F0F0F#32) * 0x01010101#32) >>> 24

/-- `popcount` of a vector of four words. -/
def popcount (v : BitVec 128) : BitVec 32 :=
  upopcount (v.extractLsb' 0 32) + upopcount (v.extractLsb' 32 32) +
    upopcount (v.extractLsb' 64 32) + upopcount (v.extractLsb' 96 32)

/-! ### `90_bitweave-ambit.c` -/

namespace BitweaveAmbit

/-- The vectors of a query over `n` columns. -/
inductive Vec (n : Nat) where
  | vals (j : Fin n)
  | output
  | meq1
  | meq2
  | mlt
  | mgt
  | neg
  | tmp
  deriving DecidableEq, Repr

/-- The blocks of `per_col_bytes` bytes that `posix_memalign` returns, for `num_vals = 1024 << k`. -/
structure Blocks (n k : Nat) where
  ptr : Vec n → Nat
  aligned : ∀ v, alignment ∣ ptr v
  disjoint : ∀ u v, u ≠ v → ptr u + perColBytes k ≤ ptr v ∨ ptr v + perColBytes k ≤ ptr u

inductive Rowop (n : Nat) where
  | and (d s1 s2 : Vec n)
  | or (d s1 s2 : Vec n)
  | not (d s : Vec n)

variable {n k : Nat} (B : Blocks n k)

/-- The operation on row `i` of its vectors: `ROW(ptr)` is `ptr + i*ROW_SIZE`. -/
def Rowop.payload (i : Nat) : Rowop n → RowOpPayload
  | .and d s1 s2 => ⟨.rowAnd, B.ptr d + i * rowSize, B.ptr s1 + i * rowSize, B.ptr s2 + i * rowSize⟩
  | .or d s1 s2 => ⟨.rowOr, B.ptr d + i * rowSize, B.ptr s1 + i * rowSize, B.ptr s2 + i * rowSize⟩
  | .not d s => ⟨.rowNot, B.ptr d + i * rowSize, B.ptr s + i * rowSize, 0⟩

def Rowop.run (i : Nat) (m : Memory) (op : Rowop n) : Memory := accessRowOp m (op.payload B i)

/-- `FOR_ALL_ROWS { body }` -/
def forAllRows (body : List (Rowop n)) (m : Memory) : Memory :=
  (forLoop 0 (perColRowsFor k) 1).foldl (fun m i => body.foldl (Rowop.run B i) m) m

/-- What is done for the column `vec`, by the bits of the constants. -/
def compareColumn (vec : Vec n) : (test1 test2 : Bool) → List (Rowop n)
  | false, false =>
    [.and .tmp .meq1 vec,
     .or .mgt .mgt .tmp,
     .and .meq1 .meq1 .neg,
     .and .meq2 .meq2 .neg]
  | true, false =>
    [.and .meq1 .meq1 vec,
     .and .meq2 .meq2 .neg]
  | false, true =>
    [.and .tmp .meq1 vec,
     .or .mgt .mgt .tmp,
     .and .tmp .meq2 .neg,
     .or .mlt .mlt .tmp,
     .and .meq1 .meq1 .neg,
     .and .meq2 .meq2 vec]
  | true, true =>
    [.and .tmp .meq2 .neg,
     .or .mlt .mlt .tmp,
     .and .meq1 .meq1 vec,
     .and .meq2 .meq2 vec]

def column (c1 c2 : BitVec 32) (m : Memory) (j : Fin n) : Memory :=
  let m := forAllRows B [.not .neg (.vals j)] m
  forAllRows B (compareColumn (.vals j) (bitTest c1 j) (bitTest c2 j)) m

/-- The bits of the row at `a`, added to `result`. -/
def countRow (m : Memory) (a : Nat) (result : BitVec 32) : BitVec 32 :=
  (forLoop 0 (rowSize / 4) 1).foldl (fun result j => result + upopcount (load32 m (a + 4 * j))) result

/-- One pass of the last `FOR_ALL_ROWS`. -/
def outputRow (s : Memory × BitVec 32) (i : Nat) : Memory × BitVec 32 :=
  let m := Rowop.run B i s.1 (.and .output .mlt .mgt)
  (m, countRow m (B.ptr .output + i * rowSize) s.2)

/-- One iteration of the query: the memory and the `result` after it. -/
def iteration (c1 c2 : BitVec 32) (m : Memory) : Memory × BitVec 32 :=
  let m := (List.finRange n).foldl (column B c1 c2) m
  (forLoop 0 (perColRowsFor k) 1).foldl (outputRow B) (m, 0)

/-- Set word `i` of the masks. -/
def setMask (m : Memory) (i : Nat) : Memory :=
  let m := store32 m (B.ptr .meq1 + 4 * i) 1
  let m := store32 m (B.ptr .meq2 + 4 * i) 1
  let m := store32 m (B.ptr .mlt + 4 * i) 0
  store32 m (B.ptr .mgt + 4 * i) 0

/-- The first `per_col_ints` words are set. -/
def setMasks (m : Memory) : Memory := (forLoop 0 ((1024 <<< k) / 32) 1).foldl (setMask B) m

/-- The values of `result` after the first and the second iteration. -/
def main (c1 c2 : BitVec 32) (m : Memory) : BitVec 32 × BitVec 32 :=
  let first := iteration B c1 c2 (setMasks B m)
  let second := iteration B c1 c2 first.1
  (first.2, second.2)

end BitweaveAmbit

/-! ### `90_bitweave-baseline.c` -/

namespace BitweaveBaseline

structure Masks where
  mgt : BitVec 128
  mlt : BitVec 128
  meq1 : BitVec 128
  meq2 : BitVec 128

/-- The masks before the first column. -/
def Masks.start : Masks where
  mgt := 0
  mlt := 0
  meq1 := BitVec.allOnes 128
  meq2 := BitVec.allOnes 128

def Masks.compare (s : Masks) (c1 c2 vec : BitVec 128) : Masks where
  mgt := s.mgt ||| (s.meq1 &&& ~~~c1 &&& vec)
  mlt := s.mlt ||| (s.meq2 &&& c2 &&& ~~~vec)
  meq1 := s.meq1 &&& ~~~(vec ^^^ c1)
  meq2 := s.meq2 &&& ~~~(vec ^^^ c2)

/-- `c1vecs[j]` and `c2vecs[j]`, ones or zeros by a bit of the constant. -/
def constVec (c : BitVec 32) (j : Nat) : BitVec 128 := if bitTest c j then BitVec.allOnes 128 else 0

/-- The buffer that both `vecvals` and `outputvecs` point to, and `result`. -/
structure Query where
  vecs : Nat → BitVec 128
  result : BitVec 32

variable (c1 c2 : BitVec 32) (colLength : Nat)

/-- Column `j` of group `i`. -/
def column (i : Nat) (s : Masks × Query) (j : Nat) : Masks × Query :=
  let masks := s.1.compare (constVec c1 j) (constVec c2 j) (s.2.vecs (i * colLength + j))
  let vecs := Function.update s.2.vecs i (masks.mgt &&& masks.mlt)
  (masks, ⟨vecs, s.2.result + popcount (vecs i)⟩)

def group (s : Query) (i : Nat) : Query :=
  ((forLoop 0 colLength 1).foldl (column c1 c2 colLength i) (Masks.start, s)).2

/-- `per_col_vecs`, for `num_vals = 1024 << k`. -/
def perColVecs (k : Nat) : Nat := (1024 <<< k) / 128

/-- One iteration, on a buffer with this content. -/
def iteration (k : Nat) (vecs : Nat → BitVec 128) : Query :=
  (forLoop 0 (perColVecs k) 1).foldl (group c1 c2 colLength) ⟨vecs, 0⟩

end BitweaveBaseline

end MimdramLean

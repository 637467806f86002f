import MimdramLean.Library.Loops
import MimdramLean.Microprogram

/-!
# Microprograms with a one-bit result

The bodies of `FOR_ALL_VECTORS` in the programs that leave one bit in each lane: the reductions, the tests
against 0 and the comparisons.
-/

namespace MimdramLean

open Library

/-- The vectors of a program with one operand. -/
inductive ReduceVec where
  | vals (k : Nat)
  | output
  deriving DecidableEq, Repr

/-- The commands in front of a loop over pairs of bits, and the value that they give to `j`: a constant goes
to `dst` if the number of bits is even, and bit 0 if it is odd. -/
def firstBits (even : Bool) (dst : BRow) (bit : Bool) : List (RowCommand ReduceVec) × Nat :=
  if even then ([.aap (.b dst) (.c bit)], 0) else ([.aap (.b dst) (.vec (.vals 0))], 1)

/-! ### `30_xor_reduction-plus.c` -/

namespace XorReduction

def xorBits (j : Nat) : List (RowCommand ReduceVec) :=
  let v1 := .vec (.vals j)
  let v2 := .vec (.vals (j + 1))
  [.aap (.b .dcc0nT0) v1,
   .aap (.b .t2) v2,
   .aap (.b .t3) (.b .dcc0T1T2),
   .aap (.b .t2) (.b .dcc1T0T3),
   .aap (.b .dcc0n) v2,
   .aap (.b .dcc1n) (.b .dcc0T1T2)]

def start (colLength : Nat) : List (RowCommand ReduceVec) × Nat :=
  firstBits (colLength % 2 == 0) .dcc1nT1 false

/-- The body up to the end of pass `m` of the loop. -/
def passes (colLength m : Nat) : List (RowCommand ReduceVec) :=
  (start colLength).1 ++ ((forLoop (start colLength).2 (colLength - 1) 2).take m).flatMap xorBits

def body (colLength : Nat) : List (RowCommand ReduceVec) :=
  (start colLength).1 ++ (forLoop (start colLength).2 (colLength - 1) 2).flatMap xorBits ++
  [.aap (.vec .output) (.b .t1)]

end XorReduction

/-! ### `31_and_reduction-plus.c` and `32_or_reduction-plus.c` -/

/-- A pass of `31_and_reduction-plus.c` with the bit 0 and of `32_or_reduction-plus.c` with the bit 1. -/
def reduceBits (bit : Bool) (j : Nat) : List (RowCommand ReduceVec) :=
  let v1 := .vec (.vals j)
  let v2 := .vec (.vals (j + 1))
  [.aap (.b .t0T1T2) (.c bit),
   .aap (.b .dcc1) v1,
   .aap (.b .t2) (.b .dcc1T0T3),
   .aap (.b .dcc0) v2,
   .aap (.b .t3) (.b .dcc0T1T2)]

/-- The body of these two programs. -/
def reduction (bit : Bool) (colLength : Nat) : List (RowCommand ReduceVec) :=
  let start := firstBits (colLength % 2 == 0) .t3 (!bit)
  start.1 ++ (forLoop start.2 (colLength - 1) 2).flatMap (reduceBits bit) ++
  [.aap (.vec .output) (.b .t3)]

namespace AndReduction

def body (colLength : Nat) : List (RowCommand ReduceVec) := reduction false colLength

end AndReduction

namespace OrReduction

def body (colLength : Nat) : List (RowCommand ReduceVec) := reduction true colLength

end OrReduction

/-! ### `35_greater_equal_0-plus.c` and `36_greater_than_0-plus.c` -/

namespace GreaterEqual0

/-- The body for `col_length` from 1 on. -/
def body (colLength : Nat) : List (RowCommand ReduceVec) :=
  [.aap (.b .dcc0n) (.vec (.vals (colLength - 1))),
   .aap (.vec .output) (.b .dcc0)]

end GreaterEqual0

namespace GreaterThan0

/-- The and of the reduced bit and the negated msb, with the value that `j` has after the loop. -/
def andSign (j : Nat) : List (RowCommand ReduceVec) :=
  [.aap (.b .dcc1n) (.vec (.vals j)),
   .aap (.b .t0) (.c false),
   .aap (.vec .output) (.b .dcc1T0T3)]

def body (colLength : Nat) : List (RowCommand ReduceVec) :=
  let start := firstBits (colLength % 2 == 1) .t3 false
  start.1 ++ (forLoop start.2 (colLength - 2) 2).flatMap (reduceBits true) ++
  andSign (forLoopEnd start.2 (colLength - 2) 2)

end GreaterThan0

/-! ### `40_greater-plus.c`, `41_greater_equal-plus.c` and `42_equal-plus.c` -/

/-- The vectors of a comparison. -/
inductive CompareVec where
  | vals1 (k : Nat)
  | vals2 (k : Nat)
  | output
  deriving DecidableEq, Repr

def greaterBit (j : Nat) : List (RowCommand CompareVec) :=
  [.aap (.b .t1) (.vec (.vals1 j)),
   .aap (.b .dcc0n) (.vec (.vals2 j)),
   .ap (.b .dcc0T1T2)]

/-- The body of `40_greater-plus.c` with the bit 0 and of `41_greater_equal-plus.c` with the bit 1. -/
def comparison (bit : Bool) (colLength : Nat) : List (RowCommand CompareVec) :=
  [.aap (.b .t2) (.c bit)] ++ (forLoop 0 colLength 1).flatMap greaterBit ++ [.aap (.vec .output) (.b .t2)]

namespace Greater

def body (colLength : Nat) : List (RowCommand CompareVec) := comparison false colLength

end Greater

namespace GreaterEqual

def body (colLength : Nat) : List (RowCommand CompareVec) := comparison true colLength

end GreaterEqual

namespace Equal

def equalBit (j : Nat) : List (RowCommand CompareVec) :=
  [.aap (.b .dcc0nT0) (.vec (.vals1 j)),
   .aap (.b .dcc1nT1) (.vec (.vals2 j)),
   .ap (.b .dcc0T1T2),
   .ap (.b .dcc1T0T3)]

def body (colLength : Nat) : List (RowCommand CompareVec) :=
  [.aap (.b .t2T3) (.c true)] ++ (forLoop 0 colLength 1).flatMap equalBit ++
  [.aap (.b .t1) (.c false),
   .aap (.vec .output) (.b .t0T1T2)]

end Equal

end MimdramLean

import MimdramLean.Library.Loops
import MimdramLean.Microprogram

/-!
# Element-wise microprograms

The bodies of `FOR_ALL_VECTORS` in the programs that compute one number from the numbers of each lane:
addition, subtraction, selection, minimum, maximum, absolute value and ReLU, as the commands they issue
for one row.
-/

namespace MimdramLean

open Library

/-! ### `00_addition-plus.c` and `01_subtraction-plus.c` -/

/-- The vectors of a program with two operands. -/
inductive PairVec where
  | vals1 (k : Nat)
  | vals2 (k : Nat)
  | output (k : Nat)
  deriving DecidableEq, Repr

namespace Addition

def addBit (j : Nat) : List (RowCommand PairVec) :=
  addPass (.vec (.vals1 j)) (.vec (.vals2 j)) (.vec (.output j))

def body (colLength : Nat) : List (RowCommand PairVec) :=
  [.aap (.b .dcc1) (.c false)] ++ (forLoop 0 colLength 1).flatMap addBit

end Addition

namespace Subtraction

def subtractBit (j : Nat) : List (RowCommand PairVec) :=
  subtractPass (.vec (.vals1 j)) (.vec (.vals2 j)) (.vec (.output j))

def body (colLength : Nat) : List (RowCommand PairVec) :=
  [.aap (.b .dcc0) (.c true)] ++ (forLoop 0 colLength 1).flatMap subtractBit

end Subtraction

/-! ### `60_if_then_else-plus.c`, `02_min-plus.c` and `03_max-plus.c` -/

/-- The vectors of a program that selects: `s` is the vector `selection` of `60_if_then_else-plus.c` and the
temporary vector of the other two. -/
inductive SelectVec where
  | vals1 (k : Nat)
  | vals2 (k : Nat)
  | output (k : Nat)
  | s
  deriving DecidableEq, Repr

/-- The loop `output = s ? vals1 : vals2`. -/
def selectLoop (colLength : Nat) : List (RowCommand SelectVec) :=
  (forLoop 0 colLength 1).flatMap fun j =>
    selectPass (.vec .s) (.vec (.vals1 j)) (.vec (.vals2 j)) (.vec (.output j))

namespace IfThenElse

def body (colLength : Nat) : List (RowCommand SelectVec) := selectLoop colLength

end IfThenElse

namespace Min

/-- One bit of `vals1 < vals2`. -/
def compareBit (j : Nat) : List (RowCommand SelectVec) :=
  [.aap (.b .dcc0n) (.vec (.vals1 j)),
   .aap (.b .t1) (.vec (.vals2 j)),
   .ap (.b .dcc0T1T2)]

def body (colLength : Nat) : List (RowCommand SelectVec) :=
  [.aap (.b .t2) (.c false)] ++ (forLoop 0 colLength 1).flatMap compareBit ++
  [.aap (.vec .s) (.b .t2)] ++ selectLoop colLength

end Min

namespace Max

/-- One bit of `vals1 > vals2`. -/
def compareBit (j : Nat) : List (RowCommand SelectVec) :=
  [.aap (.b .t1) (.vec (.vals1 j)),
   .aap (.b .dcc0n) (.vec (.vals2 j)),
   .ap (.b .dcc0T1T2)]

def body (colLength : Nat) : List (RowCommand SelectVec) :=
  [.aap (.b .t2) (.c false)] ++ (forLoop 0 colLength 1).flatMap compareBit ++
  [.aap (.vec .s) (.b .t2)] ++ selectLoop colLength

end Max

/-! ### `50_abs-plus.c` -/

namespace Abs

inductive Vec where
  | vals (k : Nat)
  | output (k : Nat)
  | carries (k : Nat)
  deriving DecidableEq, Repr

/-- A pass of the first loop. The carry is in `B_T0`. -/
def carryBit (j : Nat) : List (RowCommand Vec) :=
  [.aap (.b .t3) (.c false),
   .aap (.b .dcc1n) (.vec (.vals j)),
   .aap (.vec (.carries (j + 1))) (.b .dcc1T0T3)]

/-- A pass of the second loop. -/
def sumBit (sign : RowName Vec) (j : Nat) : List (RowCommand Vec) :=
  [.aap (.b .dcc0nT0) sign,
   .aap (.b .dcc1nT1) (.vec (.carries j)),
   .aap (.b .t3) (.vec (.vals j)),
   .aap (.b .t3) (.b .dcc0T1T2),
   .aap (.b .t2) (.b .dcc1T0T3),
   .aap (.b .dcc0n) (.vec (.vals j)),
   .aap (.vec (.output j)) (.b .dcc0T1T2)]

/-- The body for `col_length` from 1 on. -/
def body (colLength : Nat) : List (RowCommand Vec) :=
  let sign := .vec (.vals (colLength - 1))
  [.aap (.b .t0) sign, .aap (.vec (.carries 0)) (.b .t0)] ++
  (forLoop 0 (colLength - 1) 1).flatMap carryBit ++
  (forLoop 0 colLength 1).flatMap (sumBit sign)

end Abs

/-! ### `51_relu-plus.c` -/

namespace Relu

inductive Vec where
  | vals (k : Nat)
  | output (k : Nat)
  | sign
  deriving DecidableEq, Repr

/-- Two consecutive bits. -/
def pairBits (j : Nat) : List (RowCommand Vec) :=
  [.aap (.b .t0T1T2) (.vec .sign),
   .aap (.b .t2T3) (.c false),
   .aap (.b .dcc0) (.vec (.vals j)),
   .aap (.vec (.output j)) (.b .dcc0T1T2),
   .aap (.b .dcc1) (.vec (.vals (j + 1))),
   .aap (.vec (.output (j + 1))) (.b .dcc1T0T3)]

/-- The second msb, with the value that `j` has after the loop. -/
def lastBit (colLength j : Nat) : List (RowCommand Vec) :=
  -- `col_length - 2 == j`, which is false for width 1
  if colLength = j + 2 then
    [.aap (.b .t0) (.vec .sign),
     .aap (.b .t1) (.c false),
     .aap (.b .t2) (.vec (.vals j)),
     .aap (.vec (.output j)) (.b .t0T1T2)]
  else []

/-- The body for `col_length` from 1 on. -/
def body (colLength : Nat) : List (RowCommand Vec) :=
  let msb := .vec (.vals (colLength - 1))
  [.aap (.b .dcc0n) msb, .aap (.vec .sign) (.b .dcc0)] ++
  (forLoop 0 (colLength - 2) 2).flatMap pairBits ++
  lastBit colLength (forLoopEnd 0 (colLength - 2) 2) ++
  [.aap msb (.c false)]

end Relu

end MimdramLean

import MimdramLean.Library.Loops
import MimdramLean.Microprogram

/-!
# The multiplication and division microprograms

The bodies of `FOR_ALL_VECTORS` in `11_multu-plus.c` and `16_divu-plus.c`, as the commands they issue
for one row. Each program has its own type of operand vectors: two vectors with different names
are different memory.
-/

namespace MimdramLean

open Library

/-! ### `11_multu-plus.c` -/

namespace Multu

inductive Vec where
  | vals1 (k : Nat)
  | vals2 (k : Nat)
  | output (k : Nat)
  deriving DecidableEq, Repr

/-- Initialize one row of `output` with a bit of the first partial product. -/
def initBit (k : Nat) : List (RowCommand Vec) :=
  [.aap (.b .t0) (.vec (.vals1 0)),
   .aap (.b .t1) (.vec (.vals2 k)),
   .aap (.b .t2) (.c false),
   .aap (.vec (.output k)) (.b .t0T1T2)]

/-- Add a bit of partial product `j` to `output[j + k]`. The carry is in `B_DCC1`. -/
def addBit (j k : Nat) : List (RowCommand Vec) :=
  [.aap (.b .t0) (.vec (.vals1 j)),
   .aap (.b .t1) (.vec (.vals2 k)),
   .aap (.b .t2) (.c false),
   .ap (.b .t0T1T2),
   .aap (.b .t2T3) (.b .dcc1),
   .aap (.b .dcc1) (.vec (.output (j + k))),
   .ap (.b .dcc1T0T3),
   .aap (.b .t0T3) (.b .dcc1n),
   .ap (.b .t0T1T2),
   .aap (.b .t1) (.vec (.output (j + k))),
   .aap (.vec (.output (j + k))) (.b .t1T2T3)]

/-- Add partial product `j`. -/
def round (colLength j : Nat) : List (RowCommand Vec) :=
  [.aap (.b .dcc1) (.c false)] ++
  (forLoop 0 colLength 1).flatMap (addBit j) ++
  [.aap (.vec (.output (j + colLength))) (.b .dcc1)]

def body (colLength : Nat) : List (RowCommand Vec) :=
  (forLoop 0 colLength 1).flatMap initBit ++
  [.aap (.vec (.output colLength)) (.c false)] ++
  (forLoop 1 colLength 1).flatMap (round colLength)

end Multu

/-! ### `16_divu-plus.c` -/

namespace Divu

inductive Vec where
  | vals1 (k : Nat)
  | vals2 (k : Nat)
  | output (k : Nat)
  | rest (k : Nat)
  | tmp (k : Nat)
  | m
  deriving DecidableEq, Repr

/-- Step 1: bring down a bit of the dividend. -/
def bringDown (j : Nat) : List (RowCommand Vec) :=
  [.aap (.b .t0) (.vec (.vals1 j)),
   .aap (.vec (.rest j)) (.b .t0)]

/-- A position of the comparison where the remainder has a bit. -/
def compareBit (j k : Nat) : List (RowCommand Vec) :=
  [.aap (.b .t2) (.vec (.rest (j + k))),
   .aap (.b .dcc0n) (.vec (.vals2 k)),
   .ap (.b .dcc0T1T2)]

/-- Two positions of the comparison above the remainder. -/
def comparePair (k : Nat) : List (RowCommand Vec) :=
  [.aap (.b .t2T3) (.c false),
   .aap (.b .dcc0n) (.vec (.vals2 k)),
   .aap (.b .t0) (.b .dcc0T1T2),
   .aap (.b .dcc1n) (.vec (.vals2 (k + 1))),
   .aap (.b .t1) (.b .dcc1T0T3)]

/-- The result of the comparison, after the position the pairs leave over when `j` is odd. -/
def compareLast (colLength j : Nat) : List (RowCommand Vec) :=
  if j % 2 = 1 then
    [.aap (.b .t2) (.c false),
     .aap (.b .dcc0n) (.vec (.vals2 (colLength - 1))),
     .aap (.vec .m) (.b .dcc0T1T2)]
  else
    [.aap (.vec .m) (.b .t1)]

/-- Step 2: whether the divisor fits into `rest[j..]`. -/
def compare (colLength j : Nat) : List (RowCommand Vec) :=
  [.aap (.b .t1) (.c true)] ++
  (forLoop 0 (colLength - j) 1).flatMap (compareBit j) ++
  (forLoop (colLength - j) (colLength - 1) 2).flatMap comparePair ++
  compareLast colLength j

/-- Two bits of the divisor, or zeros if it does not fit. -/
def selectPair (k : Nat) : List (RowCommand Vec) :=
  [.aap (.b .t0T1T2) (.c false),
   .aap (.b .t2T3) (.vec .m),
   .aap (.b .dcc0) (.vec (.vals2 k)),
   .aap (.vec (.tmp k)) (.b .dcc0T1T2),
   .aap (.b .dcc1) (.vec (.vals2 (k + 1))),
   .aap (.vec (.tmp (k + 1))) (.b .dcc1T0T3)]

def selectLast (colLength j : Nat) : List (RowCommand Vec) :=
  if (colLength - j) % 2 = 1 then
    [.aap (.b .t0) (.c false),
     .aap (.b .t1) (.vec .m),
     .aap (.b .t2) (.vec (.vals2 (colLength - j - 1))),
     .aap (.vec (.tmp (colLength - j - 1))) (.b .t0T1T2)]
  else []

/-- Step 4: what to subtract. -/
def select (colLength j : Nat) : List (RowCommand Vec) :=
  (forLoop 0 (colLength - j - 1) 2).flatMap selectPair ++ selectLast colLength j

/-- Subtract one bit. The complement of the borrow is in `B_DCC0`. -/
def subtractBit (j k : Nat) : List (RowCommand Vec) :=
  subtractPass (.vec (.rest (j + k))) (.vec (.tmp k)) (.vec (.rest (j + k)))

/-- Step 5: subtract it from `rest[j..]`. -/
def subtract (colLength j : Nat) : List (RowCommand Vec) :=
  [.aap (.b .dcc0) (.c true)] ++
  (forLoop 0 (colLength - j) 1).flatMap (subtractBit j)

/-- One pass of the loop over the bits of the dividend; the third command list is step 3. -/
def pass (colLength j : Nat) : List (RowCommand Vec) :=
  bringDown j ++ compare colLength j ++ [.aap (.vec (.output j)) (.vec .m)] ++
  select colLength j ++ subtract colLength j

def body (colLength : Nat) : List (RowCommand Vec) := (forDown colLength).flatMap (pass colLength)

end Divu

end MimdramLean

import Mathlib.Data.BitVec
import MimdramLean.Library.Loops
import MimdramLean.Microprogram

/-!
# Microprograms with constant operands

The programs of `src/microworkloads` that test bits of an `unsigned` constant while they issue commands:
the multiplication by a constant and the range query.
-/

namespace MimdramLean

open Library

/-- The test `c & (1 << j)`, for `j` from 0 to 31. -/
def bitTest (c : BitVec 32) (j : Nat) : Bool := c &&& (1#32 <<< j) != 0#32

/-! ### `10_multu_by_const-plus.c` -/

namespace MultuByConst

inductive Vec where
  | vals (k : Nat)
  | output (k : Nat)
  deriving DecidableEq, Repr

def writeZero (j : Nat) : List (RowCommand Vec) := [.aap (.vec (.output j)) (.c false)]

/-- Copy one bit of the values to a shifted position. -/
def copyBit (j k : Nat) : List (RowCommand Vec) := [.aap (.vec (.output (j + k))) (.vec (.vals k))]

/-- Add one bit of the values to a shifted position. -/
def addBit (j k : Nat) : List (RowCommand Vec) :=
  addPass (.vec (.output (j + k))) (.vec (.vals k)) (.vec (.output (j + k)))

/-- What is done for bit `j` of the constant, after its lowest bit that is set. -/
def addShifted (c : BitVec 32) (colLength j : Nat) : List (RowCommand Vec) :=
  if bitTest c j then
    [.aap (.b .dcc1) (.c false)] ++
    (forLoop 0 colLength 1).flatMap (addBit j) ++
    -- the carry out goes to the next highest bit of the output
    [.aap (.vec (.output (j + colLength))) (.b .dcc1)]
  else
    writeZero (j + colLength)

def body (c : BitVec 32) (colLength : Nat) : List (RowCommand Vec) :=
  if 0 = c then
    (forLoop 0 (2 * colLength) 1).flatMap writeZero
  else
    let j := forBreakEnd colLength (bitTest c)
    (forBreak colLength (bitTest c)).flatMap writeZero ++
    (forLoop 0 colLength 1).flatMap (copyBit j) ++
    writeZero (j + colLength) ++
    (forLoop (j + 1) colLength 1).flatMap (addShifted c colLength)

end MultuByConst

/-! ### `90_bitweave-plus.c` -/

namespace Bitweave

inductive Vec where
  | vals (k : Nat)
  | output
  deriving DecidableEq, Repr

/-- The rows that take the bits of the constants: two that differ set `B_T2` and `B_T3`, two that are the same
`B_DCC1` and `B_T1`. -/
def constantBits : (test1 test2 : Bool) → RowCommand Vec
  | false, false => .aap (.b .dcc1nT1) (.c false)
  | false, true => .aap (.b .t2T3) (.c true)
  | true, false => .aap (.b .t2T3) (.c false)
  | true, true => .aap (.b .dcc1nT1) (.c true)

def queryBit (c1 c2 : BitVec 32) (j : Nat) : List (RowCommand Vec) :=
  [.aap (.b .dcc0nT0) (.vec (.vals j)),
   constantBits (bitTest c1 j) (bitTest c2 j),
   .ap (.b .dcc1T0T3),
   .ap (.b .dcc0T1T2)]

def body (c1 c2 : BitVec 32) (colLength : Nat) : List (RowCommand Vec) :=
  [.aap (.b .dcc1) (.c true), .aap (.b .t0T1T2) (.c true)] ++
  (forLoop 0 colLength 1).flatMap (queryBit c1 c2) ++
  [.aap (.b .t1) (.c false), .aap (.vec .output) (.b .t1T2T3)]

end Bitweave

end MimdramLean

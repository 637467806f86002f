import MimdramLean.Library.Loops
import MimdramLean.Library.Machine
import Mathlib.Data.BitVec

/-!
# The matching index

`70_matching-index.c`: the number of common and of all neighbours of each pair of nodes of a graph that is given
by the bits of its matrix, and the quotient of the two. The variables are `uint32_t`, so that an index is computed
modulo `2 ^ 32`; an access outside of what `calloc` has returned stops the program. `matrix` is the content of
the matrix after it has been filled.
-/

namespace MimdramLean.MatchingIndex

open Library

def numberOfSetBits (i : BitVec 32) : BitVec 32 :=
  let i := i - ((i >>> 1) &&& 0x55555555#32)
  let i := (i &&& 0x33333333#32) + ((i >>> 2) &&& 0x33333333#32)
  (((i + (i >>> 4)) &&& 0x0F0F0F0F#32) * 0x01010101#32) >>> 24

inductive Fault where
  | outOfBounds
  deriving DecidableEq, Repr

/-- What the program uses of the type `float`. A quotient of unsigned numbers is not negative, also when the
divisor is zero and the dividend is not. -/
structure Floats where
  Value : Type
  zero : Value
  minusOne : Value
  ofUnsigned : BitVec 32 → Value
  div : Value → Value → Value
  div_ne : ∀ c t : BitVec 32, ¬(c = 0 ∧ t = 0) → div (ofUnsigned c) (ofUnsigned t) ≠ minusOne

section Arrays

variable {α : Type}

/-- Read element `i` of an array of `size` elements. -/
def readArray (size : Nat) (a : Nat → α) (i : Nat) : Except Fault α := do
  ensure (i < size) .outOfBounds
  .ok (a i)

def writeArray (size : Nat) (a : Nat → α) (i : Nat) (v : α) : Except Fault (Nat → α) := do
  ensure (i < size) .outOfBounds
  .ok (Function.update a i v)

end Arrays

/-- The elements of `calloc(dim*dim, ...)`. -/
def entries (dim : Nat) : Nat := dim * dim % 2 ^ 32

/-- The words of `calloc(dim * dim / 8, 1)`. -/
def matrixWords (dim : Nat) : Nat := dim * dim % 2 ^ 32 / 8 / 4

structure Counts where
  commonNeighbors : Nat → BitVec 32
  totalNeighbors : Nat → BitVec 32

variable (R : Floats) (dim : Nat) (matrix : Nat → BitVec 32)

/-! ### The first loop nest -/

/-- The body of the loop over `k`. -/
def addWord (i j : Nat) (s : Counts) (k : Nat) : Except Fault Counts := do
  let x ← readArray (matrixWords dim) matrix ((i * dim + k) % 2 ^ 32 / 4 / 8)
  let y ← readArray (matrixWords dim) matrix ((j * dim + k) % 2 ^ 32 / 4 / 8)
  let tmp := x &&& y
  let c ← readArray (entries dim) s.commonNeighbors ((i * dim + j) % 2 ^ 32)
  let common ← writeArray (entries dim) s.commonNeighbors ((i * dim + j) % 2 ^ 32) (c + numberOfSetBits tmp)
  let tmp := x ||| y
  let t ← readArray (entries dim) s.totalNeighbors ((i * dim + j) % 2 ^ 32)
  let total ← writeArray (entries dim) s.totalNeighbors ((i * dim + j) % 2 ^ 32) (t + numberOfSetBits tmp)
  .ok ⟨common, total⟩

/-- The loop over `k`. -/
def countPair (i : Nat) (s : Counts) (j : Nat) : Except Fault Counts :=
  (forLoop 0 (dim / 8 / 4) 1).foldlM (addWord dim matrix i j) s

/-- The loop over `j`. -/
def countRow (s : Counts) (i : Nat) : Except Fault Counts :=
  (forLoop (i + 1) dim 1).foldlM (countPair dim matrix i) s

def countNeighbors (s : Counts) : Except Fault Counts := (forLoop 0 dim 1).foldlM (countRow dim matrix) s

/-! ### The second loop nest -/

/-- The value for two counts. -/
def indexOf (c t : BitVec 32) : R.Value :=
  if c = 0 ∧ t = 0 then R.minusOne else R.div (R.ofUnsigned c) (R.ofUnsigned t)

/-- The body of the loop over `j`. -/
def indexPair (s : Counts) (i : Nat) (result : Nat → R.Value) (j : Nat) : Except Fault (Nat → R.Value) := do
  let c ← readArray (entries dim) s.commonNeighbors ((i * dim + i + 1 + j) % 2 ^ 32)
  let t ← readArray (entries dim) s.totalNeighbors ((i * dim + i + 1 + j) % 2 ^ 32)
  writeArray (entries dim) result ((i * dim + j) % 2 ^ 32) (indexOf R c t)

/-- The loop over `j`. -/
def indexRow (s : Counts) (result : Nat → R.Value) (i : Nat) : Except Fault (Nat → R.Value) :=
  (forLoop (i + 1) dim 1).foldlM (indexPair R dim s i) result

def computeIndices (s : Counts) (result : Nat → R.Value) : Except Fault (Nat → R.Value) :=
  (forLoop 0 dim 1).foldlM (indexRow R dim s) result

/-- `main` after the matrix has been filled. -/
def main : Except Fault (Counts × (Nat → R.Value)) := do
  let s ← countNeighbors dim matrix ⟨fun _ => 0, fun _ => 0⟩
  let result ← computeIndices R dim s fun _ => R.zero
  .ok (s, result)

end MimdramLean.MatchingIndex

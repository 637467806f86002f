import Mathlib.Data.Nat.Bitwise
import Mathlib.Data.BitVec

/-!
# Single bits of a 64-bit mask

`bits` and `replaceBits` of a bit field header, at one position, as operations on `BitVec 64`.
-/

namespace MimdramLean.Library

/-- Bit `i` of `val`, right justified: `bits(val, i, i)`. -/
def bitAt (val : BitVec 64) (i : Nat) : BitVec 64 := (val >>> i) &&& 1

/-- `val` with bit `i` set: `replaceBits(val, i, i, 1)`. -/
def setBit (val : BitVec 64) (i : Nat) : BitVec 64 :=
  let bmask := 1#64 <<< i
  ((1#64 <<< i) &&& bmask) ||| (val &&& ~~~bmask)

lemma bitAt_ne_zero_iff (val : BitVec 64) (i : Nat) :
    bitAt val i ≠ 0 ↔ val.getLsbD i = true := by
  unfold bitAt
  rw [← not_iff_not, not_not, Bool.not_eq_true]
  constructor
  · intro h
    have h0 := congrArg (fun v => BitVec.getLsbD v 0) h
    simpa [BitVec.getLsbD_ushiftRight] using h0
  · intro h
    apply BitVec.eq_of_getLsbD_eq
    intro j _
    by_cases hj : j = 0
    · subst hj
      simpa [BitVec.getLsbD_ushiftRight] using h
    · simp [BitVec.getLsbD_one, hj]

lemma getLsbD_oneShift (i j : Nat) (hi : i < 64) :
    (1#64 <<< i).getLsbD j = decide (j = i) := by
  simp only [BitVec.getLsbD_shiftLeft, BitVec.getLsbD_one]
  by_cases hj : j = i
  · subst hj
    simp [hi]
  · by_cases hlt : j < i
    · simp [hj, hlt]
    · have hne : j - i ≠ 0 := by omega
      simp [hj, hne]

lemma getLsbD_setBit (val : BitVec 64) (i j : Nat) (hi : i < 64) :
    (setBit val i).getLsbD j = (decide (j = i) || val.getLsbD j) := by
  unfold setBit
  simp only [BitVec.getLsbD_or, BitVec.getLsbD_and, BitVec.getLsbD_not, getLsbD_oneShift i j hi]
  by_cases hj : j = i
  · simp [hj]
  · by_cases hlt : j < 64
    · simp [hj, hlt]
    · have hv : val.getLsbD j = false := BitVec.getLsbD_of_ge val j (by omega)
      simp [hj, hv]

end MimdramLean.Library

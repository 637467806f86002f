import Mathlib.Data.BitVec

/-!
# Leading bits

Masks that select the leading bits of a word, and words that agree on them.
-/

namespace MimdramLean.Library

variable {w : Nat}

/-- The `n` leading bits of a word. -/
def leadingMask (w n : Nat) : BitVec w := BitVec.allOnes w <<< (w - n)

/-- The words have the same `n` leading bits. -/
def AgreeTo (n : Nat) (a b : BitVec w) : Prop := ∀ i < n, a.getMsbD i = b.getMsbD i

lemma getMsbD_leadingMask {n : Nat} (hn : n ≤ w) (i : Nat) : (leadingMask w n).getMsbD i = decide (i < n) := by
  rw [leadingMask, BitVec.getMsbD_shiftLeft, BitVec.getMsbD_allOnes]
  exact decide_eq_decide.mpr (by omega)

namespace AgreeTo

variable {m n : Nat} {a b c : BitVec w}

lemma refl (n : Nat) (a : BitVec w) : AgreeTo n a a := fun _ _ => rfl

lemma symm (h : AgreeTo n a b) : AgreeTo n b a := fun i hi => (h i hi).symm

lemma trans (h : AgreeTo n a b) (h' : AgreeTo n b c) : AgreeTo n a c := fun i hi => (h i hi).trans (h' i hi)

lemma mono (h : AgreeTo n a b) (hm : m ≤ n) : AgreeTo m a b := fun i hi => h i (by omega)

lemma zero (a b : BitVec w) : AgreeTo 0 a b := fun _ hi => absurd hi (Nat.not_lt_zero _)

lemma succ_iff : AgreeTo (n + 1) a b ↔ AgreeTo n a b ∧ a.getMsbD n = b.getMsbD n := by
  constructor
  · intro h
    exact ⟨h.mono (by omega), h n (by omega)⟩
  · rintro ⟨h, hn⟩ i hi
    rcases Nat.lt_succ_iff_lt_or_eq.mp hi with hi | rfl
    · exact h i hi
    · exact hn

end AgreeTo

lemma and_leadingMask_eq_iff {n : Nat} (hn : n ≤ w) {a b : BitVec w} :
    a &&& leadingMask w n = b &&& leadingMask w n ↔ AgreeTo n a b := by
  constructor
  · intro h i hi
    have hbit := congrArg (fun x => x.getMsbD i) h
    simpa [BitVec.getMsbD_and, getMsbD_leadingMask hn, hi] using hbit
  · intro h
    apply BitVec.eq_of_getMsbD_eq
    intro i _
    simp only [BitVec.getMsbD_and, getMsbD_leadingMask hn]
    by_cases hi : i < n
    · rw [h i hi]
    · simp [hi]

/-- A word without bits after the first `n`. -/
lemma agreeTo_and_leadingMask {n : Nat} (hn : n ≤ w) (a : BitVec w) : AgreeTo n (a &&& leadingMask w n) a :=
  (and_leadingMask_eq_iff hn).mp (by rw [BitVec.and_assoc, BitVec.and_self])

lemma leadingMask_and {m n : Nat} (hm : m ≤ w) (hn : n ≤ w) :
    leadingMask w m &&& leadingMask w n = leadingMask w (min m n) := by
  apply BitVec.eq_of_getMsbD_eq
  intro i _
  rw [BitVec.getMsbD_and, getMsbD_leadingMask hm, getMsbD_leadingMask hn, getMsbD_leadingMask (by omega),
    ← Bool.decide_and]
  exact decide_eq_decide.mpr (by omega)

lemma leadingMask_inj {m n : Nat} (hm : m ≤ w) (hn : n ≤ w) : leadingMask w m = leadingMask w n ↔ m = n := by
  refine ⟨fun h => ?_, fun h => h ▸ rfl⟩
  have hbit : ∀ i, decide (i < m) = decide (i < n) := fun i => by
    rw [← getMsbD_leadingMask hm, ← getMsbD_leadingMask hn, h]
  have h1 := decide_eq_decide.mp (hbit m)
  have h2 := decide_eq_decide.mp (hbit n)
  omega

/-- A mask selects no bits that another one leaves out. -/
lemma leadingMask_and_eq_iff {m n : Nat} (hm : m ≤ w) (hn : n ≤ w) :
    leadingMask w m &&& leadingMask w n = leadingMask w m ↔ m ≤ n := by
  rw [leadingMask_and hm hn, leadingMask_inj (by omega) hm]
  omega

@[simp]
lemma leadingMask_zero : leadingMask w 0 = 0#w := by
  apply BitVec.eq_of_getMsbD_eq
  intro i _
  rw [getMsbD_leadingMask (Nat.zero_le _)]
  simp

@[simp]
lemma leadingMask_self : leadingMask w w = BitVec.allOnes w := by simp [leadingMask]

/-- A mask, itself moved by one place, and the first bit: one more bit is selected. -/
lemma leadingMask_succ {n : Nat} (hw : 0 < w) (hn : n ≤ w) :
    leadingMask w n ||| leadingMask w n >>> 1 ||| BitVec.twoPow w (w - 1) = leadingMask w (min (n + 1) w) := by
  apply BitVec.eq_of_getMsbD_eq
  intro i hi
  simp only [BitVec.getMsbD_or, BitVec.getMsbD_ushiftRight, BitVec.getMsbD_twoPow, getMsbD_leadingMask hn,
    getMsbD_leadingMask (Nat.min_le_right _ _)]
  rw [Bool.eq_iff_iff]
  simp
  omega

end MimdramLean.Library

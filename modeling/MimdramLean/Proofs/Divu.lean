import MimdramLean.Microprograms
import MimdramLean.Proofs.Passes

/-!
# The division microprogram

`16_divu-plus.c` is a restoring divider. Pass `j` brings down bit `j` of the dividend into `rest[j]`,
compares `rest[j..]` with the whole divisor, and subtracts the divisor if it fits. The remainder so
far is always in `rest[j..]`, below which the bits of the dividend have not been looked at.
-/

namespace MimdramLean.Proofs

open Library Divu

variable (pair : Bool → Bool → Bool)

/-! ### The steps of one position -/

lemma run_bringDown_data (s : LaneState Vec) (j : Nat) : (s.run pair (bringDown j)).data =
    Function.update s.data (.rest j) (s.data (.vals1 j)) := by
  simp [bringDown, LaneState.run_cons]

lemma run_compareBit (s : LaneState Vec) (j k : Nat) :
    (s.run pair (compareBit j k)).data = s.data ∧
    (s.run pair (compareBit j k)).bgroup.t1 =
      maj (s.data (.rest (j + k))) (!s.data (.vals2 k)) s.bgroup.t1 := by
  simp [compareBit, LaneState.run_cons, maj_rotate (!s.data (.vals2 k))]

lemma run_comparePair (s : LaneState Vec) (k : Nat) :
    (s.run pair (comparePair k)).data = s.data ∧
    (s.run pair (comparePair k)).bgroup.t1 =
      maj false (!s.data (.vals2 (k + 1))) (maj false (!s.data (.vals2 k)) s.bgroup.t1) := by
  simp [comparePair, LaneState.run_cons, maj_false_left]

lemma run_selectPair_data (s : LaneState Vec) (k : Nat) : (s.run pair (selectPair k)).data =
    Function.update (Function.update s.data (.tmp k) (s.data .m && s.data (.vals2 k)))
      (.tmp (k + 1)) (s.data .m && s.data (.vals2 (k + 1))) := by
  simp [selectPair, LaneState.run_cons, maj_rotate, maj_false_left]

/-! ### Step 2: the comparison -/

/-- `rest[j..]`, with zeros above. -/
def restWindow (s : LaneState Vec) (colLength j k : Nat) : Bool :=
  if k < colLength - j then s.data (.rest (j + k)) else false

lemma value_restWindow (s : LaneState Vec) (colLength j : Nat) :
    value (restWindow s colLength j) colLength = value (fun k => s.data (.rest (j + k))) (colLength - j) := by
  rw [← value_extend (fun k => s.data (.rest (j + k))) (Nat.sub_le colLength j)]
  rfl

/-- The low `k` positions have been compared; the outcome so far is in `B_T1`. -/
structure Compared (s : LaneState Vec) (colLength j k : Nat) (t : LaneState Vec) : Prop where
  data : t.data = s.data
  carry : t.bgroup.t1 = carries (restWindow s colLength j) (fun k => !s.data (.vals2 k)) true k

lemma Compared.compareBit {s t : LaneState Vec} {colLength j k : Nat} (hk : k < colLength - j)
    (h : Compared s colLength j k t) : Compared s colLength j (k + 1) (t.run pair (compareBit j k)) := by
  obtain ⟨hdata, hcarry⟩ := run_compareBit pair t j k
  refine ⟨hdata.trans h.data, ?_⟩
  rw [hcarry, h.data, h.carry, carries, restWindow, if_pos hk]

lemma Compared.comparePair {s t : LaneState Vec} {colLength j k : Nat} (hk : colLength - j ≤ k)
    (h : Compared s colLength j k t) : Compared s colLength j (k + 2) (t.run pair (comparePair k)) := by
  obtain ⟨hdata, hcarry⟩ := run_comparePair pair t k
  refine ⟨hdata.trans h.data, ?_⟩
  rw [hcarry, h.data, h.carry, carries, carries, restWindow, restWindow, if_neg (by omega), if_neg (by omega)]

/-- The outcome of the whole comparison goes to `m`. -/
lemma run_compareLast_data {s t : LaneState Vec} {colLength j : Nat} (hj : j < colLength)
    (h : Compared s colLength j (colLength - j + 2 * (j / 2)) t) :
    (t.run pair (compareLast colLength j)).data = Function.update s.data .m
      (carries (restWindow s colLength j) (fun k => !s.data (.vals2 k)) true colLength) := by
  by_cases hodd : j % 2 = 1
  · have hlast : colLength - j + 2 * (j / 2) = colLength - 1 := by omega
    have hcarry := h.carry
    rw [hlast] at hcarry
    have hn : colLength = colLength - 1 + 1 := by omega
    nth_rewrite 3 [hn]
    rw [carries, restWindow, if_neg (by omega), ← hcarry, maj_false_left]
    simp [compareLast, hodd, LaneState.run_cons, h.data]
  · have hlast : colLength - j + 2 * (j / 2) = colLength := by omega
    rw [hlast] at h
    rw [← h.carry]
    simp [compareLast, hodd, LaneState.run_cons, h.data]

lemma run_compare_data (s : LaneState Vec) {colLength j : Nat} (hj : j < colLength) :
    (s.run pair (Divu.compare colLength j)).data = Function.update s.data .m
      (carries (restWindow s colLength j) (fun k => !s.data (.vals2 k)) true colLength) := by
  simp only [Divu.compare, LaneState.run_append]
  apply run_compareLast_data pair hj
  have hbits : Compared s colLength j (colLength - j) ((s.run pair [.aap (.b .t1) (.c true)]).run pair
      ((forLoop 0 (colLength - j) 1).flatMap (compareBit j))) := by
    apply forLoop_one_rule (Compared s colLength j) (Nat.zero_le _)
    · exact ⟨rfl, rfl⟩
    · intro k t _ hk ht
      exact ht.compareBit pair hk
  have hend : colLength - j + 2 * (j / 2) =
      colLength - j + 2 * ((colLength - 1 - (colLength - j) + 2 - 1) / 2) := by omega
  rw [hend]
  exact forLoop_rule (Compared s colLength j) Nat.two_pos hbits fun k t hk _ ht => ht.comparePair pair hk

/-! ### Step 4: the selection -/

/-- `tmp[0..k-1]` is the divisor if it fits, and zero if not. -/
structure Selected (s : LaneState Vec) (k : Nat) (t : LaneState Vec) : Prop where
  tmp : ∀ i < k, t.data (.tmp i) = (s.data .m && s.data (.vals2 i))
  frame : ∀ v, (∀ i, v ≠ .tmp i) → t.data v = s.data v

lemma Selected.selectPair {s t : LaneState Vec} {k : Nat} (h : Selected s k t) :
    Selected s (k + 2) (t.run pair (selectPair k)) := by
  have hm := h.frame .m (by simp)
  have hv2 := fun i => h.frame (.vals2 i) (by simp)
  constructor
  · intro i hi
    rw [run_selectPair_data, hm, hv2, hv2]
    by_cases h1 : i = k + 1
    · rw [h1, Function.update_self]
    · rw [Function.update_of_ne (by simpa using h1)]
      by_cases h0 : i = k
      · rw [h0, Function.update_self]
      · rw [Function.update_of_ne (by simpa using h0), h.tmp i (by omega)]
  · intro v hv
    rw [run_selectPair_data, Function.update_of_ne (hv _), Function.update_of_ne (hv _), h.frame v hv]

lemma run_select {s : LaneState Vec} {colLength j : Nat} (hj : j < colLength) :
    Selected s (colLength - j) (s.run pair (select colLength j)) := by
  have hpairs : Selected s (0 + 2 * ((colLength - j - 1 - 0 + 2 - 1) / 2))
      (s.run pair ((forLoop 0 (colLength - j - 1) 2).flatMap selectPair)) := by
    apply forLoop_rule (Selected s) Nat.two_pos
    · exact ⟨fun i hi => absurd hi (by omega), fun _ _ => rfl⟩
    · intro k t _ _ ht
      exact ht.selectPair pair
  rw [select, LaneState.run_append]
  generalize s.run pair ((forLoop 0 (colLength - j - 1) 2).flatMap selectPair) = t at hpairs ⊢
  by_cases hodd : (colLength - j) % 2 = 1
  · have hend : 0 + 2 * ((colLength - j - 1 - 0 + 2 - 1) / 2) = colLength - j - 1 := by omega
    rw [hend] at hpairs
    have hlast : (t.run pair (selectLast colLength j)).data = Function.update t.data
        (.tmp (colLength - j - 1)) (t.data .m && t.data (.vals2 (colLength - j - 1))) := by
      simp [selectLast, hodd, LaneState.run_cons, maj_false_left]
    constructor
    · intro i hi
      rw [hlast, hpairs.frame .m (by simp), hpairs.frame (.vals2 _) (by simp)]
      by_cases heq : i = colLength - j - 1
      · rw [heq, Function.update_self]
      · rw [Function.update_of_ne (by simpa using heq), hpairs.tmp i (by omega)]
    · intro v hv
      rw [hlast, Function.update_of_ne (hv _), hpairs.frame v hv]
  · have hend : 0 + 2 * ((colLength - j - 1 - 0 + 2 - 1) / 2) = colLength - j := by omega
    rw [hend] at hpairs
    simpa [selectLast, hodd] using hpairs

/-! ### Step 5: the subtraction -/

lemma rippled_subtract (s : LaneState Vec) (colLength j : Nat) :
    Rippled s (fun i => s.data (.rest (j + i))) (fun i => !s.data (.tmp i)) true
      (fun i => .rest (j + i)) BGroup.dcc0 (colLength - j) (s.run pair (subtract colLength j)) := by
  rw [subtract, LaneState.run_append]
  have h := rippled_subtractPass pair (s.run pair [.aap (.b .dcc0) (.c true)]) (fun i => .rest (j + i)) .tmp
    (fun i => .rest (j + i)) (colLength - j) (fun i k hik => by simpa using hik) (fun k i hi => by simp; omega)
    (by simp)
  exact ⟨h.carry_eq, h.sum_eq, h.frame⟩

/-! ### One pass -/

/-- The remainder with the next bit of the dividend brought down. -/
def broughtDown (s : LaneState Vec) (colLength j : Nat) : Nat :=
  2 * value (fun k => s.data (.rest (j + 1 + k))) (colLength - (j + 1)) + (s.data (.vals1 j)).toNat

def divisor (s : LaneState Vec) (colLength : Nat) : Nat := value (fun k => s.data (.vals2 k)) colLength

/-- What pass `j` does. -/
structure Passed (s : LaneState Vec) (colLength j : Nat) (t : LaneState Vec) : Prop where
  vals1 : ∀ k, t.data (.vals1 k) = s.data (.vals1 k)
  vals2 : ∀ k, t.data (.vals2 k) = s.data (.vals2 k)
  quotient : ∀ k, t.data (.output k) = if k = j then decide (divisor s colLength ≤ broughtDown s colLength j)
    else s.data (.output k)
  remainder : value (fun k => t.data (.rest (j + k))) (colLength - j) = broughtDown s colLength j -
    if divisor s colLength ≤ broughtDown s colLength j then divisor s colLength else 0

/-- After step 1, `rest[j..]` holds the number that is compared with the divisor. -/
lemma value_rest_bringDown (s : LaneState Vec) {colLength j : Nat} (hj : j < colLength) :
    value (fun k => (s.run pair (bringDown j)).data (.rest (j + k))) (colLength - j) =
      broughtDown s colLength j := by
  rw [value_window (fun k => (s.run pair (bringDown j)).data (.rest k)) hj, run_bringDown_data,
    Function.update_self, broughtDown]
  congr 2
  apply value_congr
  intro k _
  rw [Function.update_of_ne (by simp; omega)]

/-- Steps 1 to 3: the next bit is brought down, and `m` and the quotient bit say whether the divisor fits. -/
lemma run_bringDownCompare_data (s : LaneState Vec) {colLength j : Nat} (hj : j < colLength) :
    (((s.run pair (bringDown j)).run pair (Divu.compare colLength j)).run pair
        [.aap (.vec (.output j)) (.vec .m)]).data =
      Function.update (Function.update (Function.update s.data (.rest j) (s.data (.vals1 j)))
        .m (decide (divisor s colLength ≤ broughtDown s colLength j)))
        (.output j) (decide (divisor s colLength ≤ broughtDown s colLength j)) := by
  have hw := value_rest_bringDown pair s hj
  have h1 := run_bringDown_data pair s j
  generalize s.run pair (bringDown j) = s1 at hw h1 ⊢
  have hdiv : divisor s1 colLength = divisor s colLength := by
    apply value_congr
    intro k _
    rw [h1, Function.update_of_ne (by simp)]
  have hfits : carries (restWindow s1 colLength j) (fun k => !s1.data (.vals2 k)) true colLength =
      decide (divisor s colLength ≤ broughtDown s colLength j) := by
    rw [Bool.eq_iff_iff, carries_not_eq_true, value_restWindow, hw, decide_eq_true_iff, ← hdiv, divisor]
  have h2 := run_compare_data pair s1 hj
  rw [hfits, h1] at h2
  simp [LaneState.run_cons, h2]

/-- Steps 4 and 5: the divisor is subtracted from the remainder if it fits. -/
lemma run_selectSubtract {s : LaneState Vec} {colLength j w : Nat} (hj : j < colLength)
    (hw : value (fun k => s.data (.rest (j + k))) (colLength - j) = w)
    (hm : s.data .m = decide (divisor s colLength ≤ w)) :
    let t := (s.run pair (select colLength j)).run pair (subtract colLength j)
    (∀ v, (∀ i, v ≠ .rest i) → (∀ i, v ≠ .tmp i) → t.data v = s.data v) ∧
    value (fun k => t.data (.rest (j + k))) (colLength - j) =
      w - if divisor s colLength ≤ w then divisor s colLength else 0 := by
  intro t
  have h4 : Selected s (colLength - j) (s.run pair (select colLength j)) := run_select pair hj
  have h5 := rippled_subtract pair (s.run pair (select colLength j)) colLength j
  change Rippled _ _ _ _ _ _ _ t at h5
  generalize s.run pair (select colLength j) = u at h4 h5
  refine ⟨fun v hrest htmp => (h5.frame v fun i _ => hrest _).trans (h4.frame v htmp), ?_⟩
  have hrest : value (fun k => u.data (.rest (j + k))) (colLength - j) = w := by
    rw [← hw]
    apply value_congr
    intro k _
    rw [h4.frame _ (by simp)]
  have htmp : value (fun k => u.data (.tmp k)) (colLength - j) =
      if divisor s colLength ≤ w then divisor s colLength else 0 := by
    rw [divisor, ← value_selected (Nat.sub_le colLength j) (hw ▸ value_lt _ _)]
    apply value_congr
    intro k hk
    rw [h4.tmp k hk, hm, divisor]
  have hsum : value (fun k => t.data (.rest (j + k))) (colLength - j) =
      value (sums (fun i => u.data (.rest (j + i))) (fun i => !u.data (.tmp i)) true) (colLength - j) :=
    value_congr h5.sum_eq
  have hle : value (fun k => u.data (.tmp k)) (colLength - j) ≤
      value (fun k => u.data (.rest (j + k))) (colLength - j) := by
    rw [hrest, htmp]
    split <;> omega
  rw [hsum, sums_not_value _ _ _ hle, hrest, htmp]

lemma run_pass (s : LaneState Vec) {colLength j : Nat} (hj : j < colLength) :
    Passed s colLength j (s.run pair (pass colLength j)) := by
  simp only [Divu.pass, LaneState.run_append]
  have h3 := run_bringDownCompare_data pair s hj
  generalize ((s.run pair (bringDown j)).run pair (Divu.compare colLength j)).run pair
    [.aap (.vec (.output j)) (.vec .m)] = u at h3 ⊢
  have hdiv : divisor u colLength = divisor s colLength := value_congr fun k _ => by simp [h3]
  have hrest : value (fun k => u.data (.rest (j + k))) (colLength - j) = broughtDown s colLength j := by
    rw [← value_rest_bringDown pair s hj]
    apply value_congr
    intro k _
    simp [h3, run_bringDown_data]
  have hm : u.data .m = decide (divisor u colLength ≤ broughtDown s colLength j) := by simp [h3, hdiv]
  obtain ⟨hframe, hremainder⟩ := run_selectSubtract pair hj hrest hm
  rw [hdiv] at hremainder
  refine ⟨?_, ?_, ?_, hremainder⟩
  · intro k
    simp [hframe, h3]
  · intro k
    simp [hframe, h3]
  · intro k
    by_cases hk : k = j <;> simp [hframe, h3, hk]

/-! ### The program -/

/-- The passes for bits `j` and up have been made. -/
structure Divided (s : LaneState Vec) (colLength j : Nat) (t : LaneState Vec) : Prop where
  vals1 : ∀ k, t.data (.vals1 k) = s.data (.vals1 k)
  vals2 : ∀ k, t.data (.vals2 k) = s.data (.vals2 k)
  quotient : 0 < divisor s colLength → value (fun k => t.data (.output (j + k))) (colLength - j) =
    value (fun k => s.data (.vals1 (j + k))) (colLength - j) / divisor s colLength
  remainder : 0 < divisor s colLength → value (fun k => t.data (.rest (j + k))) (colLength - j) =
    value (fun k => s.data (.vals1 (j + k))) (colLength - j) % divisor s colLength
  byZero : divisor s colLength = 0 → ∀ k, j ≤ k → k < colLength → t.data (.output k) = true

lemma Divided.pass {s t : LaneState Vec} {colLength j : Nat} (hj : j < colLength)
    (h : Divided s colLength (j + 1) t) : Divided s colLength j (t.run pair (pass colLength j)) := by
  have hp := run_pass pair t hj
  generalize t.run pair (Divu.pass colLength j) = u at hp ⊢
  have hdiv : divisor t colLength = divisor s colLength := value_congr fun k _ => h.vals2 k
  have hdown : 0 < divisor s colLength → broughtDown t colLength j =
      2 * (value (fun k => s.data (.vals1 (j + 1 + k))) (colLength - (j + 1)) % divisor s colLength) +
        (s.data (.vals1 j)).toNat := by
    intro hpos
    rw [broughtDown, h.remainder hpos, h.vals1]
  have hstep := fun hpos : 0 < divisor s colLength => long_division_step
    (a := value (fun k => s.data (.vals1 (j + 1 + k))) (colLength - (j + 1))) hpos
    (Bool.toNat_le (s.data (.vals1 j)))
  constructor
  · exact fun k => (hp.vals1 k).trans (h.vals1 k)
  · exact fun k => (hp.vals2 k).trans (h.vals2 k)
  · intro hpos
    have htail : value (fun k => u.data (.output (j + 1 + k))) (colLength - (j + 1)) =
        value (fun k => t.data (.output (j + 1 + k))) (colLength - (j + 1)) := by
      apply value_congr
      intro k _
      rw [hp.quotient, if_neg (by omega)]
    rw [value_window (fun k => u.data (.output k)) hj, value_window (fun k => s.data (.vals1 k)) hj, htail, h.quotient hpos,
      (hstep hpos).1, hp.quotient, if_pos rfl, hdiv, hdown hpos]
    congr 1
    split <;> simp [*]
  · intro hpos
    rw [hp.remainder, hdiv, hdown hpos, value_window (fun k => s.data (.vals1 k)) hj, (hstep hpos).2]
  · intro hzero k hle hlt
    rw [hp.quotient, hdiv, hzero]
    split
    · simp
    · exact h.byZero hzero k (by omega) hlt

/-- The microprogram divides: for numbers of any width and any content of the B-group, of the
scratch vectors and of `output`, it leaves quotient and remainder, or ones if the divisor is zero,
and the operands stay. -/
theorem divu_body_divides (s : LaneState Vec) (colLength : Nat) :
    let t := s.run pair (body colLength)
    let a := value (fun k => s.data (.vals1 k)) colLength
    let b := value (fun k => s.data (.vals2 k)) colLength
    (b ≠ 0 → value (fun k => t.data (.output k)) colLength = a / b ∧
      value (fun k => t.data (.rest k)) colLength = a % b) ∧
    (b = 0 → ∀ k < colLength, t.data (.output k) = true) ∧
    (∀ k, t.data (.vals1 k) = s.data (.vals1 k)) ∧ ∀ k, t.data (.vals2 k) = s.data (.vals2 k) := by
  intro t a b
  have h : Divided s colLength 0 t := by
    apply forDown_rule (Divided s colLength)
    · refine ⟨fun _ => rfl, fun _ => rfl, ?_, ?_, ?_⟩
      · simp
      · simp
      · intro _ k hle hlt
        omega
    · intro j u hj hu
      exact hu.pass pair hj
  have hquot := h.quotient
  have hrem := h.remainder
  simp only [Nat.zero_add, Nat.sub_zero] at hquot hrem
  refine ⟨?_, fun hzero k hk => h.byZero hzero k (Nat.zero_le k) hk, h.vals1, h.vals2⟩
  intro hne
  exact ⟨hquot (Nat.pos_of_ne_zero hne), hrem (Nat.pos_of_ne_zero hne)⟩

end MimdramLean.Proofs

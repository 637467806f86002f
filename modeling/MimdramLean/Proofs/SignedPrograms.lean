import MimdramLean.Elementwise
import MimdramLean.Proofs.Passes

/-!
# Absolute value and ReLU

Both programs work on numbers in two's complement. The absolute value loses the operand before it takes
part in a majority and copies `B_T2` instead. ReLU clears the sign bit of the operand where it should clear
that of the output.
-/

namespace MimdramLean.Proofs

open Library

variable (pair : Bool → Bool → Bool)

/-! ### The bits of an absolute value -/

section AbsBits

variable (v : Nat → Bool) (sign t2 : Bool)

/-- The carry into position `k` when a number is negated if `sign` says so. -/
def negCarry : Nat → Bool
  | 0 => sign
  | k + 1 => !v k && negCarry k

/-- The bits of the absolute value. -/
def absBit (k : Nat) : Bool := xor (xor (v k) sign) (negCarry v sign k)

/-- What `B_T2` holds before pass `k` of the second loop; a pass writes what it leaves there. -/
def absCell : Nat → Bool
  | 0 => t2
  | k + 1 => if sign && !negCarry v sign k then !v k else absCell k

lemma negCarry_of_nonneg (k : Nat) : negCarry v false k = false := by
  induction k with
  | zero => rfl
  | succ k ih => rw [negCarry, ih, Bool.and_false]

/-- Without a sign there is no carry, so that the two differ only for a negative number. -/
lemma xor_negCarry (k : Nat) : xor sign (negCarry v sign k) = (sign && !negCarry v sign k) := by
  cases sign with
  | false => rw [negCarry_of_nonneg]; rfl
  | true => rw [Bool.true_xor, Bool.true_and]

lemma negCarry_eq_carries (k : Nat) :
    negCarry v sign k = carries (fun k => xor (v k) sign) (fun _ => false) sign k := by
  induction k with
  | zero => rfl
  | succ k ih =>
    rw [carries, ← ih, negCarry]
    cases sign with
    | false => simp [negCarry_of_nonneg, maj]
    | true => simp [maj]

lemma absBit_eq_sums (k : Nat) : absBit v sign k = sums (fun k => xor (v k) sign) (fun _ => false) sign k := by
  rw [absBit, sums, negCarry_eq_carries, Bool.xor_false]

lemma absBit_of_nonneg (k : Nat) : absBit v false k = v k := by
  rw [absBit, negCarry_of_nonneg, Bool.xor_false, Bool.xor_false]

lemma value_absBit (n : Nat) :
    (value (absBit v (v (n - 1))) n : Int) = |signedValue v n| % 2 ^ n := by
  have hpow : (value v n : Int) < 2 ^ n := by exact_mod_cast value_lt v n
  rw [signedValue]
  cases v (n - 1) with
  | false =>
    have hbits : value (absBit v false) n = value v n := value_congr fun k _ => absBit_of_nonneg v k
    rw [hbits, if_neg Bool.false_ne_true, sub_zero, Nat.abs_cast, Int.emod_eq_of_lt (Int.natCast_nonneg _) hpow]
  | true =>
    have hsum := sums_value (fun k => !v k) (fun _ => false) true n
    have habs : value (absBit v true) n = value (sums (fun k => !v k) (fun _ => false) true) n := by
      apply value_congr
      intro k _
      simp only [absBit_eq_sums, Bool.xor_true]
    have hnot := value_not v n
    rw [← habs, value_false, Bool.toNat_true] at hsum
    have heq : |(value v n : Int) - 2 ^ n| =
        value (absBit v true) n + 2 ^ n * (carries (fun k => !v k) (fun _ => false) true n).toNat := by
      rw [abs_of_neg (by linarith)]
      zify at hsum hnot
      linarith
    have hlt := value_lt (absBit v true) n
    rw [if_pos rfl, heq, Int.add_mul_emod_self_left, Int.emod_eq_of_lt (Int.natCast_nonneg _)]
    exact_mod_cast hlt

variable {v sign t2}

/-- A negative number whose low bits are zeros up to position `k`, if the loop has been right so far. -/
lemma negCarry_of_right {n k : Nat} (hsign : sign = true) (hv0 : v 0 = false) (ht2 : t2 = v 0)
    (hright : ∀ k < n, absCell v sign t2 (k + 1) = absBit v sign k) (hk : k < n) :
    v k = false ∧ negCarry v sign k = true ∧ absCell v sign t2 k = false := by
  -- with a carry the pass keeps `B_T2`, so that the bit of the operand has to be the one that is there
  have hbit : ∀ k < n, negCarry v sign k = true → v k = absCell v sign t2 k := by
    intro k hk hc
    have h := hright k hk
    rw [absCell, absBit, hc, hsign] at h
    simpa [hsign] using h.symm
  induction k with
  | zero => exact ⟨hv0, hsign, ht2.trans hv0⟩
  | succ k ih =>
    obtain ⟨hvk, hc, hcell⟩ := ih (by omega)
    have hc' : negCarry v sign (k + 1) = true := by rw [negCarry, hvk, hc]; rfl
    have hcell' : absCell v sign t2 (k + 1) = false := by
      rw [absCell, hc]
      simpa using hcell
    exact ⟨(hbit (k + 1) hk hc').trans hcell', hc', hcell'⟩

/-- For a number that is not negative the second loop writes what `B_T2` held at the start. -/
lemma absCell_right_iff_of_nonneg {n : Nat} (hn : 1 ≤ n) (hsign : v (n - 1) = false) :
    (∀ k < n, absCell v false t2 (k + 1) = absBit v false k) ↔ (∀ k < n, v k = false) ∧ t2 = false := by
  have hcell : ∀ k, absCell v false t2 k = t2 := by
    intro k
    induction k with
    | zero => rfl
    | succ k ih => simpa [absCell] using ih
  simp only [hcell, absBit_of_nonneg]
  constructor
  · intro h
    have ht2 : t2 = false := (h (n - 1) (by omega)).trans hsign
    exact ⟨fun k hk => (h k hk).symm.trans ht2, ht2⟩
  · rintro ⟨hv, ht2⟩ k hk
    rw [ht2, hv k hk]

/-- For a negative number it is right if bit 0 stops the carry. -/
lemma absCell_right_iff_of_neg {n : Nat} (hn : 1 ≤ n) (hsign : v (n - 1) = true) :
    (∀ k < n, absCell v true t2 (k + 1) = absBit v true k) ↔ v 0 = true ∧ t2 = true := by
  constructor
  · intro h
    have ht2 : t2 = v 0 := by simpa [absCell, absBit, negCarry] using h 0 (by omega)
    cases hv0 : v 0 with
    | true => exact ⟨rfl, ht2.trans hv0⟩
    | false =>
      have hlast := (negCarry_of_right rfl hv0 ht2 h (k := n - 1) (by omega)).1
      rw [hsign] at hlast
      cases hlast
  · rintro ⟨hv0, ht2⟩ k _
    have hcarry : ∀ k, negCarry v true (k + 1) = false := by
      intro k
      induction k with
      | zero => rw [negCarry, hv0]; rfl
      | succ k ih => rw [negCarry, ih, Bool.and_false]
    cases k with
    | zero => simp [absCell, absBit, negCarry, hv0, ht2]
    | succ k =>
      rw [absCell, absBit, hcarry]
      simp

/-- What the second loop writes is the absolute value for 0 and for odd negative numbers, if `B_T2` held the
right bit at the start, and for no other number. -/
lemma absCell_right_iff {n : Nat} (hn : 1 ≤ n) :
    (∀ k < n, absCell v (v (n - 1)) t2 (k + 1) = absBit v (v (n - 1)) k) ↔
      ((∀ k < n, v k = false) ∧ t2 = false) ∨ (v (n - 1) = true ∧ v 0 = true ∧ t2 = true) := by
  cases hsign : v (n - 1) with
  | false =>
    rw [absCell_right_iff_of_nonneg hn hsign]
    simp only [Bool.false_eq_true, false_and, or_false]
  | true =>
    have hnot : ¬ ∀ k < n, v k = false := by
      intro h
      have hlast := h (n - 1) (by omega)
      rw [hsign] at hlast
      cases hlast
    rw [absCell_right_iff_of_neg hn hsign]
    simp only [hnot, false_and, false_or, true_and]

end AbsBits

/-! ### `50_abs-plus.c` -/

section Abs

variable (s : LaneState Abs.Vec)

lemma run_carryBit (k : Nat) :
    (s.run pair (Abs.carryBit k)).data =
      Function.update s.data (.carries (k + 1)) (!s.data (.vals k) && s.bgroup.t0) ∧
    ((s.run pair (Abs.carryBit k)).bgroup.t0, (s.run pair (Abs.carryBit k)).bgroup.t2) =
      (!s.data (.vals k) && s.bgroup.t0, s.bgroup.t2) := by
  simp [Abs.carryBit, LaneState.run_cons, maj]

/-- `B_T3` loses the operand before it takes part in a majority, so that the pass keeps `B_T2` unless the sign
and the carry differ. -/
lemma run_sumBit (m k : Nat) :
    let cell := if xor (s.data (.vals m)) (s.data (.carries k)) then !s.data (.vals k) else s.bgroup.t2
    (s.run pair (Abs.sumBit (.vec (.vals m)) k)).data = Function.update s.data (.output k) cell ∧
    (s.run pair (Abs.sumBit (.vec (.vals m)) k)).bgroup.t2 = cell := by
  have hmaj : ∀ sign c v t2 : Bool,
      maj (!v) (maj (!sign) c t2) (maj (!c) sign (maj (!sign) c t2)) = if xor sign c then !v else t2 := by decide
  simp [Abs.sumBit, LaneState.run_cons, hmaj]

lemma abs_carries (n : Nat) :
    let t := s.run pair ([.aap (.b .t0) (.vec (.vals (n - 1))), .aap (.vec (.carries 0)) (.b .t0)] ++
      (forLoop 0 (n - 1) 1).flatMap Abs.carryBit)
    (∀ k < n, t.data (.carries k) = negCarry (fun k => s.data (.vals k)) (s.data (.vals (n - 1))) k) ∧
      (∀ k, t.data (.vals k) = s.data (.vals k)) ∧ t.bgroup.t2 = s.bgroup.t2 := by
  intro t
  let v := fun k => s.data (.vals k)
  let s₀ := s.run pair [.aap (.b .t0) (.vec (.vals (n - 1))), .aap (.vec (.carries 0)) (.b .t0)]
  have hs₀ : s₀.data = Function.update s.data (.carries 0) (v (n - 1)) := by simp [s₀, LaneState.run_cons, v]
  have hvals : ∀ k, s₀.data (.vals k) = v k := by
    intro k
    rw [hs₀, Function.update_of_ne (by simp)]
  have h : Swept s₀ (fun k => .carries (k + 1)) (fun b => (b.t0, b.t2))
      (fun k => (negCarry v (v (n - 1)) k, s.bgroup.t2)) (fun k => negCarry v (v (n - 1)) (k + 1)) (n - 1) t := by
    apply sweep_loop
    · simp [s₀, LaneState.run_cons, negCarry, v]
    · intro i j hij
      simpa using hij
    · intro k _ u hu
      have hval : u.data (.vals k) = v k := (hu.frame _ (by simp)).trans (hvals k)
      have ht0 : u.bgroup.t0 = negCarry v (v (n - 1)) k := congrArg Prod.fst hu.cells
      have ht2 : u.bgroup.t2 = s.bgroup.t2 := congrArg Prod.snd hu.cells
      have hpass := run_carryBit pair u k
      rw [hval, ht0, ht2] at hpass
      exact hpass
  refine ⟨?_, ?_, congrArg Prod.snd h.cells⟩
  · intro k hk
    cases k with
    | zero => rw [h.frame _ (by simp), hs₀, Function.update_self]; rfl
    | succ k => exact h.written k (by omega)
  · intro k
    exact (h.frame _ (by simp)).trans (hvals k)

/-- The second loop writes what each pass leaves in `B_T2`. -/
lemma abs_sumLoop {s : LaneState Abs.Vec} {v : Nat → Bool} {n : Nat}
    (hcarries : ∀ k < n, s.data (.carries k) = negCarry v (v (n - 1)) k)
    (hvals : ∀ k, s.data (.vals k) = v k) :
    Swept s .output (fun b => b.t2) (absCell v (v (n - 1)) s.bgroup.t2)
      (fun k => absCell v (v (n - 1)) s.bgroup.t2 (k + 1)) n
      (s.run pair ((forLoop 0 n 1).flatMap (Abs.sumBit (.vec (.vals (n - 1)))))) := by
  apply sweep_loop
  · rfl
  · intro i j hij
    simpa using hij
  · intro k hk u hu
    have ht2 : u.bgroup.t2 = absCell v (v (n - 1)) s.bgroup.t2 k := hu.cells
    have hpass := run_sumBit pair u (n - 1) k
    rw [hu.frame _ (by simp), hu.frame _ (by simp), hu.frame _ (by simp), hvals, hvals, hcarries k hk, ht2,
      xor_negCarry] at hpass
    exact hpass

lemma abs_outputs (n : Nat) :
    let v := fun k => s.data (.vals k)
    let t := s.run pair (Abs.body n)
    (∀ k < n, t.data (.output k) = absCell v (v (n - 1)) s.bgroup.t2 (k + 1)) ∧
      ∀ k, t.data (.vals k) = v k := by
  intro v t
  obtain ⟨hcarries, hvals, ht2⟩ := abs_carries pair s n
  have h := abs_sumLoop (v := v) pair hcarries hvals
  rw [← LaneState.run_append, ht2] at h
  refine ⟨h.written, ?_⟩
  intro k
  exact (h.frame _ (by simp)).trans (hvals k)

end Abs

/-- `output` holds the absolute value, and the operand stays. -/
structure AbsLeft (s : LaneState Abs.Vec) (colLength : Nat) (t : LaneState Abs.Vec) : Prop where
  output : (value (fun k => t.data (.output k)) colLength : Int) =
    |signedValue (fun k => s.data (.vals k)) colLength| % 2 ^ colLength
  vals : ∀ k, t.data (.vals k) = s.data (.vals k)

/-- The body is right for 0 if `B_T2` holds a 0 at the start and for odd negative numbers if it holds a 1, and
for no other number. -/
theorem abs_right_iff (s : LaneState Abs.Vec) (colLength : Nat) (hlen : 1 ≤ colLength) :
    AbsLeft s colLength (s.run pair (Abs.body colLength)) ↔
      ((∀ k < colLength, s.data (.vals k) = false) ∧ s.bgroup.t2 = false) ∨
      (s.data (.vals (colLength - 1)) = true ∧ s.data (.vals 0) = true ∧ s.bgroup.t2 = true) := by
  obtain ⟨hout, hvals⟩ := abs_outputs pair s colLength
  rw [← absCell_right_iff hlen]
  have habs := value_absBit (fun k => s.data (.vals k)) colLength
  constructor
  · intro h k hk
    have heq := habs.trans h.output.symm
    rw [← hout k hk]
    exact (value_inj.mp (Int.natCast_inj.mp heq) k hk).symm
  · intro h
    refine ⟨?_, hvals⟩
    rw [← habs, Int.natCast_inj]
    apply value_congr
    intro k hk
    exact (hout k hk).trans (h k hk)

/-- A number of `vals`, with a bit that an earlier program may have left in `B_T2`. -/
def absLane (t2 : Bool) (m : Nat) : LaneState Abs.Vec where
  bgroup := ⟨false, false, t2, false, false, false⟩
  data
    | .vals k => m.testBit k
    | _ => false

theorem abs_of_minus_one : AbsLeft (absLane true 3) 2 ((absLane true 3).run and (Abs.body 2)) :=
  (abs_right_iff and (absLane true 3) 2 (by decide)).mpr (.inr ⟨rfl, rfl, rfl⟩)

/-- The absolute value of 1 comes out as 0. -/
theorem abs_of_one :
    value (fun k => ((absLane false 1).run and (Abs.body 2)).data (.output k)) 2 = 0 ∧
      ¬ AbsLeft (absLane false 1) 2 ((absLane false 1).run and (Abs.body 2)) := by
  have hout : value (fun k => ((absLane false 1).run and (Abs.body 2)).data (.output k)) 2 = 0 := by decide
  refine ⟨hout, ?_⟩
  intro h
  have habs := h.output
  rw [hout] at habs
  revert habs
  decide

/-! ### `51_relu-plus.c` -/

section Relu

variable (s : LaneState Relu.Vec)

/-- A bit of the operand, or a 0 for a negative number. -/
def reluBit (n k : Nat) : Bool := s.data (.vals k) && !s.data (.vals (n - 1))

/-- The rows below `k` of `output` hold their bits. -/
def Clipped (n k : Nat) (t : LaneState Relu.Vec) : Prop :=
  Swept (s.run pair [.aap (.b .dcc0n) (.vec (.vals (n - 1))), .aap (.vec .sign) (.b .dcc0)]) .output
    (fun _ => ()) (fun _ => ()) (reluBit s n) k t

lemma clipped_start (n : Nat) :
    Clipped pair s n 0 (s.run pair [.aap (.b .dcc0n) (.vec (.vals (n - 1))), .aap (.vec .sign) (.b .dcc0)]) :=
  ⟨rfl, fun i hi => absurd hi (by omega), fun _ _ => rfl⟩

variable {pair s}

lemma Clipped.sign {n k : Nat} {t : LaneState Relu.Vec} (h : Clipped pair s n k t) :
    t.data .sign = !s.data (.vals (n - 1)) := by
  rw [h.frame _ (by simp)]
  simp [LaneState.run_cons]

lemma Clipped.vals {n k : Nat} {t : LaneState Relu.Vec} (h : Clipped pair s n k t) (j : Nat) :
    t.data (.vals j) = s.data (.vals j) := by
  rw [h.frame _ (by simp)]
  simp [LaneState.run_cons]

lemma reluOutput_injective : Function.Injective Relu.Vec.output := by
  intro i j hij
  simpa using hij

lemma Clipped.pairBits {n k : Nat} {t : LaneState Relu.Vec} (h : Clipped pair s n k t) :
    Clipped pair s n (k + 2) (t.run pair (Relu.pairBits k)) := by
  have hfirst : Clipped pair s n (k + 1) ⟨t.bgroup, Function.update t.data (.output k) (reluBit s n k)⟩ :=
    h.next reluOutput_injective rfl rfl
  apply hfirst.next reluOutput_injective _ rfl
  simp [Relu.pairBits, LaneState.run_cons, reluBit, h.sign, h.vals]

/-- The second msb is written by the loop for an odd width and after it for an even one. -/
lemma Clipped.lastBit {n k : Nat} {t : LaneState Relu.Vec} (h : Clipped pair s n k t) (hk : n - 2 ≤ k)
    (hk' : k < n) (hn : 2 ≤ n) : Clipped pair s n (n - 1) (t.run pair (Relu.lastBit n k)) := by
  rw [Relu.lastBit]
  split
  · next heq =>
    have hnext : n - 1 = k + 1 := by omega
    rw [hnext]
    apply h.next reluOutput_injective _ rfl
    simp [LaneState.run_cons, reluBit, h.sign, h.vals, maj_rotate, maj_false_left]
  · next hne =>
    have hnext : n - 1 = k := by omega
    rw [hnext]
    exact h

variable (pair s)

lemma relu_clipped (n : Nat) (hn : 2 ≤ n) : ∃ t, Clipped pair s n (n - 1) t ∧
    (s.run pair (Relu.body n)).data = Function.update t.data (.vals (n - 1)) false := by
  have hloop : Clipped pair s n (forLoopEnd 0 (n - 2) 2)
      (LaneState.run pair _ ((forLoop 0 (n - 2) 2).flatMap Relu.pairBits)) :=
    forLoop_rule (Clipped pair s n) Nat.two_pos (clipped_start pair s n) fun k t _ _ h => h.pairBits
  refine ⟨_, hloop.lastBit ?_ ?_ hn, ?_⟩
  · rw [forLoopEnd]
    omega
  · rw [forLoopEnd]
    omega
  · simp [Relu.body, LaneState.run_append, LaneState.run_cons]

lemma relu_leaves (n : Nat) (hn : 2 ≤ n) :
    let t := s.run pair (Relu.body n)
    (∀ k < n - 1, t.data (.output k) = reluBit s n k) ∧
      t.data (.output (n - 1)) = s.data (.output (n - 1)) ∧
      t.data (.vals (n - 1)) = false ∧ ∀ k, k ≠ n - 1 → t.data (.vals k) = s.data (.vals k) := by
  intro t
  obtain ⟨u, hu, ht⟩ := relu_clipped pair s n hn
  simp only [t, ht]
  refine ⟨?_, ?_, Function.update_self .., ?_⟩
  · intro k hk
    rw [Function.update_of_ne (by simp), hu.written k hk]
  · rw [Function.update_of_ne (by simp), hu.frame _ (by simp; omega)]
    simp [LaneState.run_cons]
  · intro k hk
    rw [Function.update_of_ne (by simpa using hk), hu.vals]

lemma mem_relu_writes (n r : Nat) (hn : 2 ≤ n) :
    Relu.Vec.output r ∈ (Relu.body n).flatMap RowCommand.writes ↔ r < n - 1 := by
  have hloop : (∃ j, j ∈ forLoop 0 (n - 2) 2 ∧ (r = j ∨ r = j + 1)) ↔ r / 2 * 2 < n - 2 := by
    simp only [mem_forLoop Nat.two_pos]
    constructor
    · rintro ⟨j, ⟨i, rfl, hi⟩, hr⟩
      omega
    · intro h
      exact ⟨r / 2 * 2, ⟨r / 2, by omega, h⟩, by omega⟩
  have hlast : Relu.Vec.output r ∈ (Relu.lastBit n (forLoopEnd 0 (n - 2) 2)).flatMap RowCommand.writes ↔
      n % 2 = 0 ∧ r = n - 2 := by
    rw [Relu.lastBit, forLoopEnd]
    split
    · simp [RowCommand.writes]
      omega
    · simp
      omega
  have hpairs : Relu.Vec.output r ∈ ((forLoop 0 (n - 2) 2).flatMap Relu.pairBits).flatMap RowCommand.writes ↔
      r / 2 * 2 < n - 2 := by
    rw [← hloop, List.flatMap_assoc, List.mem_flatMap]
    simp [Relu.pairBits, RowCommand.writes]
  simp only [Relu.body, List.flatMap_append, List.mem_append, hlast, hpairs]
  simp only [RowCommand.writes, List.flatMap_cons, List.flatMap_nil]
  simp only [List.append_nil, List.mem_singleton, reduceCtorEq, false_or, or_false, List.nil_append]
  omega

end Relu

/-- `output` holds the number or 0, the operand stays, and a second run gives the same output. -/
structure ReluLeft (s : LaneState Relu.Vec) (colLength : Nat) (t t' : LaneState Relu.Vec) : Prop where
  output : (value (fun k => t.data (.output k)) colLength : Int) =
    max (signedValue (fun k => s.data (.vals k)) colLength) 0
  vals : ∀ k, t.data (.vals k) = s.data (.vals k)
  again : ∀ k < colLength, t'.data (.output k) = t.data (.output k)

/-- The last row of `output` is never written. The body is right if that row and the sign are 0 at the start,
and for no other lane. -/
theorem relu_right_iff (s : LaneState Relu.Vec) (colLength : Nat) (hlen : 2 ≤ colLength) :
    let t := s.run pair (Relu.body colLength)
    (∀ r, .output r ∈ (Relu.body colLength).flatMap RowCommand.writes ↔ r < colLength - 1) ∧
    (ReluLeft s colLength t (t.run pair (Relu.body colLength)) ↔
      s.data (.vals (colLength - 1)) = false ∧ s.data (.output (colLength - 1)) = false) := by
  intro t
  refine ⟨fun r => mem_relu_writes colLength r hlen, ?_⟩
  obtain ⟨hbits, hlast, hsign, hvals⟩ := relu_leaves pair s colLength hlen
  obtain ⟨hbits', hlast', -, -⟩ := relu_leaves pair t colLength hlen
  constructor
  · intro h
    have hpos : s.data (.vals (colLength - 1)) = false := (h.vals _).symm.trans hsign
    have hout := h.output
    rw [max_eq_left (signedValue_nonneg_iff.mpr hpos), signedValue_of_nonneg hpos, Int.natCast_inj] at hout
    have htop := value_inj.mp hout (colLength - 1) (by omega)
    exact ⟨hpos, hlast.symm.trans (htop.trans hpos)⟩
  · rintro ⟨hpos, hzero⟩
    have hvals' : ∀ k, t.data (.vals k) = s.data (.vals k) := by
      intro k
      by_cases hk : k = colLength - 1
      · rw [hk, hpos]
        exact hsign
      · exact hvals k hk
    refine ⟨?_, hvals', ?_⟩
    · rw [max_eq_left (signedValue_nonneg_iff.mpr hpos), signedValue_of_nonneg hpos, Int.natCast_inj]
      apply value_congr
      intro k hk
      by_cases hk' : k = colLength - 1
      · rw [hk', hpos, ← hzero]
        exact hlast
      · rw [hbits k (by omega), reluBit, hpos, Bool.not_false, Bool.and_true]
    · intro k hk
      by_cases hk' : k = colLength - 1
      · rw [hk']
        exact hlast'
      · rw [hbits k (by omega), hbits' k (by omega), reluBit, reluBit, hvals', hvals']

/-- A number of `vals`, with a bit that is in each row of `output` at the start. -/
def reluLane (out : Bool) (m : Nat) : LaneState Relu.Vec where
  bgroup := ⟨false, false, false, false, false, false⟩
  data
    | .vals k => m.testBit k
    | .output _ => out
    | .sign => false

theorem relu_of_two :
    ReluLeft (reluLane false 2) 3 ((reluLane false 2).run and (Relu.body 3))
      (((reluLane false 2).run and (Relu.body 3)).run and (Relu.body 3)) :=
  (relu_right_iff and (reluLane false 2) 3 (by decide)).2.mpr ⟨rfl, rfl⟩

/-- After a run for the number -1 its operand is the number 1. -/
theorem relu_of_minus_one :
    value (fun k => ((reluLane false 3).run and (Relu.body 2)).data (.vals k)) 2 = 1 ∧
      value (fun k => (((reluLane false 3).run and (Relu.body 2)).run and (Relu.body 2)).data (.output k)) 2 = 1 ∧
      ¬ ReluLeft (reluLane false 3) 2 ((reluLane false 3).run and (Relu.body 2))
        (((reluLane false 3).run and (Relu.body 2)).run and (Relu.body 2)) := by
  refine ⟨by decide, by decide, ?_⟩
  intro h
  have hsign := h.vals 1
  revert hsign
  decide

end MimdramLean.Proofs

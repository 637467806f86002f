import Mathlib.Data.List.Nodup
import MimdramLean.Predicates
import MimdramLean.Proofs.Passes

/-!
# Reductions, tests against 0 and comparisons

The reductions take in two bits in each pass. What has been reduced so far stays in cells of the B-group,
and the first pass starts from a constant or from bit 0, by the parity of the width.
-/

namespace MimdramLean.Proofs

open Library

variable (pair : Bool → Bool → Bool)

/-! ### Loops over pairs of bits -/

/-- The bits `x 0` to `x (k - 1)`, reduced with `op`. -/
def reduced (op : Bool → Bool → Bool) (e : Bool) (x : Nat → Bool) : Nat → Bool
  | 0 => e
  | k + 1 => op (reduced op e x k) (x k)

/-- Of `s`, the first `k` bits have been reduced. `Holds` says which cells hold the result. -/
structure Reduced (s : LaneState ReduceVec) (op : Bool → Bool → Bool) (e : Bool) (Holds : Bool → BGroup → Prop)
    (k : Nat) (t : LaneState ReduceVec) : Prop where
  data : t.data = s.data
  cells : Holds (reduced op e (fun k => s.data (.vals k)) k) t.bgroup

section PairLoop

variable {op : Bool → Bool → Bool} {e : Bool} {dst : BRow} {Holds : Bool → BGroup → Prop}
  {pass : Nat → List (RowCommand ReduceVec)} (s : LaneState ReduceVec)

lemma firstBits_cases (dst : BRow) (e : Bool) (m : Nat) :
    m % 2 = 0 ∧ firstBits (m % 2 == 0) dst e = ([.aap (.b dst) (.c e)], 0) ∨
      m % 2 = 1 ∧ firstBits (m % 2 == 0) dst e = ([.aap (.b dst) (.vec (.vals 0))], 1) := by
  rcases Nat.mod_two_eq_zero_or_one m with h | h
  · exact .inl ⟨h, by rw [h]; rfl⟩
  · exact .inr ⟨h, by rw [h]; rfl⟩

lemma firstBits_snd (m : Nat) : (firstBits (m % 2 == 0) dst e).2 = m % 2 := by
  obtain ⟨h, heq⟩ | ⟨h, heq⟩ := firstBits_cases dst e m
  · rw [heq, h]
  · rw [heq, h]

lemma reduced_firstBits (hstart : ∀ g v, Holds v (BGroup.drive g v dst)) (hop : ∀ v, op e v = v) (m : Nat) :
    Reduced s op e Holds (m % 2) (s.run pair (firstBits (m % 2 == 0) dst e).1) := by
  obtain ⟨h, heq⟩ | ⟨h, heq⟩ := firstBits_cases dst e m
  · rw [heq, h]
    exact ⟨rfl, hstart s.bgroup e⟩
  · rw [heq, h, LaneState.run_cons, LaneState.exec_aap_vec]
    refine ⟨rfl, ?_⟩
    rw [reduced, reduced, hop]
    exact hstart s.bgroup (s.data (.vals 0))

/-- A loop over pairs reduces the first `m` bits. -/
theorem reduced_pairLoop (hstart : ∀ g v, Holds v (BGroup.drive g v dst)) (hop : ∀ v, op e v = v)
    (hpass : ∀ k v, ∀ t : LaneState ReduceVec, Holds v t.bgroup → (t.run pair (pass k)).data = t.data ∧
      Holds (op (op v (t.data (.vals k))) (t.data (.vals (k + 1)))) (t.run pair (pass k)).bgroup) (m : Nat) :
    let start := firstBits (m % 2 == 0) dst e
    Reduced s op e Holds m (s.run pair (start.1 ++ (forLoop start.2 (m - 1) 2).flatMap pass)) := by
  intro start
  rw [LaneState.run_append, firstBits_snd]
  have h : Reduced s op e Holds (forLoopEnd (m % 2) (m - 1) 2)
      ((s.run pair start.1).run pair ((forLoop (m % 2) (m - 1) 2).flatMap pass)) := by
    apply forLoop_rule (Reduced s op e Holds) Nat.two_pos (reduced_firstBits pair s hstart hop m)
    intro k t _ _ ht
    obtain ⟨hdata, hcells⟩ := hpass k _ t ht.cells
    rw [ht.data] at hdata hcells
    exact ⟨hdata, hcells⟩
  rwa [forLoopEnd_pairs] at h

end PairLoop

/-! ### Parity -/

/-- `B_T1` holds the bit and `B_DCC1` its complement. -/
def Complemented (v : Bool) (g : BGroup) : Prop := g.t1 = v ∧ g.dcc1 = !v

/-- Three majorities make the exclusive or of three bits. -/
lemma xor_of_maj (x v1 v2 : Bool) :
    maj (!v2) (maj (!v1) x v2) (maj (!x) v1 (maj (!v1) x v2)) = xor (xor x v1) v2 := by
  cases x <;> cases v1 <;> cases v2 <;> rfl

lemma complemented_xorBits (k : Nat) (v : Bool) (t : LaneState ReduceVec) (ht : Complemented v t.bgroup) :
    (t.run pair (XorReduction.xorBits k)).data = t.data ∧
      Complemented (xor (xor v (t.data (.vals k))) (t.data (.vals (k + 1))))
        (t.run pair (XorReduction.xorBits k)).bgroup := by
  rw [← xor_of_maj]
  simp [XorReduction.xorBits, LaneState.run_cons, Complemented, ht.1, ht.2]

lemma complemented_start (g : BGroup) (v : Bool) : Complemented v (g.drive v .dcc1nT1) := by
  simp [Complemented]

lemma reduced_xor (x : Nat → Bool) (n : Nat) :
    reduced xor false x n = decide (Odd ((List.range n).countP x)) := by
  induction n with
  | zero => rfl
  | succ n ih =>
    rw [reduced, ih, List.range_succ, List.countP_append, List.countP_singleton]
    cases x n with
    | false => simp
    | true => simp [Nat.odd_add_one, -Nat.not_odd_iff_even]

/-- The microprogram computes the parity, with the complement of `B_T1` in `B_DCC1` after every pass. -/
theorem xorReduction_computes_parity (s : LaneState ReduceVec) (colLength : Nat) :
    let t := s.run pair (XorReduction.body colLength)
    (t.data .output = true ↔ Odd ((List.range colLength).countP fun k => s.data (.vals k))) ∧
    (∀ m, let u := s.run pair (XorReduction.passes colLength m); u.bgroup.dcc1 = !u.bgroup.t1) ∧
    ∀ k, t.data (.vals k) = s.data (.vals k) := by
  intro t
  have h := reduced_pairLoop pair s complemented_start Bool.false_xor (complemented_xorBits pair) colLength
  have hdata : t.data = Function.update s.data .output
      (decide (Odd ((List.range colLength).countP fun k => s.data (.vals k)))) := by
    simp only [t]
    rw [XorReduction.body, LaneState.run_append, run_store_data, ← reduced_xor, ← h.cells.1, ← h.data]
    simp [XorReduction.start]
  refine ⟨?_, ?_, ?_⟩
  · rw [hdata, Function.update_self, decide_eq_true_iff]
  · intro m u
    have hu : ∃ v, Complemented v u.bgroup := by
      simp only [u, XorReduction.passes, XorReduction.start, LaneState.run_append]
      apply forLoop_take_rule (fun t : LaneState ReduceVec => ∃ v, Complemented v t.bgroup)
      · exact ⟨_, (reduced_firstBits pair s complemented_start Bool.false_xor colLength).cells⟩
      · rintro k t ⟨v, hv⟩
        exact ⟨_, (complemented_xorBits pair k v t hv).2⟩
    obtain ⟨v, ht1, hdcc1⟩ := hu
    rw [ht1, hdcc1]
  · intro k
    rw [hdata, Function.update_of_ne (by simp)]

/-! ### Conjunction, disjunction and the tests against 0 -/

/-- The operation that a majority with a constant computes. -/
lemma holds_reduceBits (bit : Bool) (k : Nat) (v : Bool) (t : LaneState ReduceVec) (ht : t.bgroup.t3 = v) :
    (t.run pair (reduceBits bit k)).data = t.data ∧
      (t.run pair (reduceBits bit k)).bgroup.t3 = maj bit (maj bit v (t.data (.vals k))) (t.data (.vals (k + 1))) := by
  rw [maj_rotate bit v, maj_rotate bit]
  simp [reduceBits, LaneState.run_cons, ht]

lemma reduced_reduceBits (s : LaneState ReduceVec) (bit : Bool) (m : Nat) :
    let start := firstBits (m % 2 == 0) .t3 (!bit)
    Reduced s (maj bit) (!bit) (fun v g => g.t3 = v) m
      (s.run pair (start.1 ++ (forLoop start.2 (m - 1) 2).flatMap (reduceBits bit))) := by
  apply reduced_pairLoop pair s
  · simp
  · cases bit <;> decide
  · exact holds_reduceBits pair bit

lemma reduced_and (x : Nat → Bool) (n : Nat) : reduced (maj false) true x n = true ↔ ∀ k < n, x k = true := by
  induction n with
  | zero => simp [reduced]
  | succ n ih =>
    rw [reduced, maj_false_left, Bool.and_eq_true, ih, Nat.forall_lt_succ_right]

lemma reduced_or (x : Nat → Bool) (n : Nat) : reduced (maj true) false x n = true ↔ ∃ k < n, x k = true := by
  induction n with
  | zero => simp [reduced]
  | succ n ih =>
    rw [reduced, maj_comm, maj_true_mid, Bool.or_eq_true, ih, Nat.exists_lt_succ_right]

lemma run_reduction_data (s : LaneState ReduceVec) (bit : Bool) (n : Nat) :
    (s.run pair (reduction bit n)).data =
      Function.update s.data .output (reduced (maj bit) (!bit) (fun k => s.data (.vals k)) n) := by
  have h := reduced_reduceBits pair s bit n
  rw [reduction, LaneState.run_append, run_store_data, ← h.cells, ← h.data]
  simp

/-- The commands read bits 0 to `k - 1`, in this order, and no other row. -/
def ReadsUpTo (k : Nat) (cmds : List (RowCommand ReduceVec)) : Prop :=
  cmds.flatMap RowCommand.reads = (List.range k).map .vals

lemma ReadsUpTo.count_eq {n : Nat} {cmds : List (RowCommand ReduceVec)} (h : ReadsUpTo n cmds) :
    ∀ k < n, (cmds.flatMap RowCommand.reads).count (.vals k) = 1 := by
  intro k hk
  rw [h]
  have hnodup : ((List.range n).map ReduceVec.vals).Nodup := List.nodup_range.map fun _ _ => ReduceVec.vals.inj
  exact List.nodup_iff_count_eq_one.mp hnodup _ (List.mem_map_of_mem (List.mem_range.mpr hk))

lemma readsUpTo_reduceBits (bit e : Bool) (dst : BRow) (m : Nat) :
    let start := firstBits (m % 2 == 0) dst e
    ReadsUpTo m (start.1 ++ (forLoop start.2 (m - 1) 2).flatMap (reduceBits bit)) := by
  intro start
  have hstart : ReadsUpTo (m % 2) start.1 := by
    simp only [start, ReadsUpTo]
    obtain ⟨h, heq⟩ | ⟨h, heq⟩ := firstBits_cases dst e m
    · rw [heq, h]
      rfl
    · rw [heq, h]
      rfl
  have h : ReadsUpTo (forLoopEnd (m % 2) (m - 1) 2)
      (start.1 ++ (forLoop (m % 2) (m - 1) 2).flatMap (reduceBits bit)) := by
    apply forLoop_append_rule ReadsUpTo Nat.two_pos hstart
    intro k cmds _ _ hcmds
    rw [ReadsUpTo, List.flatMap_append, hcmds]
    simp [reduceBits, RowCommand.reads, List.range_succ]
  rw [forLoopEnd_pairs] at h
  rw [firstBits_snd]
  exact h

lemma readsUpTo_reduction (bit : Bool) (n : Nat) : ReadsUpTo n (reduction bit n) := by
  have h := readsUpTo_reduceBits bit (!bit) .t3 n
  rw [reduction, ReadsUpTo, List.flatMap_append, h]
  simp [RowCommand.reads]

lemma greaterThan0_body_eq {n : Nat} (hn : 1 ≤ n) :
    let start := firstBits ((n - 1) % 2 == 0) .t3 false
    GreaterThan0.body n = start.1 ++ (forLoop start.2 (n - 1 - 1) 2).flatMap (reduceBits true) ++
      GreaterThan0.andSign (n - 1) := by
  intro start
  have hparity : (n % 2 == 1) = ((n - 1) % 2 == 0) := by
    rw [Bool.eq_iff_iff, beq_iff_eq, beq_iff_eq]
    omega
  have hend : forLoopEnd ((n - 1) % 2) (n - 2) 2 = n - 1 := forLoopEnd_pairs (n - 1)
  simp only [start]
  rw [GreaterThan0.body, hparity, firstBits_snd, hend]
  rfl

lemma readsUpTo_greaterThan0 {n : Nat} (hn : 1 ≤ n) : ReadsUpTo n (GreaterThan0.body n) := by
  have h := readsUpTo_reduceBits true false .t3 (n - 1)
  rw [greaterThan0_body_eq hn, ReadsUpTo, List.flatMap_append, h]
  obtain ⟨m, rfl⟩ := Nat.exists_eq_add_of_le' hn
  simp [GreaterThan0.andSign, RowCommand.reads, List.range_succ]

/-- The reduction of the bits below the msb, and then a conjunction with the negated msb. -/
lemma run_greaterThan0_data (s : LaneState ReduceVec) {n : Nat} (hn : 1 ≤ n) :
    (s.run pair (GreaterThan0.body n)).data = Function.update s.data .output
      (reduced (maj true) false (fun k => s.data (.vals k)) (n - 1) && !s.data (.vals (n - 1))) := by
  have h := reduced_reduceBits pair s true (n - 1)
  simp only [Bool.not_true] at h
  rw [greaterThan0_body_eq hn, LaneState.run_append]
  simp [GreaterThan0.andSign, LaneState.run_cons, h.cells, h.data, maj_rotate (!s.data (.vals (n - 1)))]

/-- A two's-complement number is positive if its msb is 0 and another bit is 1. -/
lemma signedValue_pos_iff {x : Nat → Bool} {n : Nat} (hn : 1 ≤ n) :
    0 < signedValue x n ↔ (∃ k < n - 1, x k = true) ∧ x (n - 1) = false := by
  obtain ⟨m, rfl⟩ := Nat.exists_eq_add_of_le' hn
  rw [Nat.add_sub_cancel]
  cases hmsb : x m with
  | false =>
    have hsigned : signedValue x (m + 1) = value x m := by
      rw [signedValue_of_nonneg (by exact hmsb), value_succ, hmsb]
      simp
    rw [hsigned, Int.natCast_pos, value_pos_iff]
    simp
  | true =>
    have hneg : ¬ 0 ≤ signedValue x (m + 1) := by
      rw [signedValue_nonneg_iff, Nat.add_sub_cancel, hmsb]
      decide
    simp
    omega

/-- The reductions compute the conjunction and the disjunction, and the positivity test the sign. Each input row
is read once. -/
theorem reductions_right (s : LaneState ReduceVec) (colLength : Nat) (hn : 1 ≤ colLength) :
    ((s.run pair (AndReduction.body colLength)).data .output = true ↔
      ∀ k < colLength, s.data (.vals k) = true) ∧
    ((s.run pair (OrReduction.body colLength)).data .output = true ↔
      ∃ k < colLength, s.data (.vals k) = true) ∧
    ((s.run pair (GreaterThan0.body colLength)).data .output = true ↔
      0 < signedValue (fun k => s.data (.vals k)) colLength) ∧
    ∀ cmds ∈ [AndReduction.body colLength, OrReduction.body colLength, GreaterThan0.body colLength],
      (∀ k < colLength, (cmds.flatMap RowCommand.reads).count (.vals k) = 1) ∧
      ∀ k, (s.run pair cmds).data (.vals k) = s.data (.vals k) := by
  refine ⟨?_, ?_, ?_, ?_⟩
  · rw [AndReduction.body, run_reduction_data, Function.update_self]
    exact reduced_and _ colLength
  · rw [OrReduction.body, run_reduction_data, Function.update_self]
    exact reduced_or _ colLength
  · rw [run_greaterThan0_data pair s hn, Function.update_self, Bool.and_eq_true, reduced_or, Bool.not_eq_true',
      signedValue_pos_iff hn]
  · intro cmds hcmds
    simp only [List.mem_cons, List.not_mem_nil, or_false] at hcmds
    rcases hcmds with rfl | rfl | rfl
    · refine ⟨(readsUpTo_reduction false colLength).count_eq, ?_⟩
      intro k
      rw [AndReduction.body, run_reduction_data, Function.update_of_ne (by simp)]
    · refine ⟨(readsUpTo_reduction true colLength).count_eq, ?_⟩
      intro k
      rw [OrReduction.body, run_reduction_data, Function.update_of_ne (by simp)]
    · refine ⟨(readsUpTo_greaterThan0 hn).count_eq, ?_⟩
      intro k
      rw [run_greaterThan0_data pair s hn, Function.update_of_ne (by simp)]

/-- The number 3 of width 3. -/
def threeLane : LaneState ReduceVec where
  bgroup := ⟨true, true, true, true, true, true⟩
  data
    | .vals k => Nat.testBit 3 k
    | .output => false

/-- It is positive. -/
theorem threeLane_positive : (threeLane.run and (GreaterThan0.body 3)).data .output = true :=
  (reductions_right and threeLane 3 (by decide)).2.2.1.mpr (by decide)

lemma greaterEqual0_right (s : LaneState ReduceVec) (colLength : Nat) :
    (s.run pair (GreaterEqual0.body colLength)).data .output = true ↔
      0 ≤ signedValue (fun k => s.data (.vals k)) colLength := by
  rw [signedValue_nonneg_iff]
  simp [GreaterEqual0.body, LaneState.run_cons]

/-! ### Comparisons -/

lemma run_comparison_data (s : LaneState CompareVec) (bit : Bool) (n : Nat) :
    (s.run pair (comparison bit n)).data = Function.update s.data .output
      (decide (value (fun k => s.data (.vals2 k)) n < value (fun k => s.data (.vals1 k)) n + bit.toNat)) := by
  obtain ⟨hdata, hflag⟩ := run_compareLoop pair s greaterBit bit (fun k => s.data (.vals1 k))
    (fun k => s.data (.vals2 k)) n (by
      intro k t ht
      simp [greaterBit, LaneState.run_cons, ht])
  rw [comparison, LaneState.run_append, run_store_data, ← hflag, ← hdata]
  simp

/-- `k` passes have compared both ways: `vals1 ≤ vals2` is in `B_T2`, and `vals2 ≤ vals1` in `B_T3` and, once a
pass has been made, in `B_T0`. -/
structure ComparedBothWays (s : LaneState CompareVec) (k : Nat) (t : LaneState CompareVec) : Prop where
  data : t.data = s.data
  t2 : t.bgroup.t2 = carries (fun k => s.data (.vals2 k)) (fun k => !s.data (.vals1 k)) true k
  t3 : t.bgroup.t3 = carries (fun k => s.data (.vals1 k)) (fun k => !s.data (.vals2 k)) true k
  t0 : 0 < k → t.bgroup.t0 = t.bgroup.t3

lemma comparedBothWays_loop (s : LaneState CompareVec) (n : Nat) :
    ComparedBothWays s n
      (s.run pair ([.aap (.b .t2T3) (.c true)] ++ (forLoop 0 n 1).flatMap Equal.equalBit)) := by
  rw [LaneState.run_append]
  apply forLoop_one_rule (ComparedBothWays s) (Nat.zero_le _)
  · exact ⟨rfl, rfl, rfl, by simp⟩
  · intro k t _ _ ht
    refine ⟨?_, ?_, ?_, ?_⟩
    · simp [Equal.equalBit, ht.data]
    · rw [carries, maj_comm, ← ht.t2, ← ht.data]
      simp [Equal.equalBit]
    · rw [carries, maj_comm, ← ht.t3, ← ht.data]
      simp [Equal.equalBit]
    · simp [Equal.equalBit]

lemma run_equal_data (s : LaneState CompareVec) {n : Nat} (hn : 1 ≤ n) :
    (s.run pair (Equal.body n)).data = Function.update s.data .output
      (decide (value (fun k => s.data (.vals1 k)) n = value (fun k => s.data (.vals2 k)) n)) := by
  have h := comparedBothWays_loop pair s n
  have hflag : (carries (fun k => s.data (.vals1 k)) (fun k => !s.data (.vals2 k)) true n &&
      carries (fun k => s.data (.vals2 k)) (fun k => !s.data (.vals1 k)) true n) =
      decide (value (fun k => s.data (.vals1 k)) n = value (fun k => s.data (.vals2 k)) n) := by
    rw [Bool.eq_iff_iff, Bool.and_eq_true, carries_not_eq_true, carries_not_eq_true, decide_eq_true_iff]
    omega
  rw [Equal.body, LaneState.run_append, ← hflag, ← h.t3, ← h.t2, ← h.t0 hn, ← h.data]
  simp [LaneState.run_cons, maj_comm _ false, maj_false_left]

/-- The microprograms compare the two numbers of a lane. -/
theorem comparisons_right (s : LaneState CompareVec) (colLength : Nat) (hn : 1 ≤ colLength) :
    let a := value (fun k => s.data (.vals1 k)) colLength
    let b := value (fun k => s.data (.vals2 k)) colLength
    (s.run pair (Greater.body colLength)).data .output = decide (a > b) ∧
    (s.run pair (GreaterEqual.body colLength)).data .output = decide (a ≥ b) ∧
    (s.run pair (Equal.body colLength)).data .output = decide (a = b) ∧
    ∀ cmds ∈ [Greater.body colLength, GreaterEqual.body colLength, Equal.body colLength], ∀ k,
      (s.run pair cmds).data (.vals1 k) = s.data (.vals1 k) ∧
      (s.run pair cmds).data (.vals2 k) = s.data (.vals2 k) := by
  intro a b
  have hgreater := run_comparison_data pair s false colLength
  have hgreaterEqual := run_comparison_data pair s true colLength
  have hequal := run_equal_data pair s hn
  refine ⟨?_, ?_, ?_, ?_⟩
  · rw [Greater.body, hgreater, Function.update_self, Bool.toNat_false, Nat.add_zero]
  · rw [GreaterEqual.body, hgreaterEqual, Function.update_self, Bool.toNat_true, decide_eq_decide]
    exact Nat.lt_succ_iff
  · rw [hequal, Function.update_self]
  · intro cmds hcmds k
    simp only [List.mem_cons, List.not_mem_nil, or_false] at hcmds
    rcases hcmds with rfl | rfl | rfl
    · simp [Greater.body, hgreater]
    · simp [GreaterEqual.body, hgreaterEqual]
    · simp [hequal]

/-- The numbers 2 and 1 of width 2. -/
def twoAndOne : LaneState CompareVec where
  bgroup := ⟨true, true, true, true, true, true⟩
  data
    | .vals1 k => Nat.testBit 2 k
    | .vals2 k => Nat.testBit 1 k
    | .output => false

/-- 2 is greater than 1. -/
theorem twoAndOne_greater : (twoAndOne.run and (Greater.body 2)).data .output = true :=
  (comparisons_right and twoAndOne 2 (by decide)).1.trans (by decide)

end MimdramLean.Proofs

import MimdramLean.Proofs.Passes
import MimdramLean.WithConstants

/-!
# Multiplication by a constant and the range query

The multiplication adds the values at each position where the constant has a bit, and writes the rows of the
output one by one. The range query compares with two constants at once; the lower comparison
starts from what `B_T3` happens to hold if the lowest bits of the constants are the same.
-/

namespace MimdramLean.Proofs

open Library

variable (pair : Bool → Bool → Bool)

lemma bitTest_eq (c : BitVec 32) (j : Nat) : bitTest c j = c.toNat.testBit j := by
  rw [bitTest, ← BitVec.twoPow_eq, BitVec.and_twoPow, ← BitVec.testBit_toNat]
  split
  · next hbit =>
    have hj : j < 32 := BitVec.lt_of_getLsbD hbit
    have hpos : 0 < (BitVec.twoPow 32 j).toNat := by
      rw [BitVec.toNat_twoPow_of_lt hj]
      exact Nat.two_pow_pos j
    rw [hbit, bne_iff_ne]
    intro h
    rw [h] at hpos
    exact absurd hpos (Nat.lt_irrefl 0)
  · next hbit => rw [Bool.eq_false_iff.mpr hbit, bne_self_eq_false]

lemma value_bitTest (c : BitVec 32) (n : Nat) : value (bitTest c) n = c.toNat % 2 ^ n := by
  rw [← value_testBit]
  exact value_congr fun k _ => bitTest_eq c k

/-! ### `90_bitweave-plus.c` -/

section Bitweave

variable (s : LaneState Bitweave.Vec) (c1 c2 : BitVec 32)

lemma run_queryBit (k : Nat) :
    let t := s.run pair (Bitweave.queryBit c1 c2 k)
    let v := s.data (.vals k)
    let same := bitTest c1 k == bitTest c2 k
    t.data = s.data ∧
      t.bgroup.dcc1 = maj (!bitTest c1 k) v (if same then s.bgroup.t3 else s.bgroup.dcc1) ∧
      t.bgroup.t3 = maj (!bitTest c1 k) v (if same then s.bgroup.t3 else s.bgroup.dcc1) ∧
      t.bgroup.t1 = maj (!v) (bitTest c2 k) (if same then s.bgroup.t2 else s.bgroup.t1) ∧
      t.bgroup.t2 = maj (!v) (bitTest c2 k) (if same then s.bgroup.t2 else s.bgroup.t1) := by
  dsimp only [Bitweave.queryBit]
  generalize bitTest c1 k = test1
  generalize bitTest c2 k = test2
  have hmaj : ∀ a b : Bool, maj true a b = (b || a) ∧ maj false a b = (b && a) ∧ maj a false b = (a && b) := by
    decide
  cases test1 <;> cases test2 <;> simp [Bitweave.constantBits, LaneState.run_cons, maj_true_mid, hmaj]

/-- The state of the lower comparison before its first pass. -/
def lowerStart : Bool := if bitTest c1 0 == bitTest c2 0 then s.bgroup.t3 else true

/-- Of `s`, the low `k` bits have been compared with both constants. -/
structure Queried (k : Nat) (t : LaneState Bitweave.Vec) : Prop where
  data : t.data = s.data
  lower : (if bitTest c1 k == bitTest c2 k then t.bgroup.t3 else t.bgroup.dcc1) =
    carries (fun k => s.data (.vals k)) (fun k => !bitTest c1 k) (lowerStart s c1 c2) k
  lower_t3 : 0 < k →
    t.bgroup.t3 = carries (fun k => s.data (.vals k)) (fun k => !bitTest c1 k) (lowerStart s c1 c2) k
  upper_t1 : t.bgroup.t1 = carries (bitTest c2) (fun k => !s.data (.vals k)) true k
  upper_t2 : t.bgroup.t2 = carries (bitTest c2) (fun k => !s.data (.vals k)) true k

variable {s c1 c2}

lemma Queried.queryBit {k : Nat} {t : LaneState Bitweave.Vec} (h : Queried s c1 c2 k t) :
    Queried s c1 c2 (k + 1) (t.run pair (Bitweave.queryBit c1 c2 k)) := by
  obtain ⟨hdata, hdcc1, ht3, ht1, ht2⟩ := run_queryBit pair t c1 c2 k
  rw [h.lower, h.data, maj_comm] at hdcc1 ht3
  rw [h.upper_t1, h.upper_t2, ite_self, h.data, maj_comm] at ht1 ht2
  refine ⟨hdata.trans h.data, ?_, fun _ => ht3, ht1, ht2⟩
  rw [hdcc1, ht3, ite_self]
  rfl

variable (s c1 c2)

/-- The output says that both comparisons hold, the lower one from its start in `B_T3` or `B_DCC1`. -/
lemma bitweave_output (n : Nat) (hn : 1 ≤ n) :
    let v := value (fun k => s.data (.vals k)) n
    (s.run pair (Bitweave.body c1 c2 n)).data .output =
      decide (c1.toNat % 2 ^ n < v + (lowerStart s c1 c2).toNat ∧ v ≤ c2.toNat % 2 ^ n) := by
  intro v
  let s₀ := s.run pair [.aap (.b .dcc1) (.c true), .aap (.b .t0T1T2) (.c true)]
  have hstart : Queried s c1 c2 0 s₀ := by
    refine ⟨?_, ?_, fun hk => absurd hk (by omega), ?_, ?_⟩ <;> simp [s₀, LaneState.run_cons, carries, lowerStart]
  have h : Queried s c1 c2 n (s₀.run pair ((forLoop 0 n 1).flatMap (Bitweave.queryBit c1 c2))) :=
    forLoop_one_rule (Queried s c1 c2) (Nat.zero_le _) hstart fun k t _ _ ht => ht.queryBit pair
  have hout : (s.run pair (Bitweave.body c1 c2 n)).data .output =
      (carries (bitTest c2) (fun k => !s.data (.vals k)) true n &&
        carries (fun k => s.data (.vals k)) (fun k => !bitTest c1 k) (lowerStart s c1 c2) n) := by
    rw [← h.upper_t2, ← h.lower_t3 hn]
    simp [Bitweave.body, LaneState.run_append, LaneState.run_cons, maj_false_left, s₀]
  rw [hout, Bool.eq_iff_iff, Bool.and_eq_true, carries_not_iff, carries_not_iff, decide_eq_true_iff,
    value_bitTest, value_bitTest, Bool.toNat_true, Nat.lt_succ_iff, and_comm]

end Bitweave

/-- The query is wrong for a number that is the lower bound itself, if the lowest bits of the bounds are the
same and `B_T3` holds a 0 at the start, and for no other number. -/
theorem bitweave_right_iff (s : LaneState Bitweave.Vec) (c1 c2 : BitVec 32) (colLength : Nat)
    (hlen : 1 ≤ colLength) :
    let v := value (fun k => s.data (.vals k)) colLength
    let lo := c1.toNat % 2 ^ colLength
    let hi := c2.toNat % 2 ^ colLength
    (s.run pair (Bitweave.body c1 c2 colLength)).data .output = decide (lo ≤ v ∧ v ≤ hi) ↔
      ¬ (s.bgroup.t3 = false ∧ bitTest c1 0 = bitTest c2 0 ∧ v = lo ∧ lo ≤ hi) := by
  intro v lo hi
  rw [bitweave_output pair s c1 c2 colLength hlen, decide_eq_decide]
  change (lo < v + (lowerStart s c1 c2).toNat ∧ v ≤ hi ↔ lo ≤ v ∧ v ≤ hi) ↔ _
  rw [lowerStart]
  by_cases hsame : bitTest c1 0 = bitTest c2 0
  · rw [if_pos (beq_iff_eq.mpr hsame)]
    cases s.bgroup.t3 with
    | true =>
      simp only [Bool.toNat_true, reduceCtorEq, false_and, not_false_iff, iff_true]
      omega
    | false =>
      simp only [Bool.toNat_false, Nat.add_zero, hsame, true_and]
      omega
  · rw [if_neg (mt beq_iff_eq.mp hsame)]
    simp only [Bool.toNat_true, hsame, false_and, and_false, not_false_iff, iff_true]
    omega

/-- The number `m` in a lane, with a bit that an earlier vector may have left in `B_T3`. -/
def queryLane (t3 : Bool) (m : Nat) : LaneState Bitweave.Vec where
  bgroup := ⟨false, false, false, t3, false, false⟩
  data
    | .vals k => m.testBit k
    | .output => false

theorem bitweave_of_two : ((queryLane false 2).run and (Bitweave.body 1 3 2)).data .output = true :=
  (bitweave_right_iff and (queryLane false 2) 1 3 2 (by decide)).mpr (by decide)

/-- The number 1 is not found between 1 and 1. -/
theorem bitweave_of_one :
    (1 : BitVec 32).toNat % 2 ^ 1 ≤ value (fun k => (queryLane false 1).data (.vals k)) 1 ∧
      value (fun k => (queryLane false 1).data (.vals k)) 1 ≤ (1 : BitVec 32).toNat % 2 ^ 1 ∧
      ((queryLane false 1).run and (Bitweave.body 1 1 1)).data .output = false := by
  decide

/-! ### Rows that are written before they are read -/

section ReadsWritten

variable {P : Type} {W : P → Prop}

lemma readsWritten_append {cmds cmds' : List (RowCommand P)} :
    ReadsWritten W (cmds ++ cmds') ↔
      ReadsWritten W cmds ∧ ReadsWritten (fun p => W p ∨ p ∈ cmds.flatMap RowCommand.writes) cmds' := by
  induction cmds generalizing W with
  | nil => simp [ReadsWritten]
  | cons cmd cmds ih =>
    rw [List.cons_append, ReadsWritten, ReadsWritten, ih]
    simp only [and_assoc, or_assoc, List.flatMap_cons, List.mem_append]

lemma readsWritten_of_forall {cmds : List (RowCommand P)} (h : ∀ p ∈ cmds.flatMap RowCommand.reads, W p) :
    ReadsWritten W cmds := by
  induction cmds generalizing W with
  | nil => trivial
  | cons cmd cmds ih =>
    simp only [List.flatMap_cons, List.mem_append] at h
    exact ⟨fun p hp => h p (.inl hp), ih fun p hp => .inl (h p (.inr hp))⟩

end ReadsWritten

/-! ### `10_multu_by_const-plus.c` -/

section MultuByConst

variable (s : LaneState MultuByConst.Vec) (c : BitVec 32)

/-- Of `s`, the low `j` bits of the constant have been multiplied by the values. -/
structure MultipliedBy (n j : Nat) (t : LaneState MultuByConst.Vec) : Prop where
  vals : ∀ k, t.data (.vals k) = s.data (.vals k)
  product : value (fun k => t.data (.output k)) (j + n) =
    value (fun k => s.data (.vals k)) n * (c.toNat % 2 ^ j)

lemma mod_two_pow_succ (j : Nat) : c.toNat % 2 ^ (j + 1) = c.toNat % 2 ^ j + 2 ^ j * (bitTest c j).toNat := by
  rw [← value_bitTest, ← value_bitTest, value_succ]

variable {s c}

/-- The rows from `j` on take the values in if bit `j` of the constant is set, and have one more row. -/
lemma MultipliedBy.next {n j : Nat} {t t' : LaneState MultuByConst.Vec} (h : MultipliedBy s c n j t)
    (hvals : ∀ k, t'.data (.vals k) = t.data (.vals k))
    (hsum : value (fun k => t'.data (.output k)) (j + n + 1) = value (fun k => t.data (.output k)) (j + n) +
      2 ^ j * ((bitTest c j).toNat * value (fun k => s.data (.vals k)) n)) :
    MultipliedBy s c n (j + 1) t' := by
  refine ⟨fun k => (hvals k).trans (h.vals k), ?_⟩
  rw [Nat.add_right_comm, hsum, h.product, mod_two_pow_succ]
  ring

lemma rippled_addShifted (t : LaneState MultuByConst.Vec) (n j : Nat) :
    Rippled t (fun k => t.data (.output (j + k))) (fun k => t.data (.vals k)) false (fun k => .output (j + k))
      BGroup.dcc1 n
      (t.run pair ([.aap (.b .dcc1) (.c false)] ++ (forLoop 0 n 1).flatMap (MultuByConst.addBit j))) := by
  rw [LaneState.run_append]
  have h := rippled_addPass pair (t.run pair [.aap (.b .dcc1) (.c false)]) (fun k => .output (j + k))
    (fun k => .vec (.vals k)) (fun k => .output (j + k)) n (fun i k hik => by simpa using hik)
    (fun k i hi => by simp; omega) (fun k => isOperand_vec _) (fun k i hi => by simp)
  exact ⟨h.carry_eq, h.sum_eq, h.frame⟩

lemma MultipliedBy.addValues {n j : Nat} {t : LaneState MultuByConst.Vec} (h : MultipliedBy s c n j t)
    (hbit : bitTest c j = true) :
    MultipliedBy s c n (j + 1) (t.run pair ([.aap (.b .dcc1) (.c false)] ++
      (forLoop 0 n 1).flatMap (MultuByConst.addBit j) ++ [.aap (.vec (.output (j + n))) (.b .dcc1)])) := by
  have hadd := rippled_addShifted pair t n j
  rw [LaneState.run_append]
  -- the carry of the last bit becomes the row above
  generalize t.run pair ([.aap (.b .dcc1) (.c false)] ++ _) = u at hadd ⊢
  have hdata : (u.run pair [.aap (.vec (.output (j + n))) (.b .dcc1)]).data =
      Function.update u.data (.output (j + n)) u.bgroup.dcc1 := by
    simp [LaneState.run_cons]
  have hvals : value (fun k => t.data (.vals k)) n = value (fun k => s.data (.vals k)) n :=
    value_congr fun k _ => h.vals k
  apply h.next
  · intro k
    rw [hdata, Function.update_of_ne (by simp), hadd.frame _ (by simp)]
  · rw [hadd.value_stored (fun _ _ => MultuByConst.Vec.output.inj) hdata, hvals, hbit, Bool.toNat_true,
      Bool.toNat_false, Nat.one_mul, Nat.add_zero]

lemma MultipliedBy.writeZero {n j : Nat} {t : LaneState MultuByConst.Vec} (h : MultipliedBy s c n j t)
    (hbit : bitTest c j = false) : MultipliedBy s c n (j + 1) (t.run pair (MultuByConst.writeZero (j + n))) := by
  have hdata : (t.run pair (MultuByConst.writeZero (j + n))).data =
      Function.update t.data (.output (j + n)) false := by
    simp [MultuByConst.writeZero, LaneState.run_cons]
  apply h.next
  · intro k
    rw [hdata, Function.update_of_ne (by simp)]
  · have hrows : ∀ k < j + n, (t.run pair (MultuByConst.writeZero (j + n))).data (.output k) =
        t.data (.output k) := by
      intro k hk
      rw [hdata, Function.update_of_ne (by simp; omega)]
    rw [value_succ, value_congr hrows, hdata, Function.update_self, hbit]
    simp only [Bool.toNat_false, Nat.mul_zero, Nat.zero_mul]

lemma MultipliedBy.addShifted {n j : Nat} {t : LaneState MultuByConst.Vec} (h : MultipliedBy s c n j t) :
    MultipliedBy s c n (j + 1) (t.run pair (MultuByConst.addShifted c n j)) := by
  rw [MultuByConst.addShifted]
  split
  · next hbit => exact h.addValues pair hbit
  · next hbit => exact h.writeZero pair (Bool.eq_false_iff.mpr hbit)

variable (s)

lemma swept_writeZero (n : Nat) :
    Swept s .output (fun _ => ()) (fun _ => ()) (fun _ => false) n
      (s.run pair ((forLoop 0 n 1).flatMap MultuByConst.writeZero)) := by
  apply sweep_loop pair rfl
  · intro i j hij
    simpa using hij
  · intro k _ t _
    simp [MultuByConst.writeZero, LaneState.run_cons]

lemma swept_copyBit (j n : Nat) :
    Swept s (fun k => .output (j + k)) (fun _ => ()) (fun _ => ()) (fun k => s.data (.vals k)) n
      (s.run pair ((forLoop 0 n 1).flatMap (MultuByConst.copyBit j))) := by
  apply sweep_loop pair rfl
  · intro i k hik
    simpa using hik
  · intro k _ t ht
    simp [MultuByConst.copyBit, LaneState.run_cons, ht.frame (.vals k)]

/-- The rows after the values have been copied to the lowest bit of the constant that is set. -/
lemma multipliedBy_copied {n j : Nat} (hbelow : ∀ k < j, bitTest c k = false) (hbit : bitTest c j = true) :
    MultipliedBy s c n (j + 1) (s.run pair ((forLoop 0 j 1).flatMap MultuByConst.writeZero ++
      (forLoop 0 n 1).flatMap (MultuByConst.copyBit j) ++ MultuByConst.writeZero (j + n))) := by
  have hzeros := swept_writeZero pair s j
  rw [LaneState.run_append, LaneState.run_append]
  generalize s.run pair _ = t at hzeros ⊢
  have hcopy := swept_copyBit pair t j n
  generalize t.run pair _ = u at hcopy ⊢
  have hdata : (u.run pair (MultuByConst.writeZero (j + n))).data =
      Function.update u.data (.output (j + n)) false := by
    simp [MultuByConst.writeZero, LaneState.run_cons]
  have hvals : ∀ k, t.data (.vals k) = s.data (.vals k) := fun k => hzeros.frame _ (by simp)
  have hmod : c.toNat % 2 ^ j = 0 := by
    rw [← value_bitTest, value_congr hbelow, value_false]
  refine ⟨?_, ?_⟩
  · intro k
    rw [hdata, Function.update_of_ne (by simp), hcopy.frame _ (by simp), hvals]
  · have hlow : value (fun k => (u.run pair (MultuByConst.writeZero (j + n))).data (.output k)) j = 0 := by
      rw [← value_false j]
      apply value_congr
      intro k hk
      rw [hdata, Function.update_of_ne (by simp; omega), hcopy.frame _ (fun i _ => by simp; omega),
        hzeros.written k hk]
    have hhigh : value (fun k => (u.run pair (MultuByConst.writeZero (j + n))).data (.output (j + k))) n =
        value (fun k => s.data (.vals k)) n := by
      apply value_congr
      intro k hk
      rw [hdata, Function.update_of_ne (by simp; omega), hcopy.written k hk, hvals]
    rw [Nat.add_assoc, Nat.add_comm 1, value_add, value_succ, hlow, hhigh, hdata, Function.update_self,
      mod_two_pow_succ, hmod, hbit, Bool.toNat_false, Bool.toNat_true]
    ring

/-- A constant other than 0 has a bit below its width. -/
lemma forBreakEnd_lt {n : Nat} (hc : c.toNat < 2 ^ n) (hne : 0 ≠ c) : forBreakEnd n (bitTest c) < n := by
  obtain ⟨-, hle, hbelow, -⟩ := forBreak_spec n (bitTest c)
  by_contra hge
  have hend : forBreakEnd n (bitTest c) = n := by omega
  rw [hend] at hbelow
  have hzero : c.toNat = 0 := by
    rw [← Nat.mod_eq_of_lt hc, ← value_bitTest, value_congr hbelow, value_false]
  exact hne (BitVec.eq_of_toNat_eq hzero.symm)

lemma multuByConst_product {n : Nat} (hc : c.toNat < 2 ^ n) :
    value (fun k => (s.run pair (MultuByConst.body c n)).data (.output k)) (2 * n) =
      value (fun k => s.data (.vals k)) n * c.toNat := by
  rw [MultuByConst.body]
  split
  · next hzero =>
    rw [value_congr (swept_writeZero pair s (2 * n)).written, value_false, ← hzero]
    rfl
  · next hne =>
    obtain ⟨hzeros, -, hbelow, hend⟩ := forBreak_spec n (bitTest c)
    have hlt := forBreakEnd_lt hc hne
    have hstart := multipliedBy_copied pair s hbelow (hend hlt) (n := n)
    rw [hzeros, LaneState.run_append]
    generalize s.run pair _ = t at hstart ⊢
    have h : MultipliedBy s c n n (t.run pair ((forLoop _ n 1).flatMap (MultuByConst.addShifted c n))) :=
      forLoop_one_rule (MultipliedBy s c n) hlt hstart fun j t _ _ ht => ht.addShifted pair
    have hproduct := h.product
    rwa [← Nat.two_mul, Nat.mod_eq_of_lt hc] at hproduct

/-- Of the commands for the low `j` bits of the constant: they read no row of `output` before they have written
it, and have written those below `j + n`. -/
structure WrittenUpTo (n j : Nat) (cmds : List (RowCommand MultuByConst.Vec)) : Prop where
  reads : ReadsWritten (fun p => ∃ k, p = .vals k) cmds
  writes : ∀ r < j + n, .output r ∈ cmds.flatMap RowCommand.writes

lemma writtenUpTo_copied (n j : Nat) :
    WrittenUpTo n (j + 1) ((forLoop 0 j 1).flatMap MultuByConst.writeZero ++
      (forLoop 0 n 1).flatMap (MultuByConst.copyBit j) ++ MultuByConst.writeZero (j + n)) := by
  constructor
  · apply readsWritten_of_forall
    simp only [MultuByConst.writeZero, MultuByConst.copyBit, RowCommand.reads, List.flatMap_append,
      List.flatMap_assoc, List.flatMap_singleton, List.mem_append, List.mem_flatMap, List.mem_singleton,
      List.not_mem_nil, and_false, exists_false, false_or, or_false]
    rintro p ⟨k, -, rfl⟩
    exact ⟨k, rfl⟩
  · intro r hr
    simp only [MultuByConst.writeZero, MultuByConst.copyBit, RowCommand.writes, List.flatMap_append,
      List.flatMap_assoc, List.flatMap_singleton, List.mem_append, List.mem_flatMap, List.mem_singleton,
      mem_forLoop_one, MultuByConst.Vec.output.injEq]
    by_cases hlow : r < j
    · exact .inl (.inl ⟨r, ⟨Nat.zero_le _, hlow⟩, rfl⟩)
    · by_cases hcopied : r < j + n
      · exact .inl (.inr ⟨r - j, ⟨Nat.zero_le _, by omega⟩, by omega⟩)
      · exact .inr (by omega)

lemma mem_addShifted_reads {n j : Nat} {p : MultuByConst.Vec}
    (h : p ∈ (MultuByConst.addShifted c n j).flatMap RowCommand.reads) :
    ∃ k < n, p = .output (j + k) ∨ p = .vals k := by
  rw [MultuByConst.addShifted] at h
  split at h
  · simpa [MultuByConst.addBit, addPass, RowCommand.reads, List.flatMap_assoc, mem_forLoop_one] using h
  · simp [MultuByConst.writeZero, RowCommand.reads] at h

lemma WrittenUpTo.addShifted {n j : Nat} {cmds : List (RowCommand MultuByConst.Vec)}
    (h : WrittenUpTo n j cmds) : WrittenUpTo n (j + 1) (cmds ++ MultuByConst.addShifted c n j) := by
  constructor
  · rw [readsWritten_append]
    refine ⟨h.reads, readsWritten_of_forall ?_⟩
    intro p hp
    obtain ⟨k, hk, rfl | rfl⟩ := mem_addShifted_reads hp
    · exact .inr (h.writes _ (by omega))
    · exact .inl ⟨k, rfl⟩
  · intro r hr
    rw [List.flatMap_append, List.mem_append]
    by_cases hrow : r < j + n
    · exact .inl (h.writes r hrow)
    · right
      have hr' : r = j + n := by omega
      rw [hr', MultuByConst.addShifted]
      split <;> simp [MultuByConst.writeZero, RowCommand.writes]

lemma multuByConst_rows {n : Nat} (hc : c.toNat < 2 ^ n) : WrittenUpTo n n (MultuByConst.body c n) := by
  rw [MultuByConst.body]
  split
  · constructor
    · apply readsWritten_of_forall
      simp [MultuByConst.writeZero, RowCommand.reads, List.flatMap_assoc]
    · intro r hr
      simp [MultuByConst.writeZero, RowCommand.writes, List.flatMap_assoc, mem_forLoop_one]
      omega
  · next hne =>
    rw [(forBreak_spec n (bitTest c)).1]
    have h := forLoop_append_rule (WrittenUpTo n) Nat.one_pos (writtenUpTo_copied n (forBreakEnd n (bitTest c)))
      (fun j cmds _ (_ : j < n) (h : WrittenUpTo n j cmds) => h.addShifted (c := c))
    rwa [forLoopEnd_one (forBreakEnd_lt hc hne)] at h

/-- The microprogram multiplies by the constant, writes all rows of `output` and reads none of them before it has
written it. -/
theorem multuByConst_multiplies (colLength : Nat) (hc : c.toNat < 2 ^ colLength) :
    value (fun k => (s.run pair (MultuByConst.body c colLength)).data (.output k)) (2 * colLength) =
      value (fun k => s.data (.vals k)) colLength * c.toNat ∧
    (∀ r < 2 * colLength, .output r ∈ (MultuByConst.body c colLength).flatMap RowCommand.writes) ∧
    ReadsWritten (fun p => ∃ k, p = .vals k) (MultuByConst.body c colLength) := by
  have hrows := multuByConst_rows hc
  refine ⟨multuByConst_product pair s hc, ?_, hrows.reads⟩
  rw [Nat.two_mul]
  exact hrows.writes

end MultuByConst

/-- The number 6 in a lane, and ones in the rows of the output. -/
def sixLane : LaneState MultuByConst.Vec where
  bgroup := ⟨true, true, true, true, true, true⟩
  data
    | .vals k => Nat.testBit 6 k
    | .output _ => true

theorem multuByConst_six_by_five :
    value (fun k => (sixLane.run and (MultuByConst.body 5 3)).data (.output k)) (2 * 3) =
      value (fun k => sixLane.data (.vals k)) 3 * (5 : BitVec 32).toNat :=
  (multuByConst_multiplies and sixLane 3 (by decide)).1

end MimdramLean.Proofs

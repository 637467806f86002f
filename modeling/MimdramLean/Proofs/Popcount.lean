import MimdramLean.Proofs.BitcountSpace
import MimdramLean.Proofs.Passes

/-!
# What `bitcount` counts

The second half of the rows starts one row too early, at the row that is also the carry into the adder. That row is
counted twice, and the last row is not counted at all. So the count is right for every memory only up to
four rows, where the second half is empty.
-/

namespace MimdramLean.Proofs

open Library Bitcount

/-- The rows that a call adds up, with the pointers that it passes on. -/
def countedRows (input n : Nat) : List Nat :=
  if n < 4 then (List.range n).map fun i => input + i
  else
    countedRows input (foo n) ++ countedRows (input + foo n) (n - foo n - 1) ++ [input + foo n]
termination_by n
decreasing_by
  · exact foo_lt (by omega)
  · omega

/-! ### One call -/

/-- The output from `output` on holds the count of some rows; the input and the output before that stay. -/
structure Counted (d d' : Vec → Bool) (rows : List Nat) (output b : Nat) : Prop where
  count : value (fun k => d' (.output (output + k))) b = (rows.map fun i => (d (.input i)).toNat).sum
  inputs : ∀ i, d' (.input i) = d (.input i)
  below : ∀ k < output, d' (.output k) = d (.output k)

variable (pair : Bool → Bool → Bool) {d d' : Vec → Bool}

lemma run_addThree (cells : BGroup) (v1 v2 : Nat) {v3 : RowName Vec} (output : Nat)
    (hv3 : v3 = .c false ∨ ∃ i, v3 = .vec (.input i)) :
    let bit := (LaneState.mk cells d).sense pair v3
    ((LaneState.mk cells d).run pair (addThree (.vec (.input v1)) (.vec (.input v2)) v3 (.vec (.output output))
      (.vec (.output (output + 1))))).data =
    Function.update (Function.update d (.output (output + 1)) (maj bit (d (.input v1)) (d (.input v2))))
      (.output output) (xor (xor bit (d (.input v1))) (d (.input v2))) := by
  intro bit
  rw [← maj_sum]
  rcases hv3 with rfl | ⟨i, rfl⟩
  · simp [addThree, LaneState.run_cons, bit, LaneState.sense]
  · simp [addThree, LaneState.run_cons, bit, LaneState.sense]

lemma counted_addThree (cells : BGroup) (v1 v2 : Nat) {v3 : RowName Vec} (output : Nat)
    (hv3 : v3 = .c false ∨ ∃ i, v3 = .vec (.input i))
    (hd' : d' = ((LaneState.mk cells d).run pair (addThree (.vec (.input v1)) (.vec (.input v2)) v3
      (.vec (.output output)) (.vec (.output (output + 1))))).data) :
    value (fun k => d' (.output (output + k))) 2 =
      (d (.input v1)).toNat + (d (.input v2)).toNat + ((LaneState.mk cells d).sense pair v3).toNat ∧
    (∀ i, d' (.input i) = d (.input i)) ∧ ∀ k < output, d' (.output k) = d (.output k) := by
  rw [run_addThree pair cells v1 v2 output hv3] at hd'
  generalize (LaneState.mk cells d).sense pair v3 = bit at hd' ⊢
  refine ⟨?_, ?_, ?_⟩
  · have hsum : d' (.output (output + 0)) = xor (xor bit (d (.input v1))) (d (.input v2)) := by
      rw [hd']
      exact Function.update_self ..
    have hcarry : d' (.output (output + 1)) = maj bit (d (.input v1)) (d (.input v2)) := by
      rw [hd', Function.update_of_ne (by simp), Function.update_self]
    have hadd := xor_add_maj bit (d (.input v1)) (d (.input v2))
    rw [value_succ, value_succ, value_zero, hsum, hcarry]
    omega
  · intro i
    rw [hd', Function.update_of_ne (by simp), Function.update_of_ne (by simp)]
  · intro k hk
    rw [hd', Function.update_of_ne (by simp; omega), Function.update_of_ne (by simp; omega)]

lemma isOperand_addend (output b1 b2 i : Nat) : IsOperand (addend output b1 b2 i) := by
  rw [addend]
  split
  · exact isOperand_vec _
  · intro row h
    cases h

lemma rippled_combine (t : LaneState Vec) (output b1 b2 : Nat) :
    Rippled t (fun i => t.data (.output (output + i)))
      (fun i => if i < b2 then t.data (.output (output + b1 + i)) else false) t.bgroup.dcc1
      (fun i => .output (output + i)) BGroup.dcc1 b1
      (t.run pair ((forLoop 0 b1 1).flatMap (addBit (.b .dcc1) (.ap (.b .dcc1T0T3)) output b1 b2))) := by
  have h := rippled_addPass pair t (fun i => .output (output + i)) (addend output b1 b2)
    (fun i => .output (output + i)) b1 (fun i k hik => by simpa using hik) (fun k i hi => by simp; omega)
    (isOperand_addend output b1 b2) (by
      intro k i hi
      rw [addend]
      split
      · simp
        omega
      · simp)
  have hsense : (fun i => t.sense pair (addend output b1 b2 i)) =
      fun i => if i < b2 then t.data (.output (output + b1 + i)) else false := by
    funext i
    rw [addend, Nat.add_assoc, Nat.add_comm b1]
    split <;> rfl
  rw [hsense] at h
  exact h

/-- The last body adds the two counts and the row between them. -/
lemma counted_combine (cells : BGroup) (input left output b1 b2 : Nat) (hb : b2 ≤ b1)
    (hd' : d' = ((LaneState.mk cells d).run pair (combine input left output b1 b2)).data) :
    value (fun k => d' (.output (output + k))) (b1 + 1) =
      value (fun k => d (.output (output + k))) b1 + value (fun k => d (.output (output + b1 + k))) b2 +
        (d (.input (input + left))).toNat ∧
    (∀ i, d' (.input i) = d (.input i)) ∧ ∀ k < output, d' (.output k) = d (.output k) := by
  let t := (LaneState.mk cells d).run pair [.aap (.b .dcc1) (.vec (.input (input + left)))]
  have ht : t.data = d ∧ t.bgroup.dcc1 = d (.input (input + left)) := by simp [t, LaneState.run_cons]
  have h := rippled_combine pair t output b1 b2
  rw [combine, LaneState.run_append, LaneState.run_append] at hd'
  change d' = ((t.run pair _).run pair _).data at hd'
  generalize t.run pair _ = u at h hd'
  have hdata : d' = Function.update u.data (.output (output + b1)) u.bgroup.dcc1 := by
    rw [hd']
    simp [LaneState.run_cons]
  refine ⟨?_, ?_, ?_⟩
  · have hsum := sums_value (fun i => t.data (.output (output + i)))
      (fun i => if i < b2 then t.data (.output (output + b1 + i)) else false) t.bgroup.dcc1 b1
    rw [value_extend _ hb, ← h.carry_eq, ← value_congr h.sum_eq, ht.1, ht.2] at hsum
    have hrows : ∀ k < b1, d' (.output (output + k)) = u.data (.output (output + k)) := by
      intro k hk
      rw [hdata, Function.update_of_ne (by simp; omega)]
    rw [value_succ, value_congr hrows, hdata, Function.update_self, hsum]
  · intro i
    rw [hdata, Function.update_of_ne (by simp), h.frame _ (by simp), ht.1]
  · intro k hk
    rw [hdata, Function.update_of_ne (by simp; omega), h.frame _ (fun i _ => by simp; omega), ht.1]

lemma countedRows_of_lt {input n : Nat} (hn : n < 4) :
    countedRows input n = (List.range n).map fun i => input + i := by
  rw [countedRows, if_pos hn]

lemma countedRows_of_le {input n : Nat} (hn : 4 ≤ n) :
    countedRows input n =
      countedRows input (foo n) ++ countedRows (input + foo n) (n - foo n - 1) ++ [input + foo n] := by
  rw [countedRows, if_neg (by omega)]

lemma counted_of_lt_four {input n output : Nat} (hn : n < 4)
    (h : LaneRuns pair (bitcount input n output).bodies d d') :
    Counted d d' (countedRows input n) output (bitcount input n output).bits := by
  rw [countedRows_of_lt hn]
  obtain rfl | rfl | rfl | rfl : n = 0 ∨ n = 1 ∨ n = 2 ∨ n = 3 := by omega
  · rw [bitcount, bitcountWith] at h ⊢
    obtain rfl := h
    exact ⟨rfl, fun _ => rfl, fun _ _ => rfl⟩
  · rw [bitcount, bitcountWith] at h ⊢
    obtain ⟨cells, rfl⟩ := h
    refine ⟨?_, ?_, ?_⟩
    · simp [LaneState.run_cons, value_succ]
    · intro i
      simp [LaneState.run_cons]
    · intro k hk
      have hne : k ≠ output := by omega
      simp [LaneState.run_cons, hne]
  · rw [bitcount, bitcountWith] at h ⊢
    obtain ⟨cells, h⟩ := h
    obtain ⟨hcount, hinputs, hbelow⟩ := counted_addThree pair cells input (input + 1) output (.inl rfl) h
    exact ⟨by simpa [List.range_succ, LaneState.sense] using hcount, hinputs, hbelow⟩
  · rw [bitcount, bitcountWith] at h ⊢
    obtain ⟨cells, h⟩ := h
    obtain ⟨hcount, hinputs, hbelow⟩ := counted_addThree pair cells input (input + 1) output (.inr ⟨_, rfl⟩) h
    exact ⟨by simpa [List.range_succ, LaneState.sense, Nat.add_assoc] using hcount, hinputs, hbelow⟩

theorem bitcount_counted {input n output : Nat} (hlt : n < 2 ^ 32)
    (h : LaneRuns pair (bitcount input n output).bodies d d') :
    Counted d d' (countedRows input n) output (bitcount input n output).bits := by
  induction n using Nat.strong_induction_on generalizing input output d d' with
  | _ n ih =>
    by_cases hn : 4 ≤ n
    · have hfoo := foo_lt (n := n) (by omega)
      have hhalf := half_le_foo n
      let c1 := bitcount input (foo n) output
      let c2 := bitcount (input + foo n) (n - foo n - 1) (output + c1.bits)
      have hbodies : (bitcount input n output).bodies =
          c1.bodies ++ c2.bodies ++ [combine input (foo n) output c1.bits c2.bits] :=
        bitcountWith_bodies input output n hn
      have hbits : (bitcount input n output).bits = 1 + c1.bits := bitcountWith_bits input output n hn
      rw [hbodies, laneRuns_append] at h
      obtain ⟨e₂, hlr, cells, hc⟩ := h
      obtain ⟨e₁, hl, hr⟩ := (laneRuns_append pair).mp hlr
      have hleft := ih (foo n) hfoo (by omega) hl
      have hright := ih (n - foo n - 1) (by omega) (by omega) hr
      have hle : c2.bits ≤ c1.bits := bits_mono _ _ _ _ (by omega) (by omega)
      obtain ⟨hcount, hinputs, hbelow⟩ := counted_combine pair cells input (foo n) output _ _ hle hc
      have hrows : value (fun k => e₂ (.output (output + k))) c1.bits =
          ((countedRows input (foo n)).map fun i => (d (.input i)).toNat).sum := by
        rw [← hleft.count]
        apply value_congr
        intro k hk
        exact hright.below _ (by omega)
      rw [countedRows_of_le hn]
      refine ⟨?_, ?_, ?_⟩
      · rw [hbits, Nat.add_comm, hcount, hrows, hright.count]
        simp only [hright.inputs, hleft.inputs, List.map_append, List.sum_append, List.map_singleton,
          List.sum_singleton]
      · intro i
        rw [hinputs, hright.inputs, hleft.inputs]
      · intro k hk
        rw [hbelow k hk, hright.below k (by omega), hleft.below k hk]
    · exact counted_of_lt_four pair (by omega) h

/-! ### The rows that are left out -/

lemma mem_countedRows {x input n : Nat} (h : x ∈ countedRows input n) : input ≤ x ∧ x < input + n := by
  induction n using Nat.strong_induction_on generalizing input with
  | _ n ih =>
    by_cases hn : 4 ≤ n
    · have hfoo := foo_lt (n := n) (by omega)
      simp only [countedRows_of_le hn, List.mem_append, List.mem_singleton] at h
      rcases h with (h | h) | h
      · have := ih (foo n) hfoo h
        omega
      · have := ih (n - foo n - 1) (by omega) h
        omega
      · omega
    · rw [countedRows_of_lt (by omega), List.mem_map] at h
      obtain ⟨i, hi, rfl⟩ := h
      have := List.mem_range.mp hi
      omega

/-- The last row is left out if there is a second half. -/
lemma last_not_mem_countedRows (input : Nat) {n : Nat} (hn : 4 ≤ n) (hright : foo n + 1 < n) :
    input + (n - 1) ∉ countedRows input n := by
  intro h
  simp only [countedRows_of_le hn, List.mem_append, List.mem_singleton] at h
  rcases h with (h | h) | h
  · have := mem_countedRows h
    omega
  · have := mem_countedRows h
    omega
  · omega

lemma exists_not_mem_countedRows (input : Nat) {n : Nat} (hn : 5 ≤ n) (hlt : n < 2 ^ 32) :
    ∃ j < n, input + j ∉ countedRows input n := by
  by_cases hright : foo n + 1 < n
  · exact ⟨n - 1, by omega, last_not_mem_countedRows input (by omega) hright⟩
  · -- the second half is empty, and the first one has `n - 1` rows and a second half of its own
    have hfoo := foo_lt (n := n) (by omega)
    have hright' : foo (foo n) + 1 < foo n := by
      have hlog := log2_foo (n := n) (by omega) hlt
      have hpow := foo_eq (n := n) (by omega) hlt
      rw [← hlog, Nat.pow_succ] at hpow
      rw [foo_eq (n := foo n) (by omega) (by omega)]
      omega
    refine ⟨n - 2, by omega, ?_⟩
    intro h
    simp only [countedRows_of_le (show 4 ≤ n by omega), List.mem_append, List.mem_singleton] at h
    rcases h with (h | h) | h
    · have heq : n - 2 = foo n - 1 := by omega
      rw [heq] at h
      exact last_not_mem_countedRows input (by omega) hright' h
    · have := mem_countedRows h
      omega
    · omega

lemma countedRows_of_le_four (input : Nat) {n : Nat} (hn : n ≤ 4) :
    countedRows input n = (List.range n).map fun i => input + i := by
  by_cases hlt : n < 4
  · exact countedRows_of_lt hlt
  · obtain rfl : n = 4 := by omega
    have hfoo : foo 4 = 3 := by decide
    rw [countedRows_of_le le_rfl, hfoo, countedRows_of_lt (by omega), countedRows_of_lt (by omega)]
    rfl

/-! ### The program on a memory -/

section Memory

variable {β : Type} {perColRows : Nat} (L : Layout Vec perColRows)

/-- In every lane the output holds the number of input rows whose bit is 1, and the input rows stay. -/
structure CountsOnes (input n output : Nat) (s : VectorMemory β) : Prop where
  count : ∀ r < perColRows, ∀ o < rowSize, ∀ i,
    value (fun k => (s.runBodies pair L (bitcount input n output).bodies).mem
        (L.ptr (.output (output + k)) + r * rowSize + o) i) (bitcount input n output).bits =
      (List.range n).countP fun j => s.mem (L.ptr (.input (input + j)) + r * rowSize + o) i
  inputs : ∀ j < n, ∀ r < perColRows, ∀ o < rowSize, ∀ i,
    (s.runBodies pair L (bitcount input n output).bodies).mem (L.ptr (.input (input + j)) + r * rowSize + o) i =
      s.mem (L.ptr (.input (input + j)) + r * rowSize + o) i

lemma sum_toNat (f : Nat → Bool) (l : List Nat) : (l.map fun j => (f j).toNat).sum = l.countP f := by
  induction l with
  | nil => rfl
  | cons a l ih =>
    rw [List.map_cons, List.sum_cons, ih, List.countP_cons, Nat.add_comm]
    cases f a <;> rfl

lemma runBodies_counted (input output : Nat) {n : Nat} (hlt : n < 2 ^ 32) (s : VectorMemory β) {r o : Nat}
    (hr : r < perColRows) (ho : o < rowSize) (i : β) :
    Counted (fun p => s.mem (L.ptr p + r * rowSize + o) i)
      (fun p => (s.runBodies pair L (bitcount input n output).bodies).mem (L.ptr p + r * rowSize + o) i)
      (countedRows input n) output (bitcount input n output).bits :=
  bitcount_counted pair hlt (runBodies_laneRuns pair L _ s hr ho i)

/-- A memory with ones in one vector only. -/
def onesIn (p : Vec) : VectorMemory β where
  bgroup := fun _ _ _ => ⟨false, false, false, false, false, false⟩
  mem := fun x _ => decide (L.ptr p ≤ x ∧ x < L.ptr p + perColRows * rowSize)

lemma onesIn_mem (p q : Vec) {r o : Nat} (hr : r < perColRows) (ho : o < rowSize) (i : β) :
    (onesIn L p).mem (L.ptr q + r * rowSize + o) i = decide (q = p) := by
  have hrow : r * rowSize + o < perColRows * rowSize := by
    have := Nat.mul_le_mul_right rowSize hr
    rw [Nat.succ_mul] at this
    omega
  rw [onesIn, decide_eq_decide]
  by_cases hqp : q = p
  · subst hqp
    simp only [iff_true]
    omega
  · have := L.disjoint q p hqp
    simp only [hqp, iff_false]
    omega

section LeftOut

variable {L} {input n output j : Nat}

/-- A row that is left out does not show in the count. -/
lemma value_onesIn (hrows : 0 < perColRows) (hlt : n < 2 ^ 32) (hnot : input + j ∉ countedRows input n) (i : β) :
    value (fun k => ((onesIn L (.input (input + j))).runBodies pair L (bitcount input n output).bodies).mem
      (L.ptr (.output (output + k)) + 0 * rowSize + 0) i) (bitcount input n output).bits = 0 := by
  have hzero : 0 < rowSize := by decide
  have hcounted := (runBodies_counted pair L input output hlt (onesIn L (.input (input + j))) hrows hzero i).count
  rw [hcounted, sum_toNat (fun k => (onesIn L (.input (input + j))).mem _ i), List.countP_eq_zero]
  intro k hk
  rw [onesIn_mem L _ _ hrows hzero, decide_eq_true_eq, Vec.input.injEq]
  rintro rfl
  exact hnot hk

lemma not_countsOnes_onesIn (hrows : 0 < perColRows) (hlt : n < 2 ^ 32) (hj : j < n)
    (hnot : input + j ∉ countedRows input n) (i : β) :
    ¬ CountsOnes pair L input n output (onesIn L (.input (input + j)) : VectorMemory β) := by
  intro h
  have hzero : 0 < rowSize := by decide
  have hcount := h.count 0 hrows 0 hzero i
  rw [value_onesIn pair hrows hlt hnot, eq_comm, List.countP_eq_zero] at hcount
  apply hcount j (List.mem_range.mpr hj)
  rw [onesIn_mem L _ _ hrows hzero, decide_eq_true rfl]

end LeftOut

/-- The program returns the number of bits of `n`, and counts right in every memory exactly up to four rows. -/
theorem bitcount_right_iff [Nonempty β] (input n output : Nat) (hrows : 0 < perColRows) (hn : 1 ≤ n)
    (hlt : n < 2 ^ 31) :
    ((bitcount input n output).bits : Int) = floorLog2 n + 1 ∧
    ((∀ s : VectorMemory β, CountsOnes pair L input n output s) ↔ n ≤ 4) := by
  constructor
  · rw [bitcount, bits_eq input output (by omega) (by omega), floorLog2_eq (by omega)]
    push_cast
    ring
  constructor
  · intro h
    by_contra hgt
    obtain ⟨j, hj, hnot⟩ := exists_not_mem_countedRows input (n := n) (by omega) (by omega)
    obtain ⟨i⟩ := ‹Nonempty β›
    exact not_countsOnes_onesIn pair hrows (by omega) hj hnot i (h _)
  · intro h4 s
    refine ⟨?_, ?_⟩
    · intro r hr o ho i
      rw [(runBodies_counted pair L input output (by omega) s hr ho i).count, countedRows_of_le_four input h4,
        List.map_map]
      exact sum_toNat _ _
    · intro j _ r hr o ho i
      exact (runBodies_counted pair L input output (by omega) s hr ho i).inputs _

end Memory

/-- Vectors of one row, input and output in turn. -/
def plainLayout : Layout Vec 1 where
  ptr
    | .input k => 2 * k * rowSize
    | .output k => (2 * k + 1) * rowSize
  disjoint := by
    intro p q hpq
    cases p <;> cases q <;> simp [rowSize] at * <;> omega

theorem bitcount_of_four :
    CountsOnes and plainLayout 0 4 0 (onesIn plainLayout (.input 3) : VectorMemory Unit) :=
  (bitcount_right_iff and plainLayout 0 4 0 (by decide) (by decide) (by decide)).2.mpr (by decide) _

/-- Of five rows the last is not counted. -/
theorem bitcount_of_five :
    value (fun k => ((onesIn plainLayout (.input (0 + 4)) : VectorMemory Unit).runBodies and plainLayout
        (bitcount 0 5 0).bodies).mem (plainLayout.ptr (.output (0 + k)) + 0 * rowSize + 0) ())
      (bitcount 0 5 0).bits = 0 ∧
      ¬ CountsOnes and plainLayout 0 5 0 (onesIn plainLayout (.input (0 + 4)) : VectorMemory Unit) := by
  have hlast : 0 + 4 ∉ countedRows 0 5 := last_not_mem_countedRows 0 (by decide) (by decide)
  exact ⟨value_onesIn and Nat.one_pos (by decide) hlast (),
    not_countsOnes_onesIn and Nat.one_pos (by decide) (by decide) hlast ()⟩

end MimdramLean.Proofs

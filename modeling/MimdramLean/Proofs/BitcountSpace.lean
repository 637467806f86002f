import MimdramLean.Proofs.Bitcount
import Mathlib.Order.Bounds.Basic

/-!
# The space that `bitcount` needs

`foo` is the largest power of two in its argument, less one; a call returns one more than the logarithm. From
this the recursion of `necessary_space` follows the indices that the calls use.
-/

namespace MimdramLean.Proofs

open Library Bitcount

/-! ### `foo` -/

/-- The upper `m` of the bits `0` to `w` are ones. -/
def TopBits (w m x : Nat) : Prop := x < 2 ^ (w + 1) ∧ ∀ i ≤ w, w < i + m → x.testBit i = true

lemma TopBits.smear {w m x : Nat} (h : TopBits w m x) : TopBits w (m + m) (x ||| x >>> m) := by
  refine ⟨or_shiftRight_lt m h.1, ?_⟩
  intro i hi hlt
  rw [Nat.testBit_or, Nat.testBit_shiftRight, Bool.or_eq_true]
  by_cases htop : w < i + m
  · exact .inl (h.2 i hi htop)
  · exact .inr (h.2 (m + i) (by omega) (by omega))

lemma TopBits.eq {w m x : Nat} (h : TopBits w m x) (hm : w < m) : x = 2 ^ (w + 1) - 1 := by
  apply Nat.eq_of_testBit_eq
  intro i
  rw [Nat.testBit_two_pow_sub_one]
  by_cases hi : i ≤ w
  · rw [h.2 i hi (by omega), decide_eq_true (by omega)]
  · rw [decide_eq_false (by omega)]
    apply Nat.testBit_eq_false_of_lt
    exact lt_of_lt_of_le h.1 (Nat.pow_le_pow_right Nat.two_pos (by omega))

theorem foo_eq {n : Nat} (hn : n ≠ 0) (hlt : n < 2 ^ 32) : foo n = 2 ^ n.log2 - 1 := by
  have htop : TopBits n.log2 1 n := by
    refine ⟨Nat.lt_log2_self, ?_⟩
    intro i hi hi'
    have hlog : i = n.log2 := by omega
    rw [hlog]
    exact Nat.testBit_log2 hn
  have hall := htop.smear.smear.smear.smear.smear
  have hlog : n.log2 < 32 := (Nat.log2_lt hn).mpr hlt
  calc foo n = (2 ^ (n.log2 + 1) - 1) >>> 1 := congrArg (· >>> 1) (hall.eq (by omega))
    _ = 2 ^ n.log2 - 1 := by
      rw [Nat.shiftRight_eq_div_pow, Nat.pow_succ]
      omega

/-! ### The logarithm -/

lemma floorLog2Loop_eq {n : Nat} (hn : n ≠ 0) (result : Int) :
    floorLog2Loop n result = result + n.log2 + 1 := by
  induction n using Nat.strong_induction_on generalizing result with
  | _ n ih =>
    rw [floorLog2Loop, if_pos (by omega), Nat.shiftRight_eq_div_pow, Nat.pow_one]
    by_cases hone : n = 1
    · subst hone
      have hlog : Nat.log2 1 = 0 := by decide
      rw [floorLog2Loop, hlog]
      simp
    · have hlog : n.log2 = (n / 2).log2 + 1 := by
        rw [Nat.log2_def, if_pos (by omega)]
      rw [ih (n / 2) (by omega) (by omega), hlog]
      push_cast
      ring

lemma floorLog2_eq {n : Nat} (hn : n ≠ 0) : floorLog2 n = n.log2 := by
  rw [floorLog2, floorLog2Loop_eq hn]
  ring

lemma log2_foo {n : Nat} (hn : 2 ≤ n) (hlt : n < 2 ^ 32) : (foo n).log2 + 1 = n.log2 := by
  have hlog : 1 ≤ n.log2 := (Nat.le_log2 (by omega)).mpr hn
  obtain ⟨w, hw⟩ : ∃ w, n.log2 = w + 1 := ⟨n.log2 - 1, by omega⟩
  have hpos := Nat.two_pow_pos w
  rw [foo_eq (by omega) hlt, hw, Nat.pow_succ, add_left_inj, Nat.log2_eq_iff (by omega), Nat.pow_succ]
  omega

variable {last : Nat → Nat → Nat → Nat → Nat → List (RowCommand Vec)}

/-- A call returns the number of bits of its argument. -/
theorem bits_eq (input output : Nat) {n : Nat} (hn : n ≠ 0) (hlt : n < 2 ^ 32) :
    (bitcountWith last input n output).bits = n.log2 + 1 := by
  induction n using Nat.strong_induction_on with
  | _ n ih =>
    by_cases h4 : 4 ≤ n
    · have hfoo := foo_lt hn
      have hhalf := half_le_foo n
      rw [bitcountWith_bits input output n h4, ih (foo n) hfoo (by omega) (by omega),
        log2_foo (by omega) hlt, Nat.add_comm]
    · obtain rfl | rfl | rfl : n = 1 ∨ n = 2 ∨ n = 3 := by omega
      · rw [bitcountWith]
        rfl
      · rw [bitcountWith]
        rfl
      · rw [bitcountWith]
        rfl

lemma bits_foo (input output : Nat) {n : Nat} (hn : 2 ≤ n) (hlt : n < 2 ^ 32) :
    (bitcountWith last input (foo n) output).bits = n.log2 := by
  have hhalf := half_le_foo n
  have hfoo := foo_lt (n := n) (by omega)
  rw [bits_eq input output (by omega) (by omega), log2_foo hn hlt]

/-! ### The indices in use -/

lemma usesOutput_nil {k : Nat} : ¬ UsesOutput [] k := by
  simp only [UsesOutput, List.not_mem_nil, false_and, exists_false, not_false_iff]

lemma usesOutput_cons {cmd : RowCommand Vec} {cmds : List (RowCommand Vec)} {k : Nat} :
    UsesOutput (cmd :: cmds) k ↔ (.output k ∈ cmd.reads ∨ .output k ∈ cmd.writes) ∨ UsesOutput cmds k := by
  simp only [UsesOutput, List.mem_cons, or_and_right, exists_or, exists_eq_left]

lemma usesOutput_append {cmds cmds' : List (RowCommand Vec)} {k : Nat} :
    UsesOutput (cmds ++ cmds') k ↔ UsesOutput cmds k ∨ UsesOutput cmds' k := by
  simp only [UsesOutput, List.mem_append, or_and_right, exists_or]

lemma usesOutput_flatMap {l : List Nat} {f : Nat → List (RowCommand Vec)} {k : Nat} :
    UsesOutput (l.flatMap f) k ↔ ∃ i ∈ l, UsesOutput (f i) k := by
  simp only [UsesOutput, List.mem_flatMap]
  constructor
  · rintro ⟨cmd, ⟨i, hi, hcmd⟩, h⟩
    exact ⟨i, hi, cmd, hcmd, h⟩
  · rintro ⟨i, hi, cmd, hcmd, h⟩
    exact ⟨cmd, ⟨i, hi, hcmd⟩, h⟩

lemma usesOutput_addBit {output b1 b2 i k : Nat} :
    UsesOutput (addBit (.b .dcc1) (.ap (.b .dcc1T0T3)) output b1 b2 i) k ↔
      k = output + i ∨ (i < b2 ∧ k = output + (i + b1)) := by
  rw [addBit, addend]
  split
  · next hi => simp [usesOutput_cons, usesOutput_nil, RowCommand.reads, RowCommand.writes, hi]; tauto
  · next hi => simp [usesOutput_cons, usesOutput_nil, RowCommand.reads, RowCommand.writes, hi]

lemma usesOutput_combine {input left output b1 b2 k : Nat} :
    UsesOutput (combine input left output b1 b2) k ↔
      (∃ i < b1, k = output + i ∨ (i < b2 ∧ k = output + (i + b1))) ∨ k = output + b1 := by
  have hfirst : ¬ UsesOutput [.aap (.b .dcc1) (.vec (.input (input + left)))] k := by
    simp [UsesOutput, RowCommand.reads, RowCommand.writes]
  have hlast : UsesOutput [.aap (.vec (.output (output + b1))) (.b .dcc1)] k ↔ k = output + b1 := by
    simp [UsesOutput, RowCommand.reads, RowCommand.writes]
  simp only [combine, usesOutput_append, usesOutput_flatMap, usesOutput_addBit, mem_forLoop_one, Nat.zero_le,
    true_and, hfirst, hlast, false_or]

lemma usesOutput_addThree {input output k : Nat} {v3 : RowName Vec}
    (hv3 : v3 = .c false ∨ ∃ i, v3 = .vec (.input i)) :
    UsesOutput (addThree (.vec (.input input)) (.vec (.input (input + 1))) v3 (.vec (.output output))
      (.vec (.output (output + 1)))) k ↔ k = output ∨ k = output + 1 := by
  rcases hv3 with rfl | ⟨i, rfl⟩
  · simp [addThree, usesOutput_cons, usesOutput_nil, RowCommand.reads, RowCommand.writes, or_comm]
  · simp [addThree, usesOutput_cons, usesOutput_nil, RowCommand.reads, RowCommand.writes, or_comm]

lemma necessarySpace_eq {n : Nat} (hn : 4 ≤ n) :
    necessarySpace n =
      max (max (n.log2 + 1 : Int) (n.log2 + necessarySpace (n - foo n - 1))) (necessarySpace (foo n)) := by
  rw [necessarySpace, if_neg (by omega), if_neg (by omega), floorLog2_eq (by omega), Nat.sub_right_comm]
  simp only [max_def]
  split_ifs <;> omega

lemma necessarySpace_of_lt {n : Nat} (hn : n < 4) : necessarySpace n = (min n 2 : Nat) := by
  rw [necessarySpace]
  split_ifs <;> omega

lemma bits_le_space (input output : Nat) {n : Nat} (hlt : n < 2 ^ 32) :
    ((bitcountWith last input n output).bits : Int) ≤ necessarySpace n := by
  by_cases hn : 4 ≤ n
  · rw [bits_eq input output (by omega) hlt, necessarySpace_eq hn]
    push_cast
    exact (le_max_left _ _).trans (le_max_left _ _)
  · obtain rfl | rfl | rfl | rfl : n = 0 ∨ n = 1 ∨ n = 2 ∨ n = 3 := by omega
    all_goals simp [bitcountWith, necessarySpace_of_lt]

lemma bitcount_uses (input output k : Nat) {n : Nat} (hn : 4 ≤ n) (hlt : n < 2 ^ 32) :
    (bitcount input n output).Uses k ↔
      (bitcount input (foo n) output).Uses k ∨
      (bitcount (input + foo n) (n - foo n - 1) (output + n.log2)).Uses k ∨
      (∃ i < n.log2, k = output + i ∨
        (i < (bitcount (input + foo n) (n - foo n - 1) (output + n.log2)).bits ∧ k = output + (i + n.log2))) ∨
      k = output + n.log2 := by
  have hbits : (bitcountWith combine input (foo n) output).bits = n.log2 :=
    bits_foo input output (by omega) hlt
  rw [bitcount, Execution.Uses, bitcountWith_bodies input output n hn]
  simp only [bitcount, hbits, List.flatten_append, List.flatten_cons, List.flatten_nil, List.append_nil,
    usesOutput_append, usesOutput_combine, or_assoc, Execution.Uses]

lemma uses_of_lt_four (input output k : Nat) {n : Nat} (hn : n < 4) :
    (bitcount input n output).Uses k ↔ output ≤ k ∧ k < output + min n 2 := by
  have hone : UsesOutput [.aap (.vec (.output output)) (.vec (.input input))] k ↔ k = output := by
    simp [UsesOutput, RowCommand.reads, RowCommand.writes]
  rw [bitcount, Execution.Uses]
  obtain rfl | rfl | rfl | rfl : n = 0 ∨ n = 1 ∨ n = 2 ∨ n = 3 := by omega
  · simp [bitcountWith, UsesOutput]
  · simp only [bitcountWith, List.flatten_cons, List.flatten_nil, List.append_nil, hone]
    omega
  · simp only [bitcountWith, List.flatten_cons, List.flatten_nil, List.append_nil, usesOutput_addThree (.inl rfl)]
    omega
  · simp only [bitcountWith, List.flatten_cons, List.flatten_nil, List.append_nil,
      usesOutput_addThree (.inr ⟨_, rfl⟩)]
    omega

lemma bitcount_uses_bound (input output : Nat) {n k : Nat} (hlt : n < 2 ^ 32)
    (hk : (bitcount input n output).Uses k) : output ≤ k ∧ (k : Int) < output + necessarySpace n := by
  induction n using Nat.strong_induction_on generalizing input output with
  | _ n ih =>
    by_cases h4 : 4 ≤ n
    · have hfoo := foo_lt (n := n) (by omega)
      have hbits : ((bitcount (input + foo n) (n - foo n - 1) (output + n.log2)).bits : Int) ≤ _ :=
        bits_le_space (input + foo n) (output + n.log2) (by omega)
      have hspace := necessarySpace_eq h4
      rw [bitcount_uses input output k h4 hlt] at hk
      rcases hk with hk | hk | ⟨i, hi, hk | hk⟩ | hk
      · have := ih (foo n) hfoo input output (by omega) hk
        omega
      · have := ih (n - foo n - 1) (by omega) (input + foo n) (output + n.log2) (by omega) hk
        omega
      · omega
      · omega
      · omega
    · rw [uses_of_lt_four input output k (by omega)] at hk
      rw [necessarySpace_of_lt (by omega)]
      omega

lemma exists_uses_last (input output : Nat) {n : Nat} (hn : n ≠ 0) (hlt : n < 2 ^ 32) :
    ∃ k, (bitcount input n output).Uses k ∧ (k : Int) = output + necessarySpace n - 1 := by
  induction n using Nat.strong_induction_on generalizing input output with
  | _ n ih =>
    by_cases h4 : 4 ≤ n
    · have hfoo := foo_lt hn
      have hhalf := half_le_foo n
      have hspace := necessarySpace_eq h4
      simp only [bitcount_uses input output _ h4 hlt]
      have hzero : n - foo n - 1 = 0 → necessarySpace (n - foo n - 1) = 0 := by
        intro h
        rw [h, necessarySpace_of_lt (by omega)]
        rfl
      -- the index is the one of the limit that is the largest
      have hmax : necessarySpace n = n.log2 + 1 ∨ necessarySpace n = n.log2 + necessarySpace (n - foo n - 1) ∧
          n - foo n - 1 ≠ 0 ∨ necessarySpace n = necessarySpace (foo n) := by
        omega
      rcases hmax with hmax | ⟨hmax, hne⟩ | hmax
      · exact ⟨output + n.log2, .inr (.inr (.inr rfl)), by omega⟩
      · obtain ⟨k, hk, heq⟩ := ih _ (by omega) (input + foo n) (output + n.log2) hne (by omega)
        exact ⟨k, .inr (.inl hk), by omega⟩
      · obtain ⟨k, hk, heq⟩ := ih _ hfoo input output (by omega) (by omega)
        exact ⟨k, .inl hk, by omega⟩
    · simp only [necessarySpace_of_lt (show n < 4 by omega), uses_of_lt_four input output _ (show n < 4 by omega)]
      exact ⟨output + min n 2 - 1, by omega, by omega⟩

/-- `necessary_space` is the number of output vectors that a call uses: the largest index is one less. -/
theorem necessarySpace_exact (input output n : Nat) (hn : 1 ≤ n) (hlt : n < 2 ^ 31) :
    IsGreatest {i : Int | ∃ k : Nat, (bitcount input n output).Uses k ∧ i = k - output} (necessarySpace n - 1) ∧
      ∀ k, (bitcount input n output).Uses k → output ≤ k := by
  have hbound := fun k => bitcount_uses_bound input output (n := n) (k := k) (by omega)
  refine ⟨⟨?_, ?_⟩, fun k hk => (hbound k hk).1⟩
  · obtain ⟨k, hk, heq⟩ := exists_uses_last input output (n := n) (by omega) (by omega)
    exact ⟨k, hk, by omega⟩
  · rintro i ⟨k, hk, rfl⟩
    have := (hbound k hk).2
    omega

theorem necessarySpace_exact_nine :
    IsGreatest {i : Int | ∃ k : Nat, (bitcount 0 9 0).Uses k ∧ i = k - (0 : Nat)} (necessarySpace 9 - 1) :=
  (necessarySpace_exact 0 0 9 (by decide) (by decide)).1

/-! ### The split -/

/-- A call for `n` rows calls itself for `m` rows. -/
inductive CallsFor : Nat → Nat → Prop
  | left {n : Nat} (hn : 4 ≤ n) : CallsFor (foo n) n
  | right {n m : Nat} (hn : 4 ≤ n) (hm : foo n + 1 + m = n) : CallsFor m n

lemma CallsFor.lt {m n : Nat} (h : CallsFor m n) : m < n := by
  cases h with
  | left hn => exact foo_lt (by omega)
  | right hn hm => omega

lemma callsFor_wellFounded : WellFounded CallsFor := Subrelation.wf CallsFor.lt Nat.lt_wfRel.wf

/-- The right part is not larger than the left one. -/
lemma right_le_foo {n : Nat} (hn : n ≠ 0) (hlt : n < 2 ^ 32) : n - foo n - 1 ≤ foo n := by
  have hpow : n < 2 ^ (n.log2 + 1) := Nat.lt_log2_self
  have hpos := Nat.two_pow_pos n.log2
  rw [foo_eq hn hlt]
  rw [Nat.pow_succ] at hpow
  omega

lemma log2_mono {m n : Nat} (hm : m ≠ 0) (hle : m ≤ n) : m.log2 ≤ n.log2 :=
  (Nat.le_log2 (by omega)).mpr ((Nat.log2_self_le hm).trans hle)

lemma bits_mono (input output input' output' : Nat) {m n : Nat} (hle : m ≤ n) (hlt : n < 2 ^ 32) :
    (bitcountWith last input' m output').bits ≤ (bitcountWith last input n output).bits := by
  by_cases hm : m = 0
  · subst hm
    rw [bitcountWith]
    exact Nat.zero_le _
  · rw [bits_eq input' output' hm (by omega), bits_eq input output (by omega) hlt]
    exact Nat.succ_le_succ (log2_mono hm hle)

/-- A second addend of no more bits than the first is added completely, and zeros after it. -/
lemma map_addend (output : Nat) {b1 b2 : Nat} (hle : b2 ≤ b1) :
    (forLoop 0 b1 1).map (addend output b1 b2) =
      ((List.range b2).map fun i => .vec (.output (output + (i + b1)))) ++ List.replicate (b1 - b2) (.c false) := by
  obtain ⟨k, rfl⟩ := Nat.exists_eq_add_of_le hle
  have hbits : (List.range b2).map (addend output (b2 + k) b2) =
      (List.range b2).map fun i => .vec (.output (output + (i + (b2 + k)))) :=
    List.map_congr_left fun i hi => if_pos (List.mem_range.mp hi)
  have hzeros : (List.range k).map (addend output (b2 + k) b2 ∘ (b2 + ·)) = List.replicate k (.c false) := by
    rw [← List.length_range (n := k), ← List.map_const', List.length_range]
    exact List.map_congr_left fun i _ => if_neg (Nat.not_lt.mpr (Nat.le_add_right b2 i))
  rw [forLoop_zero_one, List.range_add, List.map_append, List.map_map, hbits, hzeros, Nat.add_sub_cancel_left]

/-- The two routines agree on the logarithm. For four rows and more the split leaves a right part that is not
negative and not larger than the left one, the left part is counted in `floor_log2(n)` bits, the right part in no
more, so that the last loop adds all of its bits; and the recursion ends. -/
theorem bitcount_splits (n : Nat) (hn : 1 ≤ n) (hlt : n < 2 ^ 31) :
    foo n = 2 ^ n.log2 - 1 ∧ floorLog2 n = n.log2 ∧ Acc CallsFor n ∧
    (4 ≤ n → (0 ≤ (n - foo n - 1 : Int) ∧ (n - foo n - 1 : Int) ≤ foo n ∧ foo n < n) ∧
      ∀ input output : Nat, ∃ b1 b2,
        (bitcount input (foo n) output).bits = b1 ∧
        (bitcount (input + foo n) (n - foo n - 1) (output + b1)).bits = b2 ∧
        (b1 : Int) = floorLog2 n ∧ b2 ≤ b1 ∧
        (forLoop 0 b1 1).map (addend output b1 b2) =
          ((List.range b2).map fun i => .vec (.output (output + (i + b1)))) ++
            List.replicate (b1 - b2) (.c false)) := by
  have hlog := floorLog2_eq (n := n) (by omega)
  refine ⟨foo_eq (by omega) (by omega), hlog, callsFor_wellFounded.apply n, ?_⟩
  intro h4
  have hfoo := foo_lt (n := n) (by omega)
  have hright := right_le_foo (n := n) (by omega) (by omega)
  refine ⟨⟨by omega, by omega, hfoo⟩, ?_⟩
  intro input output
  have hle : (bitcount (input + foo n) (n - foo n - 1) (output + (bitcount input (foo n) output).bits)).bits ≤
      (bitcount input (foo n) output).bits := bits_mono input output _ _ hright (by omega)
  refine ⟨_, _, rfl, rfl, ?_, hle, map_addend output hle⟩
  rw [hlog, bitcount, bits_foo input output (by omega) (by omega)]

theorem bitcount_splits_nine :
    foo 9 = 7 ∧ floorLog2 9 = 3 ∧ 0 ≤ ((9 : Nat) - foo 9 - 1 : Int) ∧ ((9 : Nat) - foo 9 - 1 : Int) ≤ foo 9 := by
  obtain ⟨hfoo, hlog, -, hsplit⟩ := bitcount_splits 9 (by decide) (by decide)
  obtain ⟨⟨hright, hle, -⟩, -⟩ := hsplit (by decide)
  exact ⟨hfoo, hlog, hright, hle⟩

end MimdramLean.Proofs

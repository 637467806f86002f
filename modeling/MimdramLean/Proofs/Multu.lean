import MimdramLean.Microprograms
import MimdramLean.Proofs.FullAdder

/-!
# The multiplication microprogram

`11_multu-plus.c` is shift-and-add with `output` as accumulator. Round `j` adds partial product `j` to
`output[j..]`; what it leaves is the product of `vals2` with the bits `0..j` of `vals1`.
-/

namespace MimdramLean.Proofs

open Library Multu

variable (pair : Bool → Bool → Bool)

/-! ### One bit -/

lemma run_initBit_data (s : LaneState Vec) (k : Nat) : (s.run pair (initBit k)).data =
    Function.update s.data (.output k) (s.data (.vals1 0) && s.data (.vals2 k)) := by
  simp [initBit, LaneState.run_cons]

lemma run_addBit_data (s : LaneState Vec) (j k : Nat) : (s.run pair (addBit j k)).data =
    Function.update s.data (.output (j + k))
      (xor (xor (s.data (.output (j + k))) (s.data (.vals1 j) && s.data (.vals2 k))) s.bgroup.dcc1) := by
  simp [addBit, LaneState.run_cons, maj_sum]

lemma run_addBit_carry (s : LaneState Vec) (j k : Nat) : (s.run pair (addBit j k)).bgroup.dcc1 =
    maj (s.data (.output (j + k))) (s.data (.vals1 j) && s.data (.vals2 k)) s.bgroup.dcc1 := by
  simp [addBit, LaneState.run_cons]

/-! ### One round -/

/-- The bits of partial product `j`. -/
def partialProduct (s : LaneState Vec) (j k : Nat) : Bool := s.data (.vals1 j) && s.data (.vals2 k)

lemma rippled_addBits (s : LaneState Vec) (colLength j : Nat) :
    Rippled s (fun i => s.data (.output (j + i))) (partialProduct s j) s.bgroup.dcc1
      (fun i => .output (j + i)) BGroup.dcc1 colLength
      (s.run pair ((forLoop 0 colLength 1).flatMap (addBit j))) := by
  have hread : ∀ k, ∀ t : LaneState Vec, (∀ v, (∀ i < k, v ≠ .output (j + i)) → t.data v = s.data v) →
      t.data (.output (j + k)) = s.data (.output (j + k)) ∧
        (t.data (.vals1 j) && t.data (.vals2 k)) = partialProduct s j k := by
    intro k t ht
    rw [ht (.vals1 j) (by simp), ht (.vals2 k) (by simp), ht (.output (j + k)) (by simp; omega)]
    exact ⟨rfl, rfl⟩
  apply ripple_loop pair rfl
  · intro i k heq
    injection heq
    omega
  · intro k _ t ht
    rw [run_addBit_data, (hread k t ht).1, (hread k t ht).2]
  · intro k _ t ht
    rw [run_addBit_carry, (hread k t ht).1, (hread k t ht).2]

/-- What a round keeps, and the number it leaves in the accumulator. -/
lemma run_round (s : LaneState Vec) (colLength j : Nat) :
    let t := s.run pair (round colLength j)
    (∀ k, t.data (.vals1 k) = s.data (.vals1 k)) ∧ (∀ k, t.data (.vals2 k) = s.data (.vals2 k)) ∧
    value (fun k => t.data (.output k)) (j + colLength + 1) =
      value (fun k => s.data (.output k)) (j + colLength) +
        2 ^ j * ((s.data (.vals1 j)).toNat * value (fun k => s.data (.vals2 k)) colLength) := by
  intro t
  let s' := s.run pair [.aap (.b .dcc1) (.c false)]
  let u := s'.run pair ((forLoop 0 colLength 1).flatMap (addBit j))
  have hs' : s'.data = s.data := rfl
  have hcarry : s'.bgroup.dcc1 = false := rfl
  have hu := rippled_addBits pair s' colLength j
  have ht : t.data = Function.update u.data (.output (j + colLength)) u.bgroup.dcc1 := by
    simp only [t, Multu.round, LaneState.run_append]
    change (u.run pair [.aap (.vec (.output (j + colLength))) (.b .dcc1)]).data = _
    simp [LaneState.run_cons]
  refine ⟨?_, ?_, ?_⟩
  · intro k
    rw [ht, Function.update_of_ne (by simp), hu.frame _ (by simp), hs']
  · intro k
    rw [ht, Function.update_of_ne (by simp), hu.frame _ (by simp), hs']
  · have hsum := hu.value_stored (fun _ _ => Vec.output.inj) ht
    have hprod : value (partialProduct s' j) colLength =
        (s.data (.vals1 j)).toNat * value (fun k => s.data (.vals2 k)) colLength := value_and _ _ _
    rw [hsum, hprod, hcarry, hs', Bool.toNat_false, Nat.add_zero]

/-! ### The program -/

/-- `output` holds the product of `vals2` with the low `j` bits of `vals1`. -/
structure Multiplied (s : LaneState Vec) (colLength j : Nat) (t : LaneState Vec) : Prop where
  vals1 : ∀ k, t.data (.vals1 k) = s.data (.vals1 k)
  vals2 : ∀ k, t.data (.vals2 k) = s.data (.vals2 k)
  product : value (fun k => t.data (.output k)) (j + colLength) =
    value (fun k => s.data (.vals1 k)) j * value (fun k => s.data (.vals2 k)) colLength

lemma Multiplied.round {s t : LaneState Vec} {colLength j : Nat} (h : Multiplied s colLength j t) :
    Multiplied s colLength (j + 1) (t.run pair (round colLength j)) := by
  obtain ⟨h1, h2, hval⟩ := run_round pair t colLength j
  refine ⟨fun k => (h1 k).trans (h.vals1 k), fun k => (h2 k).trans (h.vals2 k), ?_⟩
  have hv2 : value (fun k => t.data (.vals2 k)) colLength =
      value (fun k => s.data (.vals2 k)) colLength := value_congr fun k _ => h.vals2 k
  rw [Nat.add_right_comm, hval, h.product, h.vals1, hv2, value_succ]
  ring

/-- After `k` passes of the first loop. -/
structure Initialized (s : LaneState Vec) (k : Nat) (t : LaneState Vec) : Prop where
  bits : ∀ i < k, t.data (.output i) = (s.data (.vals1 0) && s.data (.vals2 i))
  vals1 : ∀ i, t.data (.vals1 i) = s.data (.vals1 i)
  vals2 : ∀ i, t.data (.vals2 i) = s.data (.vals2 i)

lemma initialized_loop (s : LaneState Vec) (colLength : Nat) :
    Initialized s colLength (s.run pair ((forLoop 0 colLength 1).flatMap initBit)) := by
  have h : Swept s .output (fun _ => ()) (fun _ => ()) (fun k => s.data (.vals1 0) && s.data (.vals2 k)) colLength
      (s.run pair ((forLoop 0 colLength 1).flatMap initBit)) := by
    apply sweep_loop pair rfl fun _ _ => Vec.output.inj
    intro k _ t ht
    rw [run_initBit_data, ht.frame (.vals1 0) (by simp), ht.frame (.vals2 k) (by simp)]
    exact ⟨rfl, rfl⟩
  exact ⟨h.written, fun i => h.frame _ (by simp), fun i => h.frame _ (by simp)⟩

/-- The first partial product, with a zero above it. -/
lemma multiplied_one (s : LaneState Vec) (colLength : Nat) :
    Multiplied s colLength 1 (s.run pair ((forLoop 0 colLength 1).flatMap initBit ++
      [.aap (.vec (.output colLength)) (.c false)])) := by
  have h := initialized_loop pair s colLength
  rw [LaneState.run_append]
  generalize s.run pair ((forLoop 0 colLength 1).flatMap initBit) = t at h
  have ht : (t.run pair [.aap (.vec (.output colLength)) (.c false)]).data =
      Function.update t.data (.output colLength) false := by
    simp [LaneState.run_cons]
  refine ⟨?_, ?_, ?_⟩
  · intro k
    rw [ht, Function.update_of_ne (by simp), h.vals1]
  · intro k
    rw [ht, Function.update_of_ne (by simp), h.vals2]
  · have hlow : value (fun k => Function.update t.data (.output colLength) false (.output k)) colLength =
        value (fun k => s.data (.vals1 0) && s.data (.vals2 k)) colLength := by
      apply value_congr
      intro k hk
      rw [Function.update_of_ne (by simp; omega), h.bits k hk]
    rw [ht, Nat.add_comm 1, value_succ, hlow, Function.update_self, value_and]
    simp [value_succ]

lemma multiplied_body (s : LaneState Vec) (colLength : Nat) (hpos : 1 ≤ colLength) :
    Multiplied s colLength colLength (s.run pair (body colLength)) := by
  rw [body, LaneState.run_append]
  apply forLoop_one_rule (Multiplied s colLength) hpos
  · exact multiplied_one pair s colLength
  · intro j t _ _ ht
    exact ht.round pair

/-- Every row of the product is the destination of some command. -/
lemma output_written (colLength r : Nat) (hr : r < 2 * colLength) :
    ∃ src, RowCommand.aap (.vec (.output r)) src ∈ body colLength := by
  rcases Nat.lt_trichotomy r colLength with hlt | heq | hgt
  · refine ⟨.b .t0T1T2, ?_⟩
    simp only [body, List.mem_append, List.mem_flatMap]
    exact .inl (.inl ⟨r, mem_forLoop_one.mpr ⟨by omega, hlt⟩, by simp [initBit]⟩)
  · refine ⟨.c false, ?_⟩
    simp [body, heq]
  · refine ⟨.b .dcc1, ?_⟩
    simp only [body, List.mem_append, List.mem_flatMap]
    refine .inr ⟨r - colLength, mem_forLoop_one.mpr ⟨by omega, by omega⟩, ?_⟩
    simp only [Multu.round, List.mem_append, List.mem_singleton]
    exact .inr (by rw [Nat.sub_add_cancel (by omega)])

/-- The microprogram multiplies: for numbers of any width and any content of the B-group and of
`output`, the product is left in `output`, all of whose rows are written, and the operands stay. -/
theorem multu_body_multiplies (s : LaneState Vec) (colLength : Nat) :
    let t := s.run pair (body colLength)
    value (fun k => t.data (.output k)) (2 * colLength) =
      value (fun k => s.data (.vals1 k)) colLength * value (fun k => s.data (.vals2 k)) colLength ∧
    (∀ r < 2 * colLength, ∃ src, RowCommand.aap (.vec (.output r)) src ∈ body colLength) ∧
    (∀ k, t.data (.vals1 k) = s.data (.vals1 k)) ∧ ∀ k, t.data (.vals2 k) = s.data (.vals2 k) := by
  intro t
  rcases Nat.eq_zero_or_pos colLength with rfl | hpos
  · have ht : t.data = Function.update s.data (.output 0) false := by
      simp [t, body, forLoop, LaneState.run_cons]
    simp [ht, body]
  · have h := multiplied_body pair s colLength hpos
    rw [Nat.two_mul]
    exact ⟨h.product, fun r hr => output_written colLength r (by omega), h.vals1, h.vals2⟩

end MimdramLean.Proofs

import MimdramLean.Elementwise
import MimdramLean.Proofs.Passes

/-!
# Addition, subtraction, selection, minimum and maximum

The adder and the subtractor are right for every width. The selection loses its first operand, and with it
the minimum and the maximum.
-/

namespace MimdramLean.Proofs

open Library

variable (pair : Bool → Bool → Bool)

/-! ### Addition and subtraction -/

lemma output_injective : Function.Injective PairVec.output := fun _ _ => PairVec.output.inj

lemma rippled_addition (s : LaneState PairVec) (colLength : Nat) :
    Rippled s (fun k => s.data (.vals1 k)) (fun k => s.data (.vals2 k)) false .output BGroup.dcc1 colLength
      (s.run pair (Addition.body colLength)) := by
  rw [Addition.body, LaneState.run_append]
  have h := rippled_addPass pair (s.run pair [.aap (.b .dcc1) (.c false)]) .vals1 (fun k => .vec (.vals2 k))
    .output colLength output_injective (by simp) (fun k => isOperand_vec _) (by simp)
  exact ⟨h.carry_eq, h.sum_eq, h.frame⟩

/-- The microprogram adds: it leaves the sum modulo the width in `output` and the carry in `B_DCC1`. -/
theorem addition_body_adds (s : LaneState PairVec) (colLength : Nat) :
    let t := s.run pair (Addition.body colLength)
    let a := value (fun k => s.data (.vals1 k)) colLength
    let b := value (fun k => s.data (.vals2 k)) colLength
    value (fun k => t.data (.output k)) colLength = (a + b) % 2 ^ colLength ∧
    t.bgroup.dcc1.toNat = (a + b) / 2 ^ colLength ∧
    (∀ k, t.data (.vals1 k) = s.data (.vals1 k)) ∧ ∀ k, t.data (.vals2 k) = s.data (.vals2 k) := by
  intro t a b
  have h := rippled_addition pair s colLength
  have hsum : value (fun k => t.data (.output k)) colLength + 2 ^ colLength * t.bgroup.dcc1.toNat = a + b := by
    have hadd := sums_value (fun k => s.data (.vals1 k)) (fun k => s.data (.vals2 k)) false colLength
    rw [← h.carry_eq, ← value_congr h.sum_eq, Bool.toNat_false, Nat.add_zero] at hadd
    exact hadd
  obtain ⟨hdiv, hmod⟩ := (Nat.div_mod_unique (Nat.two_pow_pos colLength)).mpr ⟨hsum, value_lt _ _⟩
  exact ⟨hmod.symm, hdiv.symm, fun k => h.frame _ (by simp), fun k => h.frame _ (by simp)⟩

lemma rippled_subtraction (s : LaneState PairVec) (colLength : Nat) :
    Rippled s (fun k => s.data (.vals1 k)) (fun k => !s.data (.vals2 k)) true .output BGroup.dcc0 colLength
      (s.run pair (Subtraction.body colLength)) := by
  rw [Subtraction.body, LaneState.run_append]
  have h := rippled_subtractPass pair (s.run pair [.aap (.b .dcc0) (.c true)]) .vals1 .vals2 .output colLength
    output_injective (by simp) (by simp)
  exact ⟨h.carry_eq, h.sum_eq, h.frame⟩

/-- The microprogram subtracts: it leaves the difference modulo the width in `output`, and in `B_DCC0` whether
there was nothing to borrow. -/
theorem subtraction_body_subtracts (s : LaneState PairVec) (colLength : Nat) :
    let t := s.run pair (Subtraction.body colLength)
    let a := value (fun k => s.data (.vals1 k)) colLength
    let b := value (fun k => s.data (.vals2 k)) colLength
    (value (fun k => t.data (.output k)) colLength : Int) = ((a : Int) - b) % 2 ^ colLength ∧
    (t.bgroup.dcc0 = true ↔ b ≤ a) ∧
    (∀ k, t.data (.vals1 k) = s.data (.vals1 k)) ∧ ∀ k, t.data (.vals2 k) = s.data (.vals2 k) := by
  intro t a b
  have h := rippled_subtraction pair s colLength
  have hcarry : t.bgroup.dcc0 = true ↔ b ≤ a := by
    rw [h.carry_eq]
    exact carries_not_eq_true _ _ colLength
  refine ⟨?_, hcarry, fun k => h.frame _ (by simp), fun k => h.frame _ (by simp)⟩
  have hsum := sums_value (fun k => s.data (.vals1 k)) (fun k => !s.data (.vals2 k)) true colLength
  rw [← h.carry_eq, ← value_congr h.sum_eq, Bool.toNat_true] at hsum
  have hnot := value_not (fun k => s.data (.vals2 k)) colLength
  have hlt := value_lt (fun k => t.data (.output k)) colLength
  have heq : (a : Int) - b = value (fun k => t.data (.output k)) colLength +
      2 ^ colLength * ((t.bgroup.dcc0.toNat : Int) - 1) := by
    zify at hsum hnot
    linarith
  rw [heq, Int.add_mul_emod_self_left, Int.emod_eq_of_lt (Int.natCast_nonneg _)]
  exact_mod_cast hlt

/-! ### Selection -/

lemma swept_selectLoop (s : LaneState SelectVec) (colLength : Nat) :
    Swept s .output (fun _ => ()) (fun _ => ()) (fun k => s.data .s || s.data (.vals2 k)) colLength
      (s.run pair (selectLoop colLength)) := by
  apply sweep_loop pair rfl (fun _ _ => SelectVec.output.inj)
  intro k _ t ht
  rw [run_selectPass_data, ht.frame .s (by simp), ht.frame (.vals2 k) (by simp)]
  exact ⟨rfl, rfl⟩

/-- `output = s ? vals1 : vals2`, and the operands stay. -/
structure Selects (s : LaneState SelectVec) (colLength : Nat) (t : LaneState SelectVec) : Prop where
  output : ∀ j < colLength, t.data (.output j) = if s.data .s then s.data (.vals1 j) else s.data (.vals2 j)
  vals1 : ∀ k, t.data (.vals1 k) = s.data (.vals1 k)
  vals2 : ∀ k, t.data (.vals2 k) = s.data (.vals2 k)
  selection : t.data .s = s.data .s

/-- The microprogram selects in a lane exactly if the lane selects `vals2`, or `vals1` has ones only: where
`selection` is 1 every bit of the output is 1. -/
theorem ifThenElse_selects_iff (s : LaneState SelectVec) (colLength : Nat) :
    Selects s colLength (s.run pair (IfThenElse.body colLength)) ↔
      (s.data .s = true → ∀ j < colLength, s.data (.vals1 j) = true) := by
  have h := swept_selectLoop pair s colLength
  constructor
  · intro hsel hs j hj
    have hout := hsel.output j hj
    rw [IfThenElse.body, h.written j hj, hs] at hout
    exact hout.symm
  · intro hones
    refine ⟨?_, fun k => h.frame _ (by simp), fun k => h.frame _ (by simp), h.frame _ (by simp)⟩
    intro j hj
    rw [IfThenElse.body, h.written j hj]
    cases hs : s.data .s with
    | false => rfl
    | true => exact (hones hs j hj).symm

/-- A lane that selects the operand 0 of width 1. -/
def selectsZero : LaneState SelectVec where
  bgroup := ⟨false, false, false, false, false, false⟩
  data
    | .s => true
    | _ => false

/-- It gets a 1. -/
theorem selectsZero_gets_one :
    (selectsZero.run and (IfThenElse.body 1)).data (.output 0) = true ∧
      ¬ Selects selectsZero 1 (selectsZero.run and (IfThenElse.body 1)) := by
  have hout : (selectsZero.run and (IfThenElse.body 1)).data (.output 0) = true := by rfl
  refine ⟨hout, ?_⟩
  intro h
  have hzero := h.output 0 (by decide)
  rw [hout] at hzero
  cases hzero

/-! ### Minimum and maximum -/

/-- What the two programs do once their flag is in `B_T2`. -/
lemma run_select_flag {s t : LaneState SelectVec} {flag : Bool} (hdata : t.data = s.data)
    (hflag : t.bgroup.t2 = flag) (n : Nat) :
    let u := (t.run pair [.aap (.vec .s) (.b .t2)]).run pair (selectLoop n)
    (∀ j < n, u.data (.output j) = (flag || s.data (.vals2 j))) ∧
      (∀ k, u.data (.vals1 k) = s.data (.vals1 k)) ∧ ∀ k, u.data (.vals2 k) = s.data (.vals2 k) := by
  intro u
  have hstore : (t.run pair [.aap (.vec .s) (.b .t2)]).data = Function.update s.data .s flag := by
    simp [LaneState.run_cons, hdata, hflag]
  have h := swept_selectLoop pair (t.run pair [.aap (.vec .s) (.b .t2)]) n
  refine ⟨?_, ?_, ?_⟩
  · intro j hj
    rw [h.written j hj, hstore, Function.update_self, Function.update_of_ne (by simp)]
  · intro k
    rw [h.frame _ (by simp), hstore, Function.update_of_ne (by simp)]
  · intro k
    rw [h.frame _ (by simp), hstore, Function.update_of_ne (by simp)]

/-- `output` holds the number `m`, and the operands stay. -/
structure Leaves (s : LaneState SelectVec) (colLength m : Nat) (t : LaneState SelectVec) : Prop where
  output : value (fun k => t.data (.output k)) colLength = m
  vals1 : ∀ k, t.data (.vals1 k) = s.data (.vals1 k)
  vals2 : ∀ k, t.data (.vals2 k) = s.data (.vals2 k)

/-- With the flag set the output is ones only. -/
lemma leaves_iff_of_flag {s t : LaneState SelectVec} {flag : Bool} (hdata : t.data = s.data)
    (hflag : t.bgroup.t2 = flag) (n m : Nat) :
    Leaves s n m ((t.run pair [.aap (.vec .s) (.b .t2)]).run pair (selectLoop n)) ↔
      (if flag then 2 ^ n - 1 else value (fun k => s.data (.vals2 k)) n) = m := by
  obtain ⟨hout, hvals1, hvals2⟩ := run_select_flag pair hdata hflag n
  have hvalue := value_congr hout
  rw [value_or] at hvalue
  constructor
  · intro h
    rw [← hvalue]
    exact h.output
  · intro h
    exact ⟨hvalue.trans h, hvals1, hvals2⟩

lemma min_leaves_iff (s : LaneState SelectVec) (n m : Nat) :
    Leaves s n m (s.run pair (Min.body n)) ↔
      (if value (fun k => s.data (.vals1 k)) n < value (fun k => s.data (.vals2 k)) n then 2 ^ n - 1
        else value (fun k => s.data (.vals2 k)) n) = m := by
  obtain ⟨hdata, hflag⟩ := run_compareLoop pair s Min.compareBit false (fun k => s.data (.vals2 k))
    (fun k => s.data (.vals1 k)) n (by
      intro k t ht
      simp [Min.compareBit, LaneState.run_cons, ht])
  rw [Min.body, LaneState.run_append, LaneState.run_append, leaves_iff_of_flag pair hdata hflag]
  simp only [decide_eq_true_eq, Bool.toNat_false, Nat.add_zero]

lemma max_leaves_iff (s : LaneState SelectVec) (n m : Nat) :
    Leaves s n m (s.run pair (Max.body n)) ↔
      (if value (fun k => s.data (.vals2 k)) n < value (fun k => s.data (.vals1 k)) n then 2 ^ n - 1
        else value (fun k => s.data (.vals2 k)) n) = m := by
  obtain ⟨hdata, hflag⟩ := run_compareLoop pair s Max.compareBit false (fun k => s.data (.vals1 k))
    (fun k => s.data (.vals2 k)) n (by
      intro k t ht
      simp [Max.compareBit, LaneState.run_cons, ht])
  rw [Max.body, LaneState.run_append, LaneState.run_append, leaves_iff_of_flag pair hdata hflag]
  simp only [decide_eq_true_eq, Bool.toNat_false, Nat.add_zero]

/-- The minimum is right exactly if it is `vals2`, and the maximum exactly if it is `vals2` or has ones only. -/
theorem min_max_right_iff (s : LaneState SelectVec) (colLength : Nat) :
    let a := value (fun k => s.data (.vals1 k)) colLength
    let b := value (fun k => s.data (.vals2 k)) colLength
    (Leaves s colLength (min a b) (s.run pair (Min.body colLength)) ↔ b ≤ a) ∧
    (Leaves s colLength (max a b) (s.run pair (Max.body colLength)) ↔ a ≤ b ∨ a + 1 = 2 ^ colLength) := by
  intro a b
  have ha : a < 2 ^ colLength := value_lt _ _
  have hb : b < 2 ^ colLength := value_lt _ _
  rw [min_leaves_iff, max_leaves_iff]
  constructor
  · split <;> omega
  · split <;> omega

/-- The numbers 1 and 2 of width 2. -/
def oneAndTwo : LaneState SelectVec where
  bgroup := ⟨false, false, false, false, false, false⟩
  data
    | .vals1 0 => true
    | .vals2 1 => true
    | _ => false

/-- The minimum of 1 and 2 comes out as 3. -/
theorem min_of_oneAndTwo :
    value (fun k => (oneAndTwo.run and (Min.body 2)).data (.output k)) 2 = 3 ∧
      ¬ Leaves oneAndTwo 2 (min 1 2) (oneAndTwo.run and (Min.body 2)) := by
  have hout : value (fun k => (oneAndTwo.run and (Min.body 2)).data (.output k)) 2 = 3 := by decide
  refine ⟨hout, ?_⟩
  intro h
  have hmin := h.output
  rw [hout] at hmin
  cases hmin

end MimdramLean.Proofs

import MimdramLean.Proofs.FullAdder

/-!
# The passes that several programs share

What one pass does to a lane, and what a loop of such passes computes: a loop of `addPass` is a ripple
adder, a loop of `subtractPass` a ripple subtractor.
-/

namespace MimdramLean.Proofs

open Library

variable {P : Type} (pair : Bool → Bool → Bool)

/-! ### Operands -/

/-- Rows that no command on the B-group changes. -/
def IsOperand (v : RowName P) : Prop := ∀ row, v ≠ .b row

lemma isOperand_vec (p : P) : IsOperand (.vec p) := nofun

/-- An operand keeps its content while its vector does. -/
lemma sense_congr {s t : LaneState P} {v : RowName P} (hv : IsOperand v)
    (h : ∀ p, v = .vec p → t.data p = s.data p) : t.sense pair v = s.sense pair v := by
  cases v with
  | b row => exact absurd rfl (hv row)
  | c bit => rfl
  | vec p => exact h p rfl

variable [DecidableEq P]

/-- The last command of many programs. -/
lemma run_store_data (s : LaneState P) (p : P) (row : BRow) :
    (s.run pair [.aap (.vec p) (.b row)]).data = Function.update s.data p (s.bgroup.sense pair row) := rfl

/-! ### Addition -/

lemma run_addPass (s : LaneState P) (v1 out : P) {v2 : RowName P} (hv2 : IsOperand v2) :
    (s.run pair (addPass (.vec v1) v2 (.vec out))).data =
      Function.update s.data out (xor (xor (s.data v1) (s.sense pair v2)) s.bgroup.dcc1) ∧
    (s.run pair (addPass (.vec v1) v2 (.vec out))).bgroup.dcc1 =
      maj (s.data v1) (s.sense pair v2) s.bgroup.dcc1 := by
  rw [xor_rotate, ← maj_sum, ← maj_rotate (s.sense pair v2)]
  cases v2 with
  | b row => exact absurd rfl (hv2 row)
  | c bit => simp [addPass, LaneState.run_cons, LaneState.sense]
  | vec v2 => simp [addPass, LaneState.run_cons, LaneState.sense]

/-- A loop of `addPass` is a ripple adder. A pass may read a row that it writes, but none that an earlier pass
wrote. -/
theorem rippled_addPass (s : LaneState P) (v1 : Nat → P) (v2 : Nat → RowName P) (out : Nat → P) (n : Nat)
    (hout : Function.Injective out) (hv1 : ∀ k, ∀ i < k, v1 k ≠ out i) (hv2 : ∀ k, IsOperand (v2 k))
    (hfresh : ∀ k, ∀ i < k, v2 k ≠ .vec (out i)) :
    Rippled s (fun k => s.data (v1 k)) (fun k => s.sense pair (v2 k)) s.bgroup.dcc1 out BGroup.dcc1 n
      (s.run pair ((forLoop 0 n 1).flatMap fun k => addPass (.vec (v1 k)) (v2 k) (.vec (out k)))) := by
  have hread : ∀ k, ∀ t : LaneState P, (∀ v, (∀ i < k, v ≠ out i) → t.data v = s.data v) →
      t.data (v1 k) = s.data (v1 k) ∧ t.sense pair (v2 k) = s.sense pair (v2 k) := by
    intro k t ht
    refine ⟨ht _ (hv1 k), sense_congr pair (hv2 k) ?_⟩
    intro p hp
    exact ht p fun i hi heq => hfresh k i hi (by rw [hp, heq])
  apply ripple_loop pair rfl hout
  · intro k _ t ht
    rw [(run_addPass pair t (v1 k) (out k) (hv2 k)).1, (hread k t ht).1, (hread k t ht).2]
  · intro k _ t ht
    rw [(run_addPass pair t (v1 k) (out k) (hv2 k)).2, (hread k t ht).1, (hread k t ht).2]

/-! ### Subtraction -/

lemma run_subtractPass (s : LaneState P) (v1 v2 out : P) :
    (s.run pair (subtractPass (.vec v1) (.vec v2) (.vec out))).data =
      Function.update s.data out (xor (xor (s.data v1) (!s.data v2)) s.bgroup.dcc0) ∧
    (s.run pair (subtractPass (.vec v1) (.vec v2) (.vec out))).bgroup.dcc0 =
      maj (s.data v1) (!s.data v2) s.bgroup.dcc0 := by
  rw [xor_rotate, ← maj_sum]
  simp [subtractPass, LaneState.run_cons, maj_rotate (!s.data v2)]

theorem rippled_subtractPass (s : LaneState P) (v1 v2 out : Nat → P) (n : Nat) (hout : Function.Injective out)
    (hv1 : ∀ k, ∀ i < k, v1 k ≠ out i) (hv2 : ∀ k, ∀ i < k, v2 k ≠ out i) :
    Rippled s (fun k => s.data (v1 k)) (fun k => !s.data (v2 k)) s.bgroup.dcc0 out BGroup.dcc0 n
      (s.run pair ((forLoop 0 n 1).flatMap fun k =>
        subtractPass (.vec (v1 k)) (.vec (v2 k)) (.vec (out k)))) := by
  apply ripple_loop pair rfl hout
  · intro k _ t ht
    rw [(run_subtractPass pair t (v1 k) (v2 k) (out k)).1, ht _ (hv1 k), ht _ (hv2 k)]
  · intro k _ t ht
    rw [(run_subtractPass pair t (v1 k) (v2 k) (out k)).2, ht _ (hv1 k), ht _ (hv2 k)]

/-! ### Selection -/

/-- `B_T3` is overwritten before `v1` takes part in a majority, and what is left is a disjunction. -/
lemma run_selectPass_data (s : LaneState P) (sel v1 v2 out : P) :
    (s.run pair (selectPass (.vec sel) (.vec v1) (.vec v2) (.vec out))).data =
      Function.update s.data out (s.data sel || s.data v2) := by
  simp [selectPass, LaneState.run_cons, maj_same, maj_true_mid]

/-! ### Comparison -/

lemma carries_comm (a b : Nat → Bool) (c : Bool) (n : Nat) : carries a b c n = carries b a c n := by
  induction n with
  | zero => rfl
  | succ n ih =>
    rw [carries, carries, ih, maj_comm]

/-- The last carry of `a` and the complement of `b` compares: `b < a`, or `b ≤ a` with a carry at the start. -/
lemma carries_not_iff (a b : Nat → Bool) (c : Bool) (n : Nat) :
    carries a (fun k => !b k) c n = true ↔ value b n < value a n + c.toNat := by
  have hadd := sums_value a (fun k => !b k) c n
  have hnot := value_not b n
  have hs := value_lt (sums a (fun k => !b k) c) n
  cases hc : carries a (fun k => !b k) c n with
  | false =>
    simp [hc] at hadd ⊢
    omega
  | true =>
    simp [hc] at hadd ⊢
    omega

/-- A loop that compares two numbers, least significant bit first, with the carry in `B_T2`. -/
lemma run_compareLoop (s : LaneState P) (cmds : Nat → List (RowCommand P)) (c : Bool) (a b : Nat → Bool) (n : Nat)
    (hpass : ∀ k, ∀ t : LaneState P, t.data = s.data → (t.run pair (cmds k)).data = s.data ∧
      (t.run pair (cmds k)).bgroup.t2 = maj (!b k) (a k) t.bgroup.t2) :
    let t := s.run pair ([.aap (.b .t2) (.c c)] ++ (forLoop 0 n 1).flatMap cmds)
    t.data = s.data ∧ t.bgroup.t2 = decide (value b n < value a n + c.toNat) := by
  intro t
  have h : t.data = s.data ∧ t.bgroup.t2 = carries (fun k => !b k) a c n := by
    simp only [t, LaneState.run_append]
    apply forLoop_one_rule
      (fun k (t : LaneState P) => t.data = s.data ∧ t.bgroup.t2 = carries (fun k => !b k) a c k)
      (Nat.zero_le _)
    · exact ⟨rfl, by simp [LaneState.run_cons, carries]⟩
    · intro k u _ _ hu
      obtain ⟨hdata, ht2⟩ := hpass k u hu.1
      refine ⟨hdata, ?_⟩
      rw [carries, ← hu.2]
      exact ht2
  refine ⟨h.1, ?_⟩
  rw [h.2, carries_comm, Bool.eq_iff_iff, carries_not_iff, decide_eq_true_iff]

end MimdramLean.Proofs

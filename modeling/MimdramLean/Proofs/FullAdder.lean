import MimdramLean.Library.Binary
import MimdramLean.Library.Loops
import MimdramLean.Microprogram

/-!
# Majority as a full adder

The carry of a full adder is a majority, and its sum is made of two more with the complemented
carry. `carries` is the chain of carries of a ripple adder.
-/

namespace MimdramLean.Proofs

open Library

lemma maj_rotate (a b c : Bool) : maj a b c = maj c a b := by
  cases a <;> cases b <;> cases c <;> rfl

lemma maj_comm (a b c : Bool) : maj a b c = maj b a c := by
  cases a <;> cases b <;> cases c <;> rfl

lemma xor_rotate (a b c : Bool) : xor (xor a b) c = xor (xor b c) a := by
  cases a <;> cases b <;> cases c <;> rfl

lemma maj_false_left (a b : Bool) : maj false a b = (a && b) := by
  cases a <;> cases b <;> rfl

lemma maj_true_mid (a b : Bool) : maj a true b = (a || b) := by
  cases a <;> cases b <;> rfl

lemma maj_same (a b : Bool) : maj a b b = b := by
  cases a <;> cases b <;> rfl

lemma maj_sum (a b c : Bool) : maj a (maj (!maj a b c) b c) (!maj a b c) = xor (xor a b) c := by
  cases a <;> cases b <;> cases c <;> rfl

lemma xor_add_maj (a b c : Bool) :
    (xor (xor a b) c).toNat + 2 * (maj a b c).toNat = a.toNat + b.toNat + c.toNat := by
  cases a <;> cases b <;> cases c <;> rfl

/-- The carry into position `k` when `a` and `b` are added and `c` comes in at position 0. -/
def carries (a b : Nat → Bool) (c : Bool) : Nat → Bool
  | 0 => c
  | k + 1 => maj (a k) (b k) (carries a b c k)

/-- The sum bit of position `k`. -/
def sums (a b : Nat → Bool) (c : Bool) (k : Nat) : Bool := xor (xor (a k) (b k)) (carries a b c k)

theorem sums_value (a b : Nat → Bool) (c : Bool) (n : Nat) :
    value (sums a b c) n + 2 ^ n * (carries a b c n).toNat = value a n + value b n + c.toNat :=
  value_adder fun k _ => xor_add_maj (a k) (b k) (carries a b c k)

/-- Adding the complement with a carry at the start is a subtraction. -/
lemma sums_not_add_carries (a b : Nat → Bool) (k : Nat) :
    (sums a (fun k => !b k) true k).toNat + 2 * (carries a (fun k => !b k) true (k + 1)).toNat =
      (a k).toNat + (!b k).toNat + (carries a (fun k => !b k) true k).toNat := xor_add_maj _ _ _

/-- Its last carry is the comparison. -/
theorem carries_not_eq_true (a b : Nat → Bool) (n : Nat) :
    carries a (fun k => !b k) true n = true ↔ value b n ≤ value a n :=
  (value_subtractor (fun k _ => sums_not_add_carries a b k) rfl).1

theorem sums_not_value (a b : Nat → Bool) (n : Nat) (h : value b n ≤ value a n) :
    value (sums a (fun k => !b k) true) n = value a n - value b n :=
  (value_subtractor (fun k _ => sums_not_add_carries a b k) rfl).2 ((carries_not_eq_true a b n).mpr h)

/-! ### Loops that write one row in each pass -/

section Sweep

variable {P α : Type} [DecidableEq P] (pair : Bool → Bool → Bool)

/-- Of `s`, `k` passes have been made: they have left `o i` in the vectors `out i` and `σ k` in the cells that
`read` looks at. -/
structure Swept (s : LaneState P) (out : Nat → P) (read : BGroup → α) (σ : Nat → α) (o : Nat → Bool) (k : Nat)
    (t : LaneState P) : Prop where
  cells : read t.bgroup = σ k
  written : ∀ i < k, t.data (out i) = o i
  frame : ∀ v, (∀ i < k, v ≠ out i) → t.data v = s.data v

lemma Swept.next {s t t' : LaneState P} {out : Nat → P} {read : BGroup → α} {σ : Nat → α} {o : Nat → Bool}
    {k : Nat} (h : Swept s out read σ o k t) (hout : Function.Injective out)
    (hdata : t'.data = Function.update t.data (out k) (o k)) (hcells : read t'.bgroup = σ (k + 1)) :
    Swept s out read σ o (k + 1) t' := by
  refine ⟨hcells, ?_, ?_⟩
  · intro i hi
    rw [hdata]
    rcases Nat.lt_succ_iff_lt_or_eq.mp hi with hi | rfl
    · rw [Function.update_of_ne, h.written i hi]
      intro heq
      exact absurd (hout heq) (by omega)
    · rw [Function.update_self]
  · intro v hv
    rw [hdata, Function.update_of_ne (hv k (by omega))]
    exact h.frame v fun i hi => hv i (by omega)

theorem sweep_loop {s : LaneState P} {out : Nat → P} {read : BGroup → α} {σ : Nat → α} {o : Nat → Bool} {n : Nat}
    {cmds : Nat → List (RowCommand P)} (hcells : read s.bgroup = σ 0) (hout : Function.Injective out)
    (hpass : ∀ k < n, ∀ t : LaneState P, Swept s out read σ o k t →
      (t.run pair (cmds k)).data = Function.update t.data (out k) (o k) ∧
      read (t.run pair (cmds k)).bgroup = σ (k + 1)) :
    Swept s out read σ o n (s.run pair ((forLoop 0 n 1).flatMap cmds)) := by
  apply forLoop_one_rule (Swept s out read σ o) (Nat.zero_le _)
  · exact ⟨hcells, fun i hi => absurd hi (by omega), fun _ _ => rfl⟩
  · intro k t _ hk ht
    obtain ⟨hdata, hnext⟩ := hpass k hk t ht
    exact ht.next hout hdata hnext

end Sweep

/-! ### Ripple loops

A loop that computes one sum bit in each pass and passes the carry on in a cell of the B-group. -/

section Ripple

variable {P : Type} [DecidableEq P] (pair : Bool → Bool → Bool)

/-- Of `s`, the low `k` bits of `a` and `b` have been added; the sum is in the vectors `out i`. -/
structure Rippled (s : LaneState P) (a b : Nat → Bool) (c : Bool) (out : Nat → P) (carry : BGroup → Bool)
    (k : Nat) (t : LaneState P) : Prop where
  carry_eq : carry t.bgroup = carries a b c k
  sum_eq : ∀ i < k, t.data (out i) = sums a b c i
  frame : ∀ v, (∀ i < k, v ≠ out i) → t.data v = s.data v

theorem ripple_loop {s : LaneState P} {a b : Nat → Bool} {c : Bool} {out : Nat → P} {carry : BGroup → Bool}
    {n : Nat} {cmds : Nat → List (RowCommand P)} (hcarry : carry s.bgroup = c)
    (hout : Function.Injective out)
    (hdata : ∀ k < n, ∀ t : LaneState P, (∀ v, (∀ i < k, v ≠ out i) → t.data v = s.data v) →
      (t.run pair (cmds k)).data =
        Function.update t.data (out k) (xor (xor (a k) (b k)) (carry t.bgroup)))
    (hstep : ∀ k < n, ∀ t : LaneState P, (∀ v, (∀ i < k, v ≠ out i) → t.data v = s.data v) →
      carry (t.run pair (cmds k)).bgroup = maj (a k) (b k) (carry t.bgroup)) :
    Rippled s a b c out carry n (s.run pair ((forLoop 0 n 1).flatMap cmds)) := by
  have h : Swept s out carry (carries a b c) (sums a b c) n (s.run pair ((forLoop 0 n 1).flatMap cmds)) := by
    apply sweep_loop pair hcarry hout
    intro k hk t ht
    rw [hdata k hk t ht.frame, hstep k hk t ht.frame, ht.cells]
    exact ⟨rfl, rfl⟩
  exact ⟨h.cells, h.written, h.frame⟩

/-- Rows `x j` to `x (j + n - 1)` take in the other addend, and row `x (j + n)` the last carry. -/
theorem Rippled.value_stored {s u t : LaneState P} {x : Nat → P} {b : Nat → Bool} {c : Bool} {j n : Nat}
    {carry : BGroup → Bool} (hx : Function.Injective x)
    (h : Rippled s (fun i => s.data (x (j + i))) b c (fun i => x (j + i)) carry n u)
    (ht : t.data = Function.update u.data (x (j + n)) (carry u.bgroup)) :
    value (fun k => t.data (x k)) (j + n + 1) =
      value (fun k => s.data (x k)) (j + n) + 2 ^ j * (value b n + c.toNat) := by
  have hlow : ∀ k < j, t.data (x k) = s.data (x k) := by
    intro k hk
    rw [ht, Function.update_of_ne (hx.ne (by omega)), h.frame _ fun i _ => hx.ne (by omega)]
  have hwindow : ∀ k < n, t.data (x (j + k)) = sums (fun i => s.data (x (j + i))) b c k := by
    intro k hk
    rw [ht, Function.update_of_ne (hx.ne (by omega)), h.sum_eq k hk]
  have htop : t.data (x (j + n)) = carries (fun i => s.data (x (j + i))) b c n := by
    rw [ht, Function.update_self, h.carry_eq]
  rw [Nat.add_assoc, value_add, value_succ, value_congr hlow, value_congr hwindow, htop, sums_value, value_add]
  ring

end Ripple

end MimdramLean.Proofs

import Mathlib.Algebra.Order.Ring.Nat
import Mathlib.Data.List.Chain
import Mathlib.Data.Nat.Bitwise
import Mathlib.Data.Nat.Count

/-!
# Cutting a range at block boundaries

The address space is divided into blocks of one size. A range of addresses is cut at the boundaries between
them; a piece is its first address and its length. Addresses are counted by block and by place in the block.
-/

namespace MimdramLean.Library

/-- The first address after the block that holds `a`. -/
def blockEnd (size a : Nat) : Nat := (a / size + 1) * size

/-- `n` pieces from `a` on, each up to the end of its block and at most to `e`. -/
def pieces (size e : Nat) : Nat → Nat → List (Nat × Nat)
  | 0, _ => []
  | n + 1, a => (a, min (blockEnd size a) e - a) :: pieces size e n (blockEnd size a)

/-- Consecutive pieces, one for each block that `[a, e)` meets, that have exactly its addresses. -/
structure Tiles (size a e : Nat) (l : List (Nat × Nat)) : Prop where
  nonempty : ∀ x ∈ l, 0 < x.2
  inBlock : ∀ x ∈ l, ∀ y, x.1 ≤ y → y < x.1 + x.2 → y / size = x.1 / size
  apart : l.Pairwise fun x y => x.1 / size ≠ y.1 / size
  ordered : l.Pairwise fun x y => x.1 < y.1
  contiguous : l.IsChain fun x y => x.1 + x.2 = y.1
  covers : ∀ y, (∃ x ∈ l, x.1 ≤ y ∧ y < x.1 + x.2) ↔ a ≤ y ∧ y < e

variable {size : Nat}

lemma lt_blockEnd (hsize : 0 < size) (a : Nat) : a < blockEnd size a := by
  rw [blockEnd, Nat.mul_comm]
  exact Nat.lt_mul_div_succ a hsize

lemma blockEnd_le (a : Nat) : blockEnd size a ≤ a + size := by
  rw [blockEnd, Nat.succ_mul]
  exact Nat.add_le_add_right (Nat.div_mul_le_self a size) size

lemma blockEnd_div (hsize : 0 < size) (a : Nat) : blockEnd size a / size = a / size + 1 :=
  Nat.mul_div_cancel _ hsize

lemma div_eq_of_lt_blockEnd {a y : Nat} (hle : a ≤ y) (hlt : y < blockEnd size a) :
    y / size = a / size := by
  have h₁ := Nat.div_le_div_right (c := size) hle
  have h₂ : y / size < a / size + 1 := Nat.div_lt_of_lt_mul (by rwa [blockEnd, Nat.mul_comm] at hlt)
  omega

lemma blockEnd_le_of_div_lt {a y : Nat} (hsize : 0 < size) (h : a / size < y / size) : blockEnd size a ≤ y :=
  (Nat.le_div_iff_mul_le hsize).mp h

/-- Setting the low bits goes to the last address of a block. -/
lemma or_two_pow_sub_one_succ (k a : Nat) : (a ||| (2 ^ k - 1)) + 1 = blockEnd (2 ^ k) a := by
  have hpos := Nat.two_pow_pos k
  have hlast : a ||| (2 ^ k - 1) = 2 ^ k * (a / 2 ^ k) + (2 ^ k - 1) := by
    apply Nat.eq_of_testBit_eq
    intro i
    rw [Nat.testBit_or, Nat.testBit_two_pow_sub_one, Nat.testBit_two_pow_mul_add _ (by omega)]
    by_cases hi : i < k
    · simp [hi, Nat.testBit_two_pow_sub_one]
    · rw [if_neg hi, Nat.testBit_div_two_pow, Nat.sub_add_cancel (by omega)]
      simp [hi]
  rw [hlast, blockEnd, Nat.succ_mul, Nat.mul_comm]
  omega

/-! ### Tilings -/

lemma not_tiles_nil {a e : Nat} (h : a < e) : ¬ Tiles size a e [] := by
  intro htiles
  obtain ⟨x, hx, -⟩ := (htiles.covers a).mpr ⟨le_rfl, h⟩
  exact absurd hx List.not_mem_nil

lemma Tiles.le_first {a e : Nat} {l : List (Nat × Nat)} (h : Tiles size a e l) {x : Nat × Nat} (hx : x ∈ l) :
    a ≤ x.1 :=
  ((h.covers x.1).mp ⟨x, hx, le_rfl, Nat.lt_add_of_pos_right (h.nonempty x hx)⟩).1

lemma tiles_singleton {a e : Nat} (hlt : a < e) (hle : e ≤ blockEnd size a) :
    Tiles size a e [(a, e - a)] where
  nonempty := by
    simp only [List.mem_singleton, forall_eq]
    omega
  inBlock := by
    simp only [List.mem_singleton, forall_eq]
    intro y hy hy'
    exact div_eq_of_lt_blockEnd hy (by omega)
  apart := List.pairwise_singleton _ _
  ordered := List.pairwise_singleton _ _
  contiguous := List.isChain_singleton _
  covers := by
    intro y
    simp only [List.mem_singleton, exists_eq_left]
    omega

/-- A piece up to the end of its block before a tiling of the rest. -/
lemma Tiles.cons {a e n : Nat} {l : List (Nat × Nat)} (hsize : 0 < size)
    (h : Tiles size (blockEnd size a) e ((blockEnd size a, n) :: l)) :
    Tiles size a e ((a, blockEnd size a - a) :: (blockEnd size a, n) :: l) where
  nonempty := by
    have hlt := lt_blockEnd hsize a
    rw [List.forall_mem_cons]
    exact ⟨by omega, h.nonempty⟩
  inBlock := by
    have hlt := lt_blockEnd hsize a
    rw [List.forall_mem_cons]
    refine ⟨?_, h.inBlock⟩
    intro y hy hy'
    simp only at hy hy' ⊢
    exact div_eq_of_lt_blockEnd hy (by omega)
  apart := by
    refine List.pairwise_cons.mpr ⟨?_, h.apart⟩
    intro x hx
    have hle := Nat.div_le_div_right (c := size) (h.le_first hx)
    rw [blockEnd_div hsize] at hle
    simp only
    omega
  ordered := by
    refine List.pairwise_cons.mpr ⟨?_, h.ordered⟩
    intro x hx
    exact lt_of_lt_of_le (lt_blockEnd hsize a) (h.le_first hx)
  contiguous := by
    have hlt := lt_blockEnd hsize a
    refine List.isChain_cons_cons.mpr ⟨?_, h.contiguous⟩
    simp only
    omega
  covers := by
    have hlt := lt_blockEnd hsize a
    have hend := (h.covers (blockEnd size a)).mp
      ⟨_, List.mem_cons_self, le_rfl, Nat.lt_add_of_pos_right (h.nonempty _ List.mem_cons_self)⟩
    intro y
    simp only [List.exists_mem_cons_iff, h.covers y]
    omega

/-- The pieces tile the range if there is one for each of its blocks. -/
theorem tiles_pieces (hsize : 0 < size) {a e n : Nat} (hlt : a < e) (hn : (e - 1) / size = a / size + n) :
    Tiles size a e (pieces size e (n + 1) a) := by
  induction n generalizing a with
  | zero =>
    have hle : e ≤ blockEnd size a := by
      have h : e - 1 < blockEnd size a := by
        rw [blockEnd, ← Nat.div_lt_iff_lt_mul hsize]
        omega
      omega
    rw [pieces, pieces, min_eq_right hle]
    exact tiles_singleton hlt hle
  | succ n ih =>
    have hle : blockEnd size a ≤ e - 1 := blockEnd_le_of_div_lt hsize (by omega)
    have hrest := ih (a := blockEnd size a) (by omega) (by rw [blockEnd_div hsize]; omega)
    rw [pieces, min_eq_left (by omega)]
    exact hrest.cons hsize

/-! ### Counting by blocks -/

section Counting

variable {P Q : Nat → Prop} [DecidablePred P] [DecidablePred Q]

lemma count_congr {n : Nat} (h : ∀ k < n, P k ↔ Q k) : Nat.count P n = Nat.count Q n :=
  le_antisymm (Nat.count_mono_left fun k hk => (h k hk).mp) (Nat.count_mono_left fun k hk => (h k hk).mpr)

lemma count_eq_one {n d : Nat} (hd : d < n) (h : ∀ k < n, P k ↔ k = d) : Nat.count P n = 1 := by
  rw [count_congr h, Nat.count_eq_card_filter_range, Finset.filter_eq', if_pos (Finset.mem_range.mpr hd)]
  rfl

/-- A condition on the block and one on the place in the block are independent. -/
theorem count_blocks (n : Nat) :
    Nat.count (fun a => P (a / size) ∧ Q (a % size)) (n * size) = Nat.count P n * Nat.count Q size := by
  induction n with
  | zero => rw [Nat.zero_mul, Nat.count_zero, Nat.count_zero, Nat.zero_mul]
  | succ n ih =>
    -- the last block alone
    have hlast : ∀ k < size, P ((n * size + k) / size) ∧ Q ((n * size + k) % size) ↔ P n ∧ Q k := by
      intro k hk
      rw [Nat.mul_comm, Nat.mul_add_div (by omega), Nat.div_eq_of_lt hk, Nat.add_zero, Nat.mul_add_mod,
        Nat.mod_eq_of_lt hk]
    rw [Nat.succ_mul, Nat.count_add, ih, Nat.count_succ, Nat.add_mul, count_congr hlast]
    by_cases hP : P n
    · simp [hP]
    · simp [hP]

/-- A condition on the block alone holds of all the block or of nothing in it. -/
lemma count_blocks_of_div (n : Nat) : Nat.count (fun a => P (a / size)) (n * size) = Nat.count P n * size := by
  have h : Nat.count (fun a => P (a / size) ∧ True) (n * size) = Nat.count P n * Nat.count (fun _ => True) size :=
    count_blocks (Q := fun _ => True) n
  simp only [and_true, Nat.count_true] at h
  exact h

/-- Two digits are fixed, and a condition holds of what is above them. -/
lemma count_digits {b k b₀ k₀ : Nat} (hb : b₀ < b) (hk : k₀ < k) (n : Nat) :
    Nat.count (fun x => (P (x / b / k) ∧ x / b % k = k₀) ∧ x % b = b₀) (n * k * b) = Nat.count P n := by
  have hlow : Nat.count (fun x => (P (x / b / k) ∧ x / b % k = k₀) ∧ x % b = b₀) (n * k * b) =
      Nat.count (fun y => P (y / k) ∧ y % k = k₀) (n * k) * Nat.count (· = b₀) b :=
    count_blocks (P := fun y => P (y / k) ∧ y % k = k₀) (Q := (· = b₀)) (n * k)
  have hhigh : Nat.count (fun y => P (y / k) ∧ y % k = k₀) (n * k) = Nat.count P n * Nat.count (· = k₀) k :=
    count_blocks (Q := (· = k₀)) n
  rw [hlow, hhigh, count_eq_one hb fun _ _ => Iff.rfl, count_eq_one hk fun _ _ => Iff.rfl, Nat.mul_one, Nat.mul_one]

end Counting

end MimdramLean.Library

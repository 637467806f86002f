import Mathlib.Algebra.Order.Ring.Nat
import Mathlib.Data.List.Induction
import Mathlib.Tactic.Linarith
import Mathlib.Tactic.Ring

/-!
# Numbers held bit by bit

`value x n` is the number with the bits `x 0`, …, `x (n - 1)`, least significant first; `msbValue x l` reads
the bits of a list of positions most significant first. Chains of full adders and of full
subtractors are described by the equation of one position; their rules turn it into an equation
between numbers. A comparison from the most significant bit on keeps two flags.
-/

namespace MimdramLean.Library

/-- The number whose bits, least significant first, are the first `n` entries of `x`. -/
def value (x : Nat → Bool) : Nat → Nat
  | 0 => 0
  | n + 1 => value x n + 2 ^ n * (x n).toNat

@[simp] lemma value_zero (x : Nat → Bool) : value x 0 = 0 := rfl

lemma value_succ (x : Nat → Bool) (n : Nat) : value x (n + 1) = value x n + 2 ^ n * (x n).toNat := rfl

lemma value_congr {x y : Nat → Bool} {n : Nat} (h : ∀ k < n, x k = y k) : value x n = value y n := by
  induction n with
  | zero => rfl
  | succ n ih => rw [value_succ, value_succ, ih fun k hk => h k (by omega), h n (by omega)]

lemma value_lt (x : Nat → Bool) (n : Nat) : value x n < 2 ^ n := by
  induction n with
  | zero => exact Nat.one_pos
  | succ n ih =>
    rw [value_succ, pow_succ]
    cases x n <;> simp <;> omega

lemma value_false (n : Nat) : value (fun _ => false) n = 0 := by
  induction n with
  | zero => rfl
  | succ n ih => simp [value_succ, ih]

lemma value_add (x : Nat → Bool) (m n : Nat) :
    value x (m + n) = value x m + 2 ^ m * value (fun k => x (m + k)) n := by
  induction n with
  | zero => rfl
  | succ n ih =>
    rw [← Nat.add_assoc, value_succ, value_succ, ih, pow_add]
    ring

/-- Leading zeros can be left out. -/
lemma value_eq_of_lt {x : Nat → Bool} {m n : Nat} (hmn : m ≤ n) (h : value x n < 2 ^ m) :
    value x m = value x n := by
  obtain ⟨k, rfl⟩ := Nat.exists_eq_add_of_le hmn
  rw [value_add] at h ⊢
  have hzero : value (fun i => x (m + i)) k = 0 := by
    by_contra hne
    have := Nat.le_mul_of_pos_right (2 ^ m) (Nat.pos_of_ne_zero hne)
    omega
  rw [hzero, Nat.mul_zero, Nat.add_zero]

/-- The lowest bit first. -/
lemma value_succ_low (x : Nat → Bool) (n : Nat) :
    value x (n + 1) = (x 0).toNat + 2 * value (fun k => x (k + 1)) n := by
  rw [Nat.add_comm n 1, value_add]
  simp only [value_succ, value_zero, Nat.add_comm 1]
  omega

lemma value_and (b : Bool) (x : Nat → Bool) (n : Nat) :
    value (fun k => b && x k) n = b.toNat * value x n := by
  cases b with
  | false => simp [value_false]
  | true => simp

lemma value_not (x : Nat → Bool) (n : Nat) : value (fun k => !x k) n + value x n + 1 = 2 ^ n := by
  induction n with
  | zero => rfl
  | succ n ih =>
    rw [value_succ, value_succ, pow_succ]
    cases x n <;> simp <;> omega

/-- A number with ones only, or another number. -/
lemma value_or (b : Bool) (x : Nat → Bool) (n : Nat) :
    value (fun k => b || x k) n = if b then 2 ^ n - 1 else value x n := by
  cases b with
  | false => simp
  | true =>
    have hnot := value_not (fun _ => false) n
    rw [value_false] at hnot
    simp only [Bool.true_or, if_true]
    simp only [Bool.not_false] at hnot
    omega

lemma value_inj {x y : Nat → Bool} {n : Nat} : value x n = value y n ↔ ∀ k < n, x k = y k := by
  constructor
  · induction n with
    | zero =>
      intro _ k hk
      omega
    | succ n ih =>
      intro h k hk
      have hx := value_lt x n
      have hy := value_lt y n
      rw [value_succ, value_succ] at h
      have htop : x n = y n := by
        cases hxn : x n <;> cases hyn : y n <;> simp [hxn, hyn] at h ⊢ <;> omega
      rcases Nat.lt_succ_iff_lt_or_eq.mp hk with hk | rfl
      · rw [htop] at h
        exact ih (by omega) k hk
      · exact htop
  · exact value_congr

lemma value_pos_iff {x : Nat → Bool} {n : Nat} : 0 < value x n ↔ ∃ k < n, x k = true := by
  rw [Nat.pos_iff_ne_zero, ← value_false n, Ne, value_inj]
  simp

/-- Zeros above a number do not change it. -/
lemma value_extend (x : Nat → Bool) {m n : Nat} (hmn : m ≤ n) :
    value (fun k => if k < m then x k else false) n = value x m := by
  obtain ⟨d, rfl⟩ := Nat.exists_eq_add_of_le hmn
  have hlow : value (fun k => if k < m then x k else false) m = value x m := by
    apply value_congr
    intro k hk
    rw [if_pos hk]
  have hhigh : value (fun k => if m + k < m then x (m + k) else false) d = 0 := by
    rw [← value_false d]
    apply value_congr
    intro k _
    rw [if_neg (by omega)]
  rw [value_add, hlow, hhigh, Nat.mul_zero, Nat.add_zero]

/-- The low bits of a natural number. -/
lemma value_testBit (m n : Nat) : value (fun k => m.testBit k) n = m % 2 ^ n := by
  induction n with
  | zero => simp [Nat.mod_one]
  | succ n ih => rw [value_succ, ih, Nat.toNat_testBit, pow_succ, Nat.mod_mul]

/-- The number that `n` bits stand for in two's complement. -/
def signedValue (x : Nat → Bool) (n : Nat) : Int := value x n - if x (n - 1) then 2 ^ n else 0

lemma signedValue_nonneg_iff {x : Nat → Bool} {n : Nat} : 0 ≤ signedValue x n ↔ x (n - 1) = false := by
  have hlt : (value x n : Int) < 2 ^ n := by exact_mod_cast value_lt x n
  unfold signedValue
  cases x (n - 1) with
  | false => simp
  | true => simp; omega

lemma signedValue_of_nonneg {x : Nat → Bool} {n : Nat} (h : x (n - 1) = false) : signedValue x n = value x n := by
  rw [signedValue, h, if_neg Bool.false_ne_true, sub_zero]

section Chains

variable {a b s c : Nat → Bool} {n : Nat}

/-- A chain of full adders adds. -/
theorem value_adder (h : ∀ k < n, (s k).toNat + 2 * (c (k + 1)).toNat =
      (a k).toNat + (b k).toNat + (c k).toNat) :
    value s n + 2 ^ n * (c n).toNat = value a n + value b n + (c 0).toNat := by
  induction n with
  | zero => simp
  | succ n ih =>
    have hlow := ih fun k hk => h k (by omega)
    have hpos := congrArg (2 ^ n * ·) (h n (by omega))
    simp only [value_succ, pow_succ, Nat.mul_add] at hpos ⊢
    linarith

/-- A chain of full adders with the second number complemented and a carry at its start subtracts;
its last carry tells that there was nothing to borrow. -/
theorem value_subtractor (h : ∀ k < n, (s k).toNat + 2 * (c (k + 1)).toNat =
      (a k).toNat + (!b k).toNat + (c k).toNat) (h0 : c 0 = true) :
    (c n = true ↔ value b n ≤ value a n) ∧ (c n = true → value s n = value a n - value b n) := by
  have hadd := value_adder h
  have hnot := value_not b n
  have hs := value_lt s n
  have ha := value_lt a n
  rw [h0] at hadd
  cases hc : c n with
  | false =>
    simp [hc] at hadd
    constructor
    · simp
      omega
    · simp
  | true =>
    simp [hc] at hadd
    constructor
    · simp
      omega
    · intro _
      omega

end Chains

/-! ### Most significant bit first -/

section MostSignificantFirst

variable {ι : Type} {x y : ι → Bool} {l : List ι}

/-- The number whose bits, most significant first, are `x` of the elements of a list. -/
def msbValue (x : ι → Bool) (l : List ι) : Nat := l.foldl (fun a j => 2 * a + (x j).toNat) 0

@[simp] lemma msbValue_nil (x : ι → Bool) : msbValue x [] = 0 := rfl

@[simp] lemma msbValue_concat (x : ι → Bool) (l : List ι) (j : ι) :
    msbValue x (l ++ [j]) = 2 * msbValue x l + (x j).toNat := by
  simp [msbValue]

lemma msbValue_map {κ : Type} (x : ι → Bool) (f : κ → ι) (l : List κ) :
    msbValue x (l.map f) = msbValue (fun k => x (f k)) l := List.foldl_map

lemma msbValue_congr (h : ∀ j ∈ l, x j = y j) : msbValue x l = msbValue y l := by
  induction l using List.reverseRecOn with
  | nil => rfl
  | append_singleton l j ih =>
    rw [msbValue_concat, msbValue_concat, ih fun i hi => h i (List.mem_append_left _ hi), h j (by simp)]

lemma msbValue_eq_zero (h : ∀ j ∈ l, x j = false) : msbValue x l = 0 := by
  induction l using List.reverseRecOn with
  | nil => rfl
  | append_singleton l j ih =>
    rw [msbValue_concat, ih fun i hi => h i (List.mem_append_left _ hi), h j (by simp)]
    rfl

/-- The first difference decides. -/
lemma msbValue_lt_append (l' : List ι) (h : msbValue x l < msbValue y l) :
    msbValue x (l ++ l') < msbValue y (l ++ l') := by
  induction l' using List.reverseRecOn with
  | nil => rwa [List.append_nil]
  | append_singleton l' j ih =>
    have hbit := Bool.toNat_lt (x j)
    rw [← List.append_assoc, msbValue_concat, msbValue_concat]
    omega

/-- A comparison, one bit further: whether `y` is larger, and whether the numbers are the same so far. -/
def compareStep (s : Bool × Bool) (x y : Bool) : Bool × Bool := (s.1 || (s.2 && !x && y), s.2 && (x == y))

/-- The comparison from any flags on. -/
theorem foldl_compareStep (x y : ι → Bool) (l : List ι) (s : Bool × Bool) :
    l.foldl (fun s j => compareStep s (x j) (y j)) s =
      (s.1 || (s.2 && decide (msbValue x l < msbValue y l)), s.2 && decide (msbValue x l = msbValue y l)) := by
  induction l using List.reverseRecOn with
  | nil => simp
  | append_singleton l j ih =>
    rw [List.foldl_append, List.foldl_cons, List.foldl_nil, ih, msbValue_concat, msbValue_concat, compareStep]
    have hlt : decide (2 * msbValue x l + (x j).toNat < 2 * msbValue y l + (y j).toNat) =
        (decide (msbValue x l < msbValue y l) || (decide (msbValue x l = msbValue y l) && !x j && y j)) := by
      rw [Bool.eq_iff_iff]
      cases x j <;> cases y j <;> simp <;> omega
    have heq : decide (2 * msbValue x l + (x j).toNat = 2 * msbValue y l + (y j).toNat) =
        (decide (msbValue x l = msbValue y l) && (x j == y j)) := by
      rw [Bool.eq_iff_iff]
      cases x j <;> cases y j <;> simp <;> omega
    rw [hlt, heq]
    simp only [Bool.and_or_distrib_left, Bool.or_assoc, Bool.and_assoc]

end MostSignificantFirst

/-- The low bit of a window. -/
lemma value_window (x : Nat → Bool) {j n : Nat} (hj : j < n) :
    value (fun k => x (j + k)) (n - j) = 2 * value (fun k => x (j + 1 + k)) (n - (j + 1)) + (x j).toNat := by
  have hwidth : n - j = n - (j + 1) + 1 := by omega
  rw [hwidth, value_succ_low, Nat.add_zero, Nat.add_comm]
  congr 2
  exact value_congr fun k _ => congrArg x (by omega)

/-- A number that fits below `w` keeps all its bits in the width of `w`. -/
lemma value_selected {d : Nat → Bool} {m n w : Nat} (hmn : m ≤ n) (hw : w < 2 ^ m) :
    value (fun k => decide (value d n ≤ w) && d k) m = if value d n ≤ w then value d n else 0 := by
  rw [value_and]
  split
  case isTrue h => simp [h, value_eq_of_lt hmn (by omega : value d n < 2 ^ m)]
  case isFalse h => simp [h]

/-- Bring down one bit in a long division. -/
lemma long_division_step {a d bit : Nat} (hd : 0 < d) (hbit : bit ≤ 1) :
    (2 * a + bit) / d = 2 * (a / d) + (if d ≤ 2 * (a % d) + bit then 1 else 0) ∧
    (2 * a + bit) % d = 2 * (a % d) + bit - (if d ≤ 2 * (a % d) + bit then d else 0) := by
  have ha := Nat.div_add_mod a d
  have hr := Nat.mod_lt a hd
  generalize a / d = q at ha ⊢
  generalize a % d = r at ha hr ⊢
  split
  · rw [Nat.div_mod_unique hd]
    refine ⟨?_, by omega⟩
    rw [Nat.mul_add, Nat.mul_left_comm, ← ha]
    omega
  · rw [Nat.div_mod_unique hd]
    refine ⟨?_, by omega⟩
    rw [Nat.add_zero, Nat.mul_left_comm, ← ha]
    omega

end MimdramLean.Library

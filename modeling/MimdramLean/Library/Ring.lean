import Mathlib.Data.List.Nodup
import Mathlib.Data.List.Range

/-!
# Circular buffers

The places of a circular buffer are `Fin n`. A queue in it stands at the places from its head up to, and
without, its tail: the window of the two. This file says what a step of the head or the tail does to a
window, and how a place in the middle cuts one in two.
-/

namespace MimdramLean.Library.Ring

variable {n : Nat}

lemma shift_lt (a : Fin n) (k : Nat) : (a.val + k) % n < n := Nat.mod_lt _ a.pos

lemma pred_lt (a : Fin n) : a.val - 1 < n := Nat.lt_of_le_of_lt (Nat.sub_le _ _) a.isLt

lemma last_lt (a : Fin n) : n - 1 < n := Nat.sub_lt a.pos Nat.one_pos

/-- The place `k` places on. -/
def shift (a : Fin n) (k : Nat) : Fin n := ⟨(a.val + k) % n, shift_lt a k⟩

/-- The next place. -/
def next (a : Fin n) : Fin n := if h : a.val + 1 < n then ⟨a.val + 1, h⟩ else ⟨0, a.pos⟩

/-- The place before. -/
def prev (a : Fin n) : Fin n := if 0 < a.val then ⟨a.val - 1, pred_lt a⟩ else ⟨n - 1, last_lt a⟩

/-- How many places lie from `a` up to `b`. -/
def dist (a b : Fin n) : Nat := (b.val + n - a.val) % n

/-- The places from `a` up to, and without, `b`. -/
def window (a b : Fin n) : List (Fin n) := (List.range (dist a b)).map (shift a)

/-! ### Places -/

lemma dist_cases (a b : Fin n) :
    a.val ≤ b.val ∧ dist a b + a.val = b.val ∨ b.val < a.val ∧ dist a b + a.val = b.val + n := by
  have ha := a.isLt
  have hb := b.isLt
  unfold dist
  rcases Nat.lt_or_ge b.val a.val with h | h
  · rw [Nat.mod_eq_of_lt (by omega)]
    omega
  · rw [show b.val + n - a.val = b.val - a.val + n by omega, Nat.add_mod_right, Nat.mod_eq_of_lt (by omega)]
    omega

lemma next_cases (a : Fin n) : (next a).val = a.val + 1 ∨ a.val + 1 = n ∧ (next a).val = 0 := by
  have ha := a.isLt
  unfold next
  split
  · exact .inl rfl
  · exact .inr ⟨by omega, rfl⟩

lemma dist_lt (a b : Fin n) : dist a b < n := Nat.mod_lt _ a.pos

@[simp] lemma dist_self (a : Fin n) : dist a a = 0 := by
  have h := dist_cases a a
  omega

lemma dist_eq_zero {a b : Fin n} : dist a b = 0 ↔ a = b := by
  have h := dist_cases a b
  have ha := a.isLt
  rw [Fin.ext_iff]
  omega

lemma next_prev (a : Fin n) : next (prev a) = a := by
  have ha := a.isLt
  have h := next_cases (prev a)
  have hprev : (prev a).val = if 0 < a.val then a.val - 1 else n - 1 := by
    unfold prev
    split <;> rfl
  rw [Fin.ext_iff]
  split at hprev <;> omega

lemma dist_next_right {a b : Fin n} (h : next b ≠ a) : dist a (next b) = dist a b + 1 := by
  have hb := b.isLt
  have h1 := dist_cases a b
  have h2 := dist_cases a (next b)
  have h3 := next_cases b
  rw [ne_eq, Fin.ext_iff] at h
  omega

lemma dist_next_left {a b : Fin n} (h : a ≠ b) : dist a b = dist (next a) b + 1 := by
  have hb := b.isLt
  have h1 := dist_cases a b
  have h2 := dist_cases (next a) b
  have h3 := next_cases a
  rw [ne_eq, Fin.ext_iff] at h
  omega

lemma next_ne_of_dist {a b : Fin n} (h : dist a b + 1 < n) : next b ≠ a := by
  have hb := b.isLt
  have h1 := dist_cases a b
  have h2 := next_cases b
  rw [ne_eq, Fin.ext_iff]
  omega

lemma dist_add_dist {a b c : Fin n} (h : dist a c ≤ dist a b) : dist a c + dist c b = dist a b := by
  have ha := a.isLt
  have h1 := dist_cases a b
  have h2 := dist_cases a c
  have h3 := dist_cases c b
  omega

lemma dist_shift {a : Fin n} {k : Nat} (hk : k < n) : dist a (shift a k) = k := by
  have ha := a.isLt
  have h1 := dist_cases a (shift a k)
  have h2 : (shift a k).val = (a.val + k) % n := rfl
  rcases Nat.lt_or_ge (a.val + k) n with h | h
  · rw [Nat.mod_eq_of_lt h] at h2
    omega
  · rw [Nat.mod_eq_sub_mod h, Nat.mod_eq_of_lt (by omega)] at h2
    omega

lemma shift_dist (a b : Fin n) : shift a (dist a b) = b := by
  have h := dist_shift (a := a) (dist_lt a b)
  have h1 := dist_cases a b
  have h2 := dist_cases a (shift a (dist a b))
  have hb := b.isLt
  have hs := (shift a (dist a b)).isLt
  rw [Fin.ext_iff]
  omega

lemma shift_zero (a : Fin n) : shift a 0 = a := by
  have h := shift_dist a a
  rwa [dist_self] at h

lemma shift_shift (a : Fin n) (j k : Nat) : shift (shift a j) k = shift a (j + k) := by
  rw [Fin.ext_iff]
  change ((a.val + j) % n + k) % n = (a.val + (j + k)) % n
  rw [Nat.mod_add_mod, Nat.add_assoc]

/-! ### Windows -/

lemma length_window (a b : Fin n) : (window a b).length = dist a b := by
  rw [window, List.length_map, List.length_range]

@[simp] lemma window_self (a : Fin n) : window a a = [] := by
  rw [window, dist_self]
  rfl

lemma mem_window {a b c : Fin n} : c ∈ window a b ↔ dist a c < dist a b := by
  simp only [window, List.mem_map, List.mem_range]
  constructor
  · rintro ⟨k, hk, rfl⟩
    rwa [dist_shift (hk.trans (dist_lt a b))]
  · intro h
    exact ⟨dist a c, h, shift_dist a c⟩

lemma nodup_window (a b : Fin n) : (window a b).Nodup := by
  refine List.Nodup.map_on ?_ List.nodup_range
  intro j hj k hk h
  have hj' : j < n := (List.mem_range.mp hj).trans (dist_lt a b)
  have hk' : k < n := (List.mem_range.mp hk).trans (dist_lt a b)
  rw [← dist_shift (a := a) hj', h, dist_shift hk']

/-- `c` is a place of the queue from `a` to `b`, or its tail. -/
def Between (a c b : Fin n) : Prop := dist a c ≤ dist a b

lemma window_append {a b c : Fin n} (h : Between a c b) : window a b = window a c ++ window c b := by
  unfold window
  rw [← dist_add_dist h, List.range_add, List.map_append, List.map_map]
  congr 1
  refine List.map_congr_left ?_
  intro k _
  rw [Function.comp_apply, ← shift_shift, shift_dist]

/-- A place is added behind the tail. -/
lemma window_push {a b : Fin n} (h : next b ≠ a) : window a (next b) = window a b ++ [b] := by
  rw [window, dist_next_right h, List.range_succ, List.map_append, List.map_singleton, shift_dist]
  rfl

/-- The first place of a queue that is not empty. -/
lemma window_pop {a b : Fin n} (h : a ≠ b) : window a b = a :: window (next a) b := by
  have hone : shift a 1 = next a := by
    have hpos : dist a b ≠ 0 := fun h0 => h (dist_eq_zero.mp h0)
    have hlt := dist_lt a b
    have h1 := dist_cases a (shift a 1)
    have h2 := next_cases a
    have ha := a.isLt
    have hs := (shift a 1).isLt
    rw [dist_shift (by omega)] at h1
    rw [Fin.ext_iff]
    omega
  unfold window
  rw [dist_next_left h, List.range_succ_eq_map, List.map_cons, shift_zero, List.map_map]
  congr 1
  refine List.map_congr_left ?_
  intro k _
  rw [Function.comp_apply, ← hone, shift_shift, Nat.succ_eq_add_one, Nat.add_comm]

lemma not_mem_window_right (a b : Fin n) : b ∉ window a b := fun h => lt_irrefl _ (mem_window.mp h)

lemma between_left (a b : Fin n) : Between a a b := by
  rw [Between, dist_self]
  exact Nat.zero_le _

lemma mem_of_between {a b c : Fin n} (h : Between a c b) (hne : c ≠ b) : c ∈ window a b := by
  rw [mem_window]
  have hsum := dist_add_dist h
  have hpos : dist c b ≠ 0 := fun h0 => hne (dist_eq_zero.mp h0)
  omega

/-- A place in the queue is followed by another, or by the tail. -/
lemma next_ne_of_mem {a b c : Fin n} (h : c ∈ window a b) : next c ≠ a := by
  rintro rfl
  have h1 := dist_cases (next c) c
  have h2 := next_cases c
  have h3 := mem_window.mp h
  have h4 := dist_lt (next c) b
  have hc := c.isLt
  omega

lemma Between.next {a b c : Fin n} (h : Between a c b) (hne : c ≠ b) : Between a (next c) b := by
  have hmem := mem_of_between h hne
  rw [Between, dist_next_right (next_ne_of_mem hmem)]
  exact mem_window.mp hmem

/-- The head moves on. -/
lemma Between.pop {a b c : Fin n} (h : Between a c b) (hne : a ≠ c) : Between (Ring.next a) c b := by
  have hab : a ≠ b := by
    rintro rfl
    rw [Between, dist_self] at h
    exact hne (dist_eq_zero.mp (Nat.le_zero.mp h))
  rw [Between, dist_next_left hne, dist_next_left hab] at h
  exact Nat.le_of_succ_le_succ h

/-- The tail moves on. -/
lemma Between.push {a b c : Fin n} (h : Between a c b) (hne : Ring.next b ≠ a) : Between a c (Ring.next b) := by
  rw [Between, dist_next_right hne]
  exact Nat.le_succ_of_le h

/-- The tail moves back, over a place behind `c`. -/
lemma Between.unpush {a b c : Fin n} (h : Between a c (Ring.next b)) (ha : Ring.next b ≠ a)
    (hne : c ≠ Ring.next b) : Between a c b := by
  have hmem := mem_window.mp (mem_of_between h hne)
  rw [dist_next_right ha] at hmem
  exact Nat.le_of_lt_succ hmem

/-! ### Contents -/

section Contents

variable {α : Type} {f : Fin n → α} {i : Fin n} {v : α} {l : List (Fin n)}

lemma map_update_of_notMem (h : i ∉ l) : l.map (Function.update f i v) = l.map f := by
  refine List.map_congr_left ?_
  intro j hj
  exact Function.update_of_ne (ne_of_mem_of_not_mem hj h) v f

lemma countP_update_of_notMem (h : i ∉ l) (p : α → Bool) :
    l.countP (fun j => p (Function.update f i v j)) = l.countP fun j => p (f j) := by
  refine List.countP_congr ?_
  intro j hj
  rw [Function.update_of_ne (ne_of_mem_of_not_mem hj h)]

/-- One place of a window changes, and with it the number of the places that pass a test. -/
lemma countP_update (hl : l.Nodup) (h : i ∈ l) (p : α → Bool) :
    l.countP (fun j => p (Function.update f i v j)) + (p (f i)).toNat =
      l.countP (fun j => p (f j)) + (p v).toNat := by
  induction l with
  | nil => exact absurd h List.not_mem_nil
  | cons a l ih =>
    rw [List.nodup_cons] at hl
    rcases List.mem_cons.mp h with rfl | hmem
    · rw [List.countP_cons, List.countP_cons, countP_update_of_notMem hl.1, Function.update_self]
      cases p v <;> cases p (f i) <;> simp
    · have hne : a ≠ i := (ne_of_mem_of_not_mem hmem hl.1).symm
      rw [List.countP_cons, List.countP_cons, Function.update_of_ne hne]
      have := ih hl.2 hmem
      omega

end Contents

end MimdramLean.Library.Ring

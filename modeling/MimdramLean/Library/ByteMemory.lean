import Mathlib.Data.BitVec
import Mathlib.Tactic.IntervalCases

/-!
# Memory of bytes

A memory maps addresses to bytes. Words are little endian. The loop `storeWords` stores
one word after the other, where a word may depend on what the loop has stored so far; its rule says
which bytes it leaves behind when the words do not depend on it.
-/

namespace MimdramLean.Library

abbrev Memory := Nat → BitVec 8

def load64 (m : Memory) (a : Nat) : BitVec 64 :=
  m (a + 7) ++ m (a + 6) ++ m (a + 5) ++ m (a + 4) ++ m (a + 3) ++ m (a + 2) ++ m (a + 1) ++ m a

def store64 (m : Memory) (a : Nat) (v : BitVec 64) : Memory := fun x =>
  if a ≤ x ∧ x < a + 8 then v.extractLsb' (8 * (x - a)) 8 else m x

def load32 (m : Memory) (a : Nat) : BitVec 32 := m (a + 3) ++ m (a + 2) ++ m (a + 1) ++ m a

def store32 (m : Memory) (a : Nat) (v : BitVec 32) : Memory := fun x =>
  if a ≤ x ∧ x < a + 4 then v.extractLsb' (8 * (x - a)) 8 else m x

/-- Bit `i` of the memory from an address on. -/
def memBit (m : Memory) (a i : Nat) : Bool := (m (a + i / 8)).getLsbD (i % 8)

lemma memBit_add (m : Memory) (a b i : Nat) : memBit m (a + b) i = memBit m a (8 * b + i) := by
  rw [memBit, memBit, Nat.mul_add_mod, Nat.mul_add_div (by omega), Nat.add_assoc]

lemma load32_bit (m : Memory) (a : Nat) {i : Nat} (hi : i < 32) : (load32 m a).getLsbD i = memBit m a i := by
  simp only [load32, memBit, BitVec.getLsbD_append]
  obtain ⟨k, j, hk, hj, rfl⟩ : ∃ k j, k < 4 ∧ j < 8 ∧ i = 8 * k + j := ⟨i / 8, i % 8, by omega, by omega, by omega⟩
  rw [show (8 * k + j) / 8 = k by omega, show (8 * k + j) % 8 = j by omega]
  interval_cases k <;> simp (disch := omega) only [if_pos, if_neg] <;> congr 1 <;> omega

/-- A bit after a word has been stored, in a block of words from `b` on. -/
lemma memBit_store32 (m : Memory) (b w : Nat) (v : BitVec 32) (i : Nat) :
    memBit (store32 m (b + 4 * w) v) b i = if i / 32 = w then v.getLsbD (i % 32) else memBit m b i := by
  unfold memBit store32
  by_cases hw : i / 32 = w
  · rw [if_pos (by omega), if_pos hw, BitVec.getLsbD_extractLsb', decide_eq_true (by omega), Bool.true_and]
    congr 1
    omega
  · rw [if_neg (by omega), if_neg hw]

/-- Byte `k` of a loaded word. -/
lemma load64_byte (m : Memory) (a : Nat) {k : Nat} (hk : k < 8) :
    (load64 m a).extractLsb' (8 * k) 8 = m (a + k) := by
  apply BitVec.eq_of_getLsbD_eq
  intro j hj
  simp only [load64, BitVec.getLsbD_extractLsb', hj, decide_true, Bool.true_and, BitVec.getLsbD_append]
  interval_cases k <;> simp (disch := omega) only [if_pos, if_neg] <;> exact congrArg _ (by omega)

lemma load64_congr {m m' : Memory} {a : Nat} (h : ∀ k < 8, m (a + k) = m' (a + k)) : load64 m a = load64 m' a := by
  have h0 := h 0 (by omega)
  rw [Nat.add_zero] at h0
  simp only [load64, h0, h 1 (by omega), h 2 (by omega), h 3 (by omega), h 4 (by omega), h 5 (by omega),
    h 6 (by omega), h 7 (by omega)]

lemma not_byte (v : BitVec 64) {k : Nat} (hk : k < 8) :
    (~~~v).extractLsb' (8 * k) 8 = ~~~v.extractLsb' (8 * k) 8 := by
  apply BitVec.eq_of_getLsbD_eq
  intro j hj
  simp [hj, show 8 * k + j < 64 by omega]

/-- Store `n` words from `dest` on; the word at offset `o` is `word m o`. -/
def storeWords (dest : Nat) (word : Memory → Nat → BitVec 64) (n : Nat) (m : Memory) : Memory :=
  (List.range n).foldl (fun m i => store64 m (dest + 8 * i) (word m (8 * i))) m

lemma storeWords_succ (dest : Nat) (word : Memory → Nat → BitVec 64) (n : Nat) (m : Memory) :
    storeWords dest word (n + 1) m =
      store64 (storeWords dest word n m) (dest + 8 * n) (word (storeWords dest word n m) (8 * n)) := by
  simp only [storeWords, List.range_succ, List.foldl_append, List.foldl_cons, List.foldl_nil]

lemma storeWords_outside {dest n : Nat} {word : Memory → Nat → BitVec 64} {m : Memory} {x : Nat}
    (hx : x < dest ∨ dest + 8 * n ≤ x) : storeWords dest word n m x = m x := by
  induction n with
  | zero => rfl
  | succ n ih =>
    rw [storeWords_succ, store64, if_neg (by omega)]
    exact ih (by omega)

/-- If the words depend on the bytes of `A` only, so does what the loop leaves there. -/
lemma storeWords_agree {A : Nat → Prop} {dest n : Nat} {word : Memory → Nat → BitVec 64} {m m' : Memory}
    (hword : ∀ i < n, ∀ m m' : Memory, (∀ x, A x → m x = m' x) → word m (8 * i) = word m' (8 * i))
    (h : ∀ x, A x → m x = m' x) : ∀ x, A x → storeWords dest word n m x = storeWords dest word n m' x := by
  induction n with
  | zero => exact h
  | succ n ih =>
    intro x hx
    have hprev := ih fun i hi => hword i (by omega)
    rw [storeWords_succ, storeWords_succ, store64, store64, hword n (by omega) _ _ hprev]
    split
    · rfl
    · exact hprev x hx

/-- `m` holds at the images of the addresses what `m'` holds at the addresses. -/
def Images (D : Nat → Prop) (f : Nat → Nat) (m m' : Memory) : Prop := ∀ x, D x → m (f x) = m' x

lemma Images.load64_eq {D : Nat → Prop} {f : Nat → Nat} {m m' : Memory} (h : Images D f m m') {a b : Nat}
    (hf : ∀ k < 8, D (a + k) ∧ f (a + k) = b + k) : load64 m b = load64 m' a := by
  have hbyte : ∀ k < 8, m (b + k) = m' (a + k) := fun k hk => by rw [← (hf k hk).2, h _ (hf k hk).1]
  have h0 := hbyte 0 (by omega)
  rw [Nat.add_zero, Nat.add_zero] at h0
  simp only [load64, h0, hbyte 1 (by omega), hbyte 2 (by omega), hbyte 3 (by omega), hbyte 4 (by omega),
    hbyte 5 (by omega), hbyte 6 (by omega), hbyte 7 (by omega)]

/-- A loop at the images does what the loop does at the addresses, as long as no two addresses have one image. -/
lemma Images.storeWords {D : Nat → Prop} {f : Nat → Nat} (hinj : ∀ x y, D x → D y → f x = f y → x = y) {a b n : Nat}
    (hf : ∀ i < 8 * n, D (a + i) ∧ f (a + i) = b + i) {word word' : Memory → Nat → BitVec 64}
    (hword : ∀ i < n, ∀ m m', Images D f m m' → word m (8 * i) = word' m' (8 * i)) {m m' : Memory}
    (h : Images D f m m') : Images D f (storeWords b word n m) (storeWords a word' n m') := by
  induction n with
  | zero => exact h
  | succ n ih =>
    have ih' := ih (fun i hi => hf i (by omega)) fun i hi => hword i (by omega)
    intro x hx
    rw [storeWords_succ, storeWords_succ, hword n (by omega) _ _ ih', store64, store64]
    by_cases hin : a + 8 * n ≤ x ∧ x < a + 8 * n + 8
    · have hfx := (hf (x - a) (by omega)).2
      rw [show a + (x - a) = x by omega] at hfx
      rw [if_pos (by omega), if_pos hin, show f x - (b + 8 * n) = x - (a + 8 * n) by omega]
    · have hout : ¬(b + 8 * n ≤ f x ∧ f x < b + 8 * n + 8) := by
        intro hfin
        have hback := hf (f x - b) (by omega)
        have hxeq := hinj x _ hx hback.1 (by omega)
        omega
      rw [if_neg hout, if_neg hin]
      exact ih' x hx

/-- If each word, computed in a memory that differs from `m` only where the loop has stored
already, has the bytes of `g`, the loop leaves `g` behind. -/
theorem storeWords_apply {dest n : Nat} {word : Memory → Nat → BitVec 64} {m : Memory}
    {g : Nat → BitVec 8}
    (hword : ∀ i < n, ∀ m' : Memory, (∀ x, x < dest ∨ dest + 8 * i ≤ x → m' x = m x) →
      ∀ k < 8, (word m' (8 * i)).extractLsb' (8 * k) 8 = g (8 * i + k)) (x : Nat) :
    storeWords dest word n m x = if dest ≤ x ∧ x < dest + 8 * n then g (x - dest) else m x := by
  induction n generalizing x with
  | zero =>
    rw [if_neg (by omega)]
    rfl
  | succ n ih =>
    have hprev := ih fun i hi => hword i (by omega)
    rw [storeWords_succ, store64]
    by_cases hlast : dest + 8 * n ≤ x ∧ x < dest + 8 * n + 8
    · rw [if_pos hlast, if_pos (by omega), hword n (by omega) _ (fun y hy => storeWords_outside hy) _ (by omega)]
      congr 1
      omega
    · rw [if_neg hlast, hprev]
      by_cases hx : dest ≤ x ∧ x < dest + 8 * n
      · rw [if_pos hx, if_pos (by omega)]
      · rw [if_neg hx, if_neg (by omega)]

end MimdramLean.Library

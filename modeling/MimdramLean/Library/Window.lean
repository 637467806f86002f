import Mathlib.Data.List.Basic
import Mathlib.Data.List.Chain

/-!
# The last entries of a log

A log grows at its end. `window a n l` is what a queue of fixed size `n`, filled with `a` at first, holds after the
entries of `l` have been pushed at its front and as many dropped at its back.
-/

namespace MimdramLean.Library

variable {α : Type}

lemma isChain_snoc {R : α → α → Prop} {l : List α} {x : α} (h : l.IsChain R)
    (hx : ∀ y, l.getLast? = some y → R y x) : (l ++ [x]).IsChain R :=
  h.append (List.isChain_singleton x) (by
    intro y hy z hz
    obtain rfl : x = z := by simpa using hz
    exact hx y hy)

lemma snoc_eq_append_cons {l pre post : List α} {x y : α} (h : l ++ [x] = pre ++ y :: post) :
    (l = pre ∧ x = y) ∨ ∃ post', l = pre ++ y :: post' := by
  rcases List.eq_nil_or_concat post with rfl | ⟨post', z, rfl⟩
  · obtain ⟨hpre, hlast⟩ := List.append_inj' h rfl
    exact .inl ⟨hpre, (List.cons.inj hlast).1⟩
  · rw [List.concat_eq_append, ← List.cons_append, ← List.append_assoc] at h
    exact .inr ⟨post', (List.append_inj' h rfl).1⟩

lemma head?_snoc {l : List α} {x c : α} (h : (l ++ [x]).head? = some c) :
    l.head? = some c ∨ (l = [] ∧ c = x) := by
  cases l with
  | nil => exact .inr ⟨rfl, (Option.some.inj h).symm⟩
  | cons y l => exact .inl h

variable (a : α)

def window (n : Nat) (l : List α) : List α := (l.reverse ++ List.replicate n a).take n

lemma length_window (n : Nat) (l : List α) : (window a n l).length = n := by
  simp [window]

/-- Pushing an entry. A queue of size 0 stays empty. -/
lemma window_snoc (n : Nat) (l : List α) (x : α) :
    window a n (l ++ [x]) = if window a n l = [] then [] else x :: (window a n l).dropLast := by
  cases n with
  | zero => simp [window]
  | succ n =>
    have hne : window a (n + 1) l ≠ [] := List.ne_nil_of_length_pos (by rw [length_window]; omega)
    have hdrop : (window a (n + 1) l).dropLast = (l.reverse ++ List.replicate (n + 1) a).take n := by
      rw [List.dropLast_eq_take, length_window, window, List.take_take]
      congr 1
      omega
    rw [if_neg hne, hdrop, window, List.reverse_append, List.reverse_singleton, List.singleton_append,
      List.cons_append, List.take_succ_cons]

/-- The oldest entry of a window that has been filled. -/
lemma getLast?_window {n : Nat} {l : List α} (hn : 0 < n) (h : n ≤ l.length) :
    (window a n l).getLast? = l[l.length - n]? := by
  rw [List.getLast?_eq_getElem?, length_window, window, List.getElem?_take, if_pos (by omega),
    List.getElem?_append, if_pos (by simp only [List.length_reverse]; omega),
    List.getElem?_reverse (by omega)]
  congr 1
  omega

lemma mem_window {n : Nat} {l : List α} {x : α} (h : x ∈ window a n l) : x ∈ l ∨ x = a := by
  rcases List.mem_append.mp (List.mem_of_mem_take h) with hx | hx
  · exact .inl (List.mem_reverse.mp hx)
  · exact .inr (List.eq_of_mem_replicate hx)

end MimdramLean.Library

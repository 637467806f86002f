import Mathlib.Data.List.Basic

/-!
# Queues that are searched front to back

The first position with a property, and moving the element at a position to the front.
-/

namespace MimdramLean.Library

variable {α : Type}

/-- The first position with `P`, counted from `i`. -/
def firstFrom (P : α → Bool) : List α → Nat → Option Nat
  | [], _ => none
  | x :: xs, i => if P x then some i else firstFrom P xs (i + 1)

lemma firstFrom_cons_of {P : α → Bool} {x : α} {xs : List α} {i : Nat} (h : P x = true) :
    firstFrom P (x :: xs) i = some i := by simp [firstFrom, h]

lemma firstFrom_cons_of_not {P : α → Bool} {x : α} {xs : List α} {i : Nat} (h : P x = false) :
    firstFrom P (x :: xs) i = firstFrom P xs (i + 1) := by simp [firstFrom, h]

lemma firstFrom_eq_none {P : α → Bool} {l : List α} {i : Nat} :
    firstFrom P l i = none ↔ ∀ x ∈ l, P x = false := by
  induction l generalizing i with
  | nil => simp [firstFrom]
  | cons x xs ih =>
    cases h : P x with
    | true => simp [firstFrom, h]
    | false => simp [firstFrom, h, ih]

/-- The element found satisfies `P` and none before it does. -/
lemma firstFrom_eq_some {P : α → Bool} {l : List α} {i k : Nat} :
    firstFrom P l i = some k ↔
      ∃ pre x post, l = pre ++ x :: post ∧ k = i + pre.length ∧ P x = true ∧ ∀ y ∈ pre, P y = false := by
  induction l generalizing i with
  | nil => simp [firstFrom]
  | cons x xs ih =>
    cases h : P x with
    | true =>
      rw [firstFrom_cons_of h]
      constructor
      · intro hk
        cases hk
        exact ⟨[], x, xs, rfl, rfl, h, by simp⟩
      · rintro ⟨pre, y, post, hl, rfl, hy, hpre⟩
        cases pre with
        | nil => rfl
        | cons z pre =>
          obtain ⟨rfl, -⟩ := List.cons.inj hl
          have hx := hpre x (by simp)
          rw [h] at hx
          exact absurd hx (by decide)
    | false =>
      rw [firstFrom_cons_of_not h, ih]
      constructor
      · rintro ⟨pre, y, post, rfl, rfl, hy, hpre⟩
        refine ⟨x :: pre, y, post, rfl, ?_, hy, ?_⟩
        · simp only [List.length_cons]
          omega
        · intro z hz
          rcases List.mem_cons.mp hz with rfl | hz
          · exact h
          · exact hpre z hz
      · rintro ⟨pre, y, post, hl, rfl, hy, hpre⟩
        cases pre with
        | nil =>
          obtain ⟨rfl, -⟩ := List.cons.inj hl
          rw [h] at hy
          exact absurd hy (by decide)
        | cons z pre =>
          obtain ⟨rfl, rfl⟩ := List.cons.inj hl
          refine ⟨pre, y, post, rfl, ?_, hy, fun w hw => hpre w (by simp [hw])⟩
          simp only [List.length_cons]
          omega

/-- The position just after `pre` is the first one exactly if its element is the first one. -/
lemma firstFrom_split {P : α → Bool} {pre post : List α} {x : α} :
    firstFrom P (pre ++ x :: post) 0 = some pre.length ↔ P x = true ∧ ∀ y ∈ pre, P y = false := by
  rw [firstFrom_eq_some]
  constructor
  · rintro ⟨pre', x', post', heq, hlen, hx, hpre⟩
    obtain ⟨rfl, hcons⟩ := List.append_inj heq (by omega)
    obtain ⟨rfl, -⟩ := List.cons.inj hcons
    exact ⟨hx, hpre⟩
  · rintro ⟨hx, hpre⟩
    exact ⟨pre, x, post, rfl, by omega, hx, hpre⟩

lemma findIdx?_eq_firstFrom (P : α → Bool) (l : List α) : l.findIdx? P = firstFrom P l 0 := by
  have h : ∀ i, (l.findIdx? P).map (· + i) = firstFrom P l i := by
    induction l with
    | nil => simp [firstFrom]
    | cons x xs ih =>
      intro i
      cases hx : P x with
      | true => simp [firstFrom, List.findIdx?_cons, hx]
      | false =>
        rw [firstFrom_cons_of_not hx, ← ih (i + 1), List.findIdx?_cons]
        simp [hx, Function.comp_def, Nat.add_comm, Nat.add_left_comm]
  simpa using h 0

/-- Erase the element at position `i` and push it to the front. -/
def moveToFront (queue : List α) (i : Nat) : List α :=
  match queue[i]? with
  | some x => x :: queue.eraseIdx i
  | none => queue

lemma moveToFront_append (pre : List α) (x : α) (post : List α) :
    moveToFront (pre ++ x :: post) pre.length = x :: (pre ++ post) := by
  simp [moveToFront, List.eraseIdx_append_of_length_le]

/-- In a queue ordered by `f`, what a search finds comes before everything else with the property. -/
lemma find?_le {P : α → Bool} {f : α → Nat} {l : List α} {a : α} (hord : l.Pairwise fun x y => f x < f y)
    (h : l.find? P = some a) {c : α} (hc : c ∈ l) (hPc : P c = true) : f a ≤ f c := by
  induction l with
  | nil => simp at hc
  | cons x xs ih =>
    obtain ⟨hx, hxs⟩ := List.pairwise_cons.mp hord
    cases hPx : P x with
    | true =>
      obtain rfl : x = a := by simpa [List.find?_cons, hPx] using h
      rcases List.mem_cons.mp hc with rfl | hc
      · exact Nat.le_refl _
      · exact Nat.le_of_lt (hx c hc)
    | false =>
      rcases List.mem_cons.mp hc with rfl | hc
      · simp [hPx] at hPc
      · exact ih hxs (by simpa [List.find?_cons, hPx] using h) hc

end MimdramLean.Library

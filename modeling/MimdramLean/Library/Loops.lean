import Mathlib.Algebra.Order.Ring.Nat
import Mathlib.Data.List.Nodup
import Mathlib.Data.List.Range
import Mathlib.Logic.Function.Basic
import Mathlib.Tactic.Ring

/-!
# Unrolled loops

A program without tests is a list of commands; its loops are unrolled with `List.flatMap` over the
values of the loop variable. The rules of this file prove an invariant over such a loop.
-/

namespace MimdramLean.Library

/-- The values of `k` in `for (int k = start; k < stop; k += stride)`. -/
def forLoop (start stop stride : Nat) : List Nat :=
  List.range' start ((stop - start + stride - 1) / stride) stride

/-- The value of `k` after this loop. -/
def forLoopEnd (start stop stride : Nat) : Nat := start + stride * ((stop - start + stride - 1) / stride)

/-- The values of `k` in `for (int k = n - 1; k >= 0; k --)`. -/
def forDown (n : Nat) : List Nat := (List.range n).reverse

/-- The values of `k` in `for (int k = 0; k < stop; k ++) { if (test) break; ... }` for which the loop goes on. -/
def forBreak (stop : Nat) (test : Nat → Bool) : List Nat := (List.range stop).takeWhile fun k => !test k

/-- The value of `k` after this loop. -/
def forBreakEnd (stop : Nat) (test : Nat → Bool) : Nat := (forBreak stop test).length

lemma mem_forLoop {start stop stride k : Nat} (hstride : 0 < stride) :
    k ∈ forLoop start stop stride ↔ ∃ i, k = start + stride * i ∧ k < stop := by
  have hcount : ∀ i, i < (stop - start + stride - 1) / stride ↔ start + stride * i < stop := by
    intro i
    rw [← Nat.succ_le_iff, Nat.le_div_iff_mul_le hstride, Nat.succ_mul, Nat.mul_comm i]
    omega
  simp only [forLoop, List.mem_range', hcount]
  constructor
  · rintro ⟨i, hi, rfl⟩
    exact ⟨i, rfl, hi⟩
  · rintro ⟨i, rfl, hi⟩
    exact ⟨i, hi, rfl⟩

lemma lt_of_mem_forLoop {start stop stride k : Nat} (hstride : 0 < stride) (hk : k ∈ forLoop start stop stride) :
    k < stop := by
  obtain ⟨i, _, hlt⟩ := (mem_forLoop hstride).mp hk
  exact hlt

lemma mem_forDown {n k : Nat} : k ∈ forDown n ↔ k < n := by
  rw [forDown, List.mem_reverse, List.mem_range]

lemma mem_forLoop_one {start stop k : Nat} : k ∈ forLoop start stop 1 ↔ start ≤ k ∧ k < stop := by
  rw [mem_forLoop Nat.one_pos]
  constructor
  · rintro ⟨i, rfl, hi⟩
    omega
  · rintro ⟨hstart, hstop⟩
    exact ⟨k - start, by omega, hstop⟩

lemma forLoop_zero_one (stop : Nat) : forLoop 0 stop 1 = List.range stop := by
  rw [forLoop, List.range_eq_range', Nat.div_one, Nat.sub_zero, Nat.add_sub_cancel]

lemma forLoopEnd_one {start stop : Nat} (hle : start ≤ stop) : forLoopEnd start stop 1 = stop := by
  rw [forLoopEnd]
  omega

/-- A loop over pairs goes through `m` values if it starts at the parity of `m`. -/
lemma forLoopEnd_pairs (m : Nat) : forLoopEnd (m % 2) (m - 1) 2 = m := by
  rw [forLoopEnd]
  omega

/-- A loop with a `break` runs up to the first value that passes the test. -/
lemma forBreak_spec (stop : Nat) (test : Nat → Bool) :
    forBreak stop test = forLoop 0 (forBreakEnd stop test) 1 ∧ forBreakEnd stop test ≤ stop ∧
      (∀ k < forBreakEnd stop test, test k = false) ∧
      (forBreakEnd stop test < stop → test (forBreakEnd stop test) = true) := by
  have hle : (List.range stop).findIdx test ≤ stop := by
    have h : (List.range stop).findIdx test ≤ (List.range stop).length := List.findIdx_le_length
    rwa [List.length_range] at h
  have heq : forBreak stop test = List.range ((List.range stop).findIdx test) := by
    rw [forBreak, List.takeWhile_eq_take_findIdx_not]
    simp only [Bool.not_not]
    rw [List.take_range, min_eq_left hle]
  have hend : forBreakEnd stop test = (List.range stop).findIdx test := by
    rw [forBreakEnd, heq, List.length_range]
  refine ⟨?_, hend ▸ hle, ?_, ?_⟩
  · rw [heq, hend, forLoop, List.range_eq_range']
    simp
  · intro k hk
    have h := List.not_of_lt_findIdx (hend ▸ hk)
    simpa using h
  · intro hlt
    rw [hend] at hlt ⊢
    have hlen : (List.range stop).findIdx test < (List.range stop).length := by rwa [List.length_range]
    have h := List.findIdx_getElem (w := hlen)
    simpa using h

section Rules

variable {S E : Type} {step : S → E → S} {body : Nat → List E}

theorem range'_rule (I : Nat → S → Prop) (start stride : Nat) :
    ∀ (count : Nat) (s : S), I start s →
      (∀ i t, i < count → I (start + stride * i) t →
        I (start + stride * (i + 1)) ((body (start + stride * i)).foldl step t)) →
      I (start + stride * count) (((List.range' start count stride).flatMap body).foldl step s) := by
  intro count
  induction count with
  | zero =>
    intro s hs _
    exact hs
  | succ count ih =>
    intro s hs hbody
    rw [List.range'_concat, List.flatMap_append, List.foldl_append]
    simp only [List.flatMap_singleton]
    apply hbody count _ (by omega)
    exact ih s hs fun i t hi => hbody i t (by omega)

/-- What every pass of a loop that counts up keeps. -/
theorem forLoop_rule (I : Nat → S → Prop) {start stop stride : Nat} {s : S} (hstride : 0 < stride)
    (hs : I start s)
    (hbody : ∀ k t, start ≤ k → k < stop → I k t → I (k + stride) ((body k).foldl step t)) :
    I (forLoopEnd start stop stride) (((forLoop start stop stride).flatMap body).foldl step s) := by
  apply range'_rule I start stride _ s hs
  intro i t hi hI
  have hlt : stride * i < stop - start := by
    have h := (Nat.le_div_iff_mul_le hstride).mp hi
    rw [Nat.succ_mul, Nat.mul_comm i] at h
    omega
  have hnext := hbody (start + stride * i) t (by omega) (by omega) hI
  rwa [Nat.add_assoc, ← Nat.mul_succ] at hnext

/-- The same with the stride of most loops. -/
theorem forLoop_one_rule (I : Nat → S → Prop) {start stop : Nat} {s : S} (hle : start ≤ stop)
    (hs : I start s)
    (hbody : ∀ k t, start ≤ k → k < stop → I k t → I (k + 1) ((body k).foldl step t)) :
    I stop (((forLoop start stop 1).flatMap body).foldl step s) := by
  have h := forLoop_rule I Nat.one_pos hs hbody
  rwa [forLoopEnd_one hle] at h

/-- What holds after any number of passes, for an invariant that does not look at the loop variable. -/
theorem forLoop_take_rule (I : S → Prop) {start stop stride : Nat} {s : S} (hs : I s)
    (hbody : ∀ k t, I t → I ((body k).foldl step t)) (m : Nat) :
    I ((((forLoop start stop stride).take m).flatMap body).foldl step s) := by
  induction (forLoop start stop stride).take m generalizing s with
  | nil => exact hs
  | cons k ks ih =>
    rw [List.flatMap_cons, List.foldl_append]
    exact ih (hbody k s hs)

/-- The rule for what is known of the unrolled commands themselves. -/
theorem forLoop_append_rule (I : Nat → List E → Prop) {start stop stride : Nat} {l : List E}
    (hstride : 0 < stride) (hl : I start l)
    (hbody : ∀ k l, start ≤ k → k < stop → I k l → I (k + stride) (l ++ body k)) :
    I (forLoopEnd start stop stride) (l ++ (forLoop start stop stride).flatMap body) := by
  have hfold : ∀ es l : List E, es.foldl (fun l e => l ++ [e]) l = l ++ es := by
    intro es l
    rw [List.foldl_append_eq_append, ← List.flatMap_def, List.flatMap_singleton']
  rw [← hfold]
  apply forLoop_rule I hstride hl
  intro k l' hk hk' hI
  rw [hfold]
  exact hbody k l' hk hk' hI

/-- What every pass of a loop that counts down keeps. -/
theorem forDown_rule (I : Nat → S → Prop) {n : Nat} {s : S} (hs : I n s)
    (hbody : ∀ k t, k < n → I (k + 1) t → I k ((body k).foldl step t)) :
    I 0 (((forDown n).flatMap body).foldl step s) := by
  induction n generalizing s with
  | zero => exact hs
  | succ n ih =>
    rw [forDown, List.range_succ, List.reverse_append, List.reverse_singleton, List.singleton_append,
      List.flatMap_cons, List.foldl_append]
    exact ih (hbody n s (by omega) hs) fun k t hk => hbody k t (by omega)

end Rules

/-! ### Loop interchange

Commands that act on one component of a family alone. A loop over the commands of a program, each
for all components, has the effect of the whole program on each component. -/

section Interchange

variable {K X E : Type} [DecidableEq K] (step : X → E → X)

/-- One command at one component. -/
def stepAt (f : K → X) (c : E × K) : K → X := Function.update f c.2 (step (f c.2) c.1)

lemma foldl_stepAt_one (e : E) {ks : List K} (hks : ks.Nodup) (f : K → X) (k : K) :
    (ks.map fun k => (e, k)).foldl (stepAt step) f k = if k ∈ ks then step (f k) e else f k := by
  induction ks generalizing f with
  | nil => simp
  | cons k' ks ih =>
    obtain ⟨hnot, hks⟩ := List.nodup_cons.mp hks
    rw [List.map_cons, List.foldl_cons, ih hks]
    by_cases heq : k = k'
    · subst heq
      simp [hnot, stepAt]
    · simp [heq, stepAt]

theorem foldl_stepAt (es : List E) {ks : List K} (hks : ks.Nodup) (f : K → X) (k : K) :
    (es.flatMap fun e => ks.map fun k => (e, k)).foldl (stepAt step) f k =
      if k ∈ ks then es.foldl step (f k) else f k := by
  induction es generalizing f with
  | nil => simp
  | cons e es ih =>
    rw [List.flatMap_cons, List.foldl_append, ih, foldl_stepAt_one step e hks]
    split <;> rfl

end Interchange

/-! ### What one pass changes -/

section OnePass

variable {S A X : Type} {step : S → A → S} (get : S → X)

lemma foldl_frame {l : List A} (h : ∀ a ∈ l, ∀ s, get (step s a) = get s) (s : S) :
    get (l.foldl step s) = get s := by
  induction l generalizing s with
  | nil => rfl
  | cons a l ih =>
    rw [List.foldl_cons, ih fun b hb => h b (List.mem_cons_of_mem a hb), h a List.mem_cons_self]

lemma foldl_range_succ {S : Type} (step : S → Nat → S) (n : Nat) (s : S) :
    (List.range (n + 1)).foldl step s = step ((List.range n).foldl step s) n := by
  rw [List.range_succ, List.foldl_append, List.foldl_cons, List.foldl_nil]

/-- A loop of which one pass changes what `get` sees. -/
theorem foldl_at (f : X → X) {l : List A} (hl : l.Nodup) {a : A} (ha : a ∈ l)
    (hat : ∀ s, get (step s a) = f (get s)) (hother : ∀ b ∈ l, b ≠ a → ∀ s, get (step s b) = get s) (s : S) :
    get (l.foldl step s) = f (get s) := by
  obtain ⟨l₁, l₂, rfl⟩ := List.append_of_mem ha
  have hnodup := List.nodup_middle.mp hl
  have hne : ∀ b ∈ l₁ ++ l₂, b ≠ a := fun b hb heq => (List.nodup_cons.mp hnodup).1 (heq ▸ hb)
  have hbefore : ∀ b ∈ l₁, ∀ s, get (step s b) = get s := fun b hb =>
    hother b (List.mem_append_left _ hb) (hne b (List.mem_append_left _ hb))
  have hafter : ∀ b ∈ l₂, ∀ s, get (step s b) = get s := fun b hb =>
    hother b (List.mem_append_right _ (List.mem_cons_of_mem a hb)) (hne b (List.mem_append_right _ hb))
  rw [List.foldl_append, List.foldl_cons, foldl_frame get hafter, hat, foldl_frame get hbefore]

/-- The same for a loop over a range, that may not come to the pass of `row`. -/
lemma foldl_range_at {step : S → Nat → S} (f : X → X) {row R : Nat}
    (hstep : ∀ r < R, ∀ s, get (step s r) = if row = r then f (get s) else get s) (s : S) :
    get ((List.range R).foldl step s) = if row < R then f (get s) else get s := by
  split
  · next hrow =>
    refine foldl_at get f List.nodup_range (List.mem_range.mpr hrow) (fun s => ?_) (fun r hr hne s => ?_) s
    · rw [hstep row hrow, if_pos rfl]
    · rw [hstep r (List.mem_range.mp hr), if_neg hne.symm]
  · next hrow =>
    refine foldl_frame get (fun r hr s => ?_) s
    have hlt := List.mem_range.mp hr
    rw [hstep r hlt, if_neg (by omega)]

end OnePass

/-- A relation that each element of a list keeps between two states is kept by the whole list. -/
lemma foldl_related {S T A B : Type} {f : S → A → S} {g : T → B → T} {toB : A → B} (R : S → T → Prop)
    {l : List A} (hstep : ∀ a ∈ l, ∀ s t, R s t → R (f s a) (g t (toB a))) {s : S} {t : T} (h : R s t) :
    R (l.foldl f s) ((l.map toB).foldl g t) := by
  induction l generalizing s t with
  | nil => exact h
  | cons a l ih =>
    rw [List.map_cons, List.foldl_cons, List.foldl_cons]
    exact ih (fun a ha => hstep a (List.mem_cons_of_mem _ ha)) (hstep a List.mem_cons_self _ _ h)

/-- The loop that keeps the place of the least value it has seen. -/
lemma foldl_min {ι : Type} (f : ι → Nat) (l : List ι) (a : ι) :
    ∀ j ∈ a :: l, f (l.foldl (fun m i => if f i < f m then i else m) a) ≤ f j := by
  induction l generalizing a with
  | nil => simp
  | cons i l ih =>
    rw [List.foldl_cons]
    intro j hj
    have hfirst := ih (if f i < f a then i else a) _ (List.mem_cons_self ..)
    have hmin : f (if f i < f a then i else a) ≤ f i ∧ f (if f i < f a then i else a) ≤ f a := by
      split <;> omega
    rcases List.mem_cons.mp hj with rfl | hj
    · exact hfirst.trans hmin.2
    · rcases List.mem_cons.mp hj with rfl | hj
      · exact hfirst.trans hmin.1
      · exact ih _ j (List.mem_cons_of_mem _ hj)

/-- The loop that keeps the greatest value it has seen. -/
lemma le_foldl_max {ι : Type} (f : ι → Nat) (l : List ι) (t : Nat) :
    t ≤ l.foldl (fun t i => max (f i) t) t ∧ ∀ i ∈ l, f i ≤ l.foldl (fun t i => max (f i) t) t := by
  induction l generalizing t with
  | nil => simp
  | cons i l ih =>
    obtain ⟨hle, hmem⟩ := ih (max (f i) t)
    refine ⟨(le_max_right _ _).trans hle, fun j hj => ?_⟩
    rcases List.mem_cons.mp hj with rfl | hj
    · exact (le_max_left _ _).trans hle
    · exact hmem j hj

lemma foldl_max_le {ι : Type} (f : ι → Nat) {l : List ι} {t T : Nat} (ht : t ≤ T) (hf : ∀ i ∈ l, f i ≤ T) :
    l.foldl (fun t i => max (f i) t) t ≤ T := by
  induction l generalizing t with
  | nil => exact ht
  | cons i l ih =>
    exact ih (max_le (hf i List.mem_cons_self) ht) fun j hj => hf j (List.mem_cons_of_mem i hj)

end MimdramLean.Library

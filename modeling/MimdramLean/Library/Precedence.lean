import Mathlib.Data.List.Sort

/-!
# What comes before what

`x` precedes `y` in a list if some occurrence of `x` comes before one of `y`. The lemmas of this file say
how this relation fares when entries are inserted in the order of a key, removed or appended.
-/

namespace MimdramLean.Library

section Precedes

variable {α : Type} {l l' : List α} {x y z : α}

def Precedes (l : List α) (x y : α) : Prop := [x, y].Sublist l

lemma Precedes.mem_left (h : Precedes l x y) : x ∈ l := h.subset (by simp)

lemma Precedes.mono (h : Precedes l x y) (hl : l.Sublist l') : Precedes l' x y := List.Sublist.trans h hl

lemma precedes_append (h : x ∈ l) : Precedes (l ++ [y]) x y :=
  (List.singleton_sublist.mpr h).append (List.Sublist.refl [y])

/-- Nothing comes before the head of a list without duplicates. -/
lemma not_precedes_head (hnodup : (y :: l).Nodup) : ¬ Precedes (y :: l) x y := by
  have hy : y ∉ l := (List.nodup_cons.mp hnodup).1
  intro h
  cases h with
  | cons _ h => exact hy (h.subset (by simp))
  | cons_cons _ h => exact hy (h.subset (by simp))

lemma Precedes.erase [DecidableEq α] (h : Precedes l x y) (hx : x ≠ z) (hy : y ≠ z) :
    Precedes (l.erase z) x y := by
  have h' := List.Sublist.erase z h
  rwa [List.erase_cons_tail (by simpa using hx), List.erase_cons_tail (by simpa using hy)] at h'

end Precedes

/-! ### Insertion by a key -/

section Insertion

variable {α : Type} {key : α → Nat} {l : List α} {x : α}

/-- The list is in the order of the key. -/
abbrev OrderedBy (key : α → Nat) (l : List α) : Prop := l.Pairwise fun a b => key a ≤ key b

/-- Put `x` behind every entry whose key is not larger. -/
abbrev insertBy (key : α → Nat) (x : α) (l : List α) : List α := l.orderedInsert (fun a b => key a < key b) x

lemma insertBy_eq_append (h : ∀ y ∈ l, key y ≤ key x) : insertBy key x l = l ++ [x] := by
  induction l with
  | nil => rfl
  | cons y l ih =>
    have hy : ¬ key x < key y := by
      have := h y List.mem_cons_self
      omega
    rw [insertBy, List.orderedInsert, if_neg hy, List.cons_append]
    exact congrArg (y :: ·) (ih fun z hz => h z (List.mem_cons_of_mem y hz))

lemma OrderedBy.insertBy (h : OrderedBy key l) : OrderedBy key (insertBy key x l) := by
  induction l with
  | nil => simp [OrderedBy]
  | cons y l ih =>
    obtain ⟨hy, hl⟩ := List.pairwise_cons.mp h
    rw [Library.insertBy, List.orderedInsert]
    split
    · rename_i hlt
      apply List.pairwise_cons.mpr
      refine ⟨?_, h⟩
      intro z hz
      rcases List.mem_cons.mp hz with rfl | hz
      · omega
      · have := hy z hz
        omega
    · rename_i hle
      apply List.pairwise_cons.mpr
      refine ⟨?_, ih hl⟩
      intro z hz
      rcases (List.mem_orderedInsert _).mp hz with rfl | hz
      · omega
      · exact hy z hz

/-- An entry with the same key as one that is there is put behind it. -/
lemma precedes_insertBy (h : OrderedBy key l) {y : α} (hy : y ∈ l) (hkey : key y ≤ key x) :
    Precedes (insertBy key x l) y x := by
  induction l with
  | nil => cases hy
  | cons z l ih =>
    obtain ⟨hz, hl⟩ := List.pairwise_cons.mp h
    have hzx : key z ≤ key x := by
      rcases List.mem_cons.mp hy with rfl | hy
      · exact hkey
      · exact (hz y hy).trans hkey
    rw [insertBy, List.orderedInsert, if_neg (by omega)]
    rcases List.mem_cons.mp hy with rfl | hy
    · apply List.Sublist.cons_cons
      exact List.singleton_sublist.mpr ((List.mem_orderedInsert _).mpr (.inl rfl))
    · exact (ih hl hy).cons z

end Insertion

end MimdramLean.Library

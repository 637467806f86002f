import Mathlib.Tactic.Ring
import MimdramLean.FuncPageTable
import MimdramLean.Library.Simulation

/-!
# The page table and its cache

The page table is compared with a table without a cache, on which `map`, `remap` and `unmap` act on all
pages of a range at once.
-/

namespace MimdramLean.Proofs
open Library

/-! ### Ranges of pages -/

/-- The address is one of the `k` pages from `v` on. -/
def InPages (v : Addr) (k : Nat) (a : Addr) : Prop :=
  (a - v).toNat % pageBytes = 0 ∧ (a - v).toNat / pageBytes < k

instance (v : Addr) (k : Nat) (a : Addr) : Decidable (InPages v k a) := instDecidableAnd

section Pages

variable {v a : Addr} {k : Nat}

lemma not_inPages_zero : ¬InPages v 0 a := fun h => Nat.not_lt_zero _ h.2

lemma inPages_succ (hk : k + 1 ≤ 2 ^ 52) : InPages v (k + 1) a ↔ a = v ∨ InPages (v + pageSize) k a := by
  rw [← BitVec.toNat_inj]
  have hv := v.isLt
  have ha := a.isLt
  simp only [InPages, pageBytes, pageSize, BitVec.toNat_sub, BitVec.toNat_add, BitVec.toNat_ofNat]
  omega

lemma not_inPages_next (hk : k + 1 ≤ 2 ^ 52) : ¬InPages (v + pageSize) k v := by
  have hv := v.isLt
  simp only [InPages, pageBytes, pageSize, BitVec.toNat_sub, BitVec.toNat_add, BitVec.toNat_ofNat]
  omega

lemma inPages_self : InPages v (k + 1) v := by simp [InPages]

lemma pageCount_le (size : BitVec 64) : pageCount size ≤ 2 ^ 51 := by
  have hsize := BitVec.toInt_lt (x := size)
  simp only [pageCount, pageBytes]
  omega

end Pages

/-! ### The table without its cache -/

/-- The pages from `v` on are mapped to those from `p` on. -/
def mapped (flags : MappingFlags) (v p : Addr) (k : Nat) (T : PTable) : PTable := fun a =>
  if InPages v k a then some (TlbEntry.ofPage a (p + (a - v)) flags.uncacheable flags.readOnly) else T a

/-- The pages from `v` on are moved to `w`. -/
def moved (v w : Addr) (k : Nat) (T : PTable) : PTable := fun a =>
  if InPages w k a then (T (v + (a - w))).map fun e => { e with vaddr := a }
  else if InPages v k a then none else T a

/-- The pages from `v` on are not mapped any more. -/
def unmapped (v : Addr) (k : Nat) (T : PTable) : PTable := fun a => if InPages v k a then none else T a

section Tables

variable {T : PTable} {v w p : Addr} {k : Nat} {flags : MappingFlags}

lemma mapped_succ (hk : k + 1 ≤ 2 ^ 52) :
    mapped flags v p (k + 1) T = mapped flags (v + pageSize) (p + pageSize) k
      (Function.update T v (some (TlbEntry.ofPage v p flags.uncacheable flags.readOnly))) := by
  funext a
  simp only [mapped, inPages_succ hk]
  by_cases ha : a = v
  · subst ha
    simp [not_inPages_next hk]
  · have hpaddr : p + pageSize + (a - (v + pageSize)) = p + (a - v) := by ring
    simp [ha, hpaddr]

lemma unmapped_succ (hk : k + 1 ≤ 2 ^ 52) :
    unmapped v (k + 1) T = unmapped (v + pageSize) k (Function.update T v none) := by
  funext a
  simp only [unmapped, inPages_succ hk]
  by_cases ha : a = v
  · subst ha
    simp
  · simp [ha]

/-- Every page that is moved is mapped, and goes to a page that is not mapped, or not any more. -/
structure Movable (T : PTable) (v w : Addr) (k : Nat) : Prop where
  source : ∀ a, InPages v k a → T a ≠ none
  vacant : ∀ a, InPages w k a → T a = none ∨ InPages v ((a - w).toNat / pageBytes) a

/-- The table after the first page has been moved. -/
def movedOne (v w : Addr) (e : TlbEntry) (T : PTable) : PTable :=
  Function.update (Function.update T v none) w (some { e with vaddr := w })

lemma Movable.first (h : Movable T v w (k + 1)) : T w = none :=
  (h.vacant w inPages_self).resolve_right (by simp [InPages])

lemma Movable.outside (h : Movable T v w (k + 1)) : ¬InPages v (k + 1) w := fun hin => h.source w hin h.first

lemma Movable.rest (h : Movable T v w (k + 1)) (hk : k + 1 ≤ 2 ^ 52) (e : TlbEntry) :
    Movable (movedOne v w e T) (v + pageSize) (w + pageSize) k where
  source := by
    intro a ha
    have hin : InPages v (k + 1) a := (inPages_succ hk).mpr (.inr ha)
    have haw : a ≠ w := fun heq => h.outside (heq ▸ hin)
    have hav : a ≠ v := fun heq => not_inPages_next hk (heq ▸ ha)
    rw [movedOne, Function.update_of_ne haw, Function.update_of_ne hav]
    exact h.source a hin
  vacant := by
    intro a ha
    have hin : InPages w (k + 1) a := (inPages_succ hk).mpr (.inr ha)
    have haw : a ≠ w := fun heq => not_inPages_next hk (heq ▸ ha)
    rw [movedOne, Function.update_of_ne haw]
    by_cases hav : a = v
    · exact .inl (by rw [hav, Function.update_self])
    · rw [Function.update_of_ne hav]
      refine (h.vacant a hin).imp_right fun hmoved => ?_
      have hindex : (a - w).toNat / pageBytes = (a - (w + pageSize)).toNat / pageBytes + 1 := by
        have := a.isLt
        have := w.isLt
        have hne : a.toNat ≠ w.toNat := fun heq => haw (BitVec.toNat_inj.mp heq)
        simp only [InPages, pageBytes, pageSize, BitVec.toNat_sub, BitVec.toNat_add, BitVec.toNat_ofNat] at hin ha ⊢
        omega
      rw [hindex] at hmoved
      have hle : (a - (w + pageSize)).toNat / pageBytes + 1 ≤ 2 ^ 52 := by
        have := ha.2
        omega
      exact ((inPages_succ hle).mp hmoved).resolve_left hav

lemma moved_succ (h : Movable T v w (k + 1)) (hk : k + 1 ≤ 2 ^ 52) {e : TlbEntry} (he : T v = some e) :
    moved v w (k + 1) T = moved (v + pageSize) (w + pageSize) k (movedOne v w e T) := by
  have hout := h.outside
  have hvw : v ≠ w := fun heq => hout (heq ▸ inPages_self)
  funext a
  simp only [moved, inPages_succ hk]
  by_cases haw : a = w
  · subst haw
    rw [inPages_succ hk, not_or] at hout
    simp [not_inPages_next hk, hout.2, movedOne, he]
  · have hsource : v + pageSize + (a - (w + pageSize)) = v + (a - w) := by ring
    rw [hsource]
    by_cases hin : InPages (w + pageSize) k a
    · -- the page comes from a later page of the source
      have hsrc : InPages (v + pageSize) k (v + (a - w)) := by
        have heq : v + (a - w) - (v + pageSize) = a - (w + pageSize) := by ring
        rwa [InPages, heq]
      have hne : v + (a - w) ≠ v := by
        intro heq
        rw [heq] at hsrc
        exact not_inPages_next hk hsrc
      have hne' : v + (a - w) ≠ w := by
        intro heq
        rw [heq] at hsrc
        exact hout ((inPages_succ hk).mpr (.inr hsrc))
      simp [hin, movedOne, Function.update_of_ne hne, Function.update_of_ne hne']
    · by_cases hav : a = v
      · subst hav
        simp [hvw, hin, not_inPages_next hk, movedOne]
      · simp [haw, hin, hav, movedOne]

end Tables

/-! ### The cache -/

/-- The cache has at most one entry for a page, and that is the one of the table. -/
structure Coherent (c : PTableCache) (T : PTable) : Prop where
  right : ∀ i v e, c i = some (v, e) → T v = some e
  once : ∀ i j v e e', c i = some (v, e) → c j = some (v, e') → i = j

section Cache

open PTableCache

variable {c : PTableCache} {T U : PTable} {v : Addr} {e : TlbEntry}

lemma entryFor_eq_some {element : Option (Addr × TlbEntry)} : entryFor element v = some e ↔ element = some (v, e) := by
  cases element with
  | none => simp [entryFor]
  | some p =>
    simp only [entryFor]
    split
    · rename_i heq
      simp [← heq, Prod.ext_iff]
    · rename_i hne
      simp [Prod.ext_iff, hne]

lemma entryFor_eq_none {element : Option (Addr × TlbEntry)} :
    entryFor element v = none ↔ ∀ e, element ≠ some (v, e) := by
  rw [Option.eq_none_iff_forall_ne_some]
  exact forall_congr' fun e => not_congr entryFor_eq_some

lemma find_eq_some (h : find c v = some e) : ∃ i, c i = some (v, e) := by
  rw [find] at h
  split at h
  · rename_i heq
    exact ⟨.i0, entryFor_eq_some.mp (heq.trans h)⟩
  · split at h
    · rename_i heq
      exact ⟨.i1, entryFor_eq_some.mp (heq.trans h)⟩
    · exact ⟨.i2, entryFor_eq_some.mp h⟩

lemma find_eq_none (h : find c v = none) (i : CacheIndex) (e : TlbEntry) : c i ≠ some (v, e) := by
  rw [find] at h
  split at h
  · cases h
  · rename_i h0
    split at h
    · cases h
    · rename_i h1
      match i with
      | .i0 => exact entryFor_eq_none.mp h0 e
      | .i1 => exact entryFor_eq_none.mp h1 e
      | .i2 => exact entryFor_eq_none.mp h e

lemma coherent_empty (T : PTable) : Coherent (fun _ => none) T :=
  ⟨fun _ _ _ h => absurd h.symm (Option.some_ne_none _), fun _ _ _ _ _ h => absurd h.symm (Option.some_ne_none _)⟩

/-- A cache without the page. -/
def Lacks (c : PTableCache) (v : Addr) : Prop := ∀ i e, c i ≠ some (v, e)

lemma Coherent.lacks (h : Coherent c T) (hv : T v = none) : Lacks c v := by
  intro i e he
  rw [h.right i v e he] at hv
  cases hv

lemma Coherent.updateCache (h : Coherent c T) (hv : Lacks c v) (he : T v = some e) :
    Coherent (updateCache c v e) T where
  right := by
    intro i w e' hi
    match i with
    | .i0 =>
      obtain ⟨rfl, rfl⟩ := Prod.mk.inj (Option.some.inj hi)
      exact he
    | .i1 => exact h.right .i0 w e' hi
    | .i2 => exact h.right .i1 w e' hi
  once := by
    intro i j w e₁ e₂ hi hj
    have key : ∀ {e'}, PTableCache.updateCache c v e .i0 = some (w, e') → v = w := fun h0 =>
      congrArg Prod.fst (Option.some.inj h0)
    match i, j with
    | .i0, .i0 => rfl
    | .i1, .i1 => rfl
    | .i2, .i2 => rfl
    | .i0, .i1 => exact absurd hj (key hi ▸ hv .i0 e₂)
    | .i0, .i2 => exact absurd hj (key hi ▸ hv .i1 e₂)
    | .i1, .i0 => exact absurd hi (key hj ▸ hv .i0 e₁)
    | .i2, .i0 => exact absurd hi (key hj ▸ hv .i1 e₁)
    | .i1, .i2 => exact absurd (h.once .i0 .i1 w e₁ e₂ hi hj) (by decide)
    | .i2, .i1 => exact absurd (h.once .i1 .i0 w e₁ e₂ hi hj) (by decide)

lemma eraseCacheEntry_cases (c : PTableCache) (v : Addr) :
    (∃ j e, c j = some (v, e) ∧ eraseCacheEntry c v = Function.update c j none) ∨
      Lacks c v ∧ eraseCacheEntry c v = c := by
  have hfound : ∀ j, (entryFor (c j) v).isSome = true → ∃ e, c j = some (v, e) := by
    intro j hj
    obtain ⟨e, he⟩ := Option.isSome_iff_exists.mp hj
    exact ⟨e, entryFor_eq_some.mp he⟩
  rw [eraseCacheEntry]
  split
  · rename_i h0
    exact .inl ⟨.i0, (hfound .i0 h0).choose, (hfound .i0 h0).choose_spec, rfl⟩
  · split
    · rename_i h1
      exact .inl ⟨.i1, (hfound .i1 h1).choose, (hfound .i1 h1).choose_spec, rfl⟩
    · split
      · rename_i h2
        exact .inl ⟨.i2, (hfound .i2 h2).choose, (hfound .i2 h2).choose_spec, rfl⟩
      · rename_i h0 h1 h2
        simp only [Bool.not_eq_true, Option.isSome_eq_false_iff, Option.isNone_iff_eq_none, entryFor_eq_none] at h0 h1 h2
        refine .inr ⟨fun i => ?_, rfl⟩
        match i with
        | .i0 => exact h0
        | .i1 => exact h1
        | .i2 => exact h2

/-- Since a page has one entry only, it is enough to erase the first one. -/
lemma Coherent.eraseCacheEntry_eq_some (h : Coherent c T) {i : CacheIndex} {w : Addr} :
    eraseCacheEntry c v i = some (w, e) ↔ c i = some (w, e) ∧ w ≠ v := by
  rcases eraseCacheEntry_cases c v with ⟨j, e', hj, herase⟩ | ⟨hlacks, herase⟩
  · rw [herase, Function.update_apply]
    split
    · rename_i hij
      subst hij
      refine iff_of_false (fun hi => Option.some_ne_none _ hi.symm) fun hi => hi.2 ?_
      rw [hj] at hi
      exact (congrArg Prod.fst (Option.some.inj hi.1)).symm
    · rename_i hij
      refine ⟨fun hi => ⟨hi, fun heq => hij ?_⟩, fun hi => hi.1⟩
      subst heq
      exact h.once i j _ _ _ hi hj
  · rw [herase]
    exact ⟨fun hi => ⟨hi, fun heq => hlacks i e (heq ▸ hi)⟩, fun hi => hi.1⟩

lemma Coherent.eraseCacheEntry (h : Coherent c T) (hU : ∀ w, w ≠ v → U w = T w) :
    Coherent (eraseCacheEntry c v) U ∧ Lacks (eraseCacheEntry c v) v := by
  refine ⟨⟨fun i w e hi => ?_, fun i j w e e' hi hj => ?_⟩, fun i e hi => ?_⟩
  · obtain ⟨hi, hw⟩ := h.eraseCacheEntry_eq_some.mp hi
    rw [hU w hw]
    exact h.right i w e hi
  · exact h.once i j w e e' (h.eraseCacheEntry_eq_some.mp hi).1 (h.eraseCacheEntry_eq_some.mp hj).1
  · exact (h.eraseCacheEntry_eq_some.mp hi).2 rfl

end Cache

/-! ### Calls -/

/-- The page table is the table `T`, behind a cache that agrees with it. -/
def Keeps (t : FuncPageTable) (T : PTable) : Prop := t.pTable = T ∧ Coherent t.cache T

section Calls

variable {t t' : FuncPageTable} {T : PTable} {v w p : Addr} {k : Nat} {flags : MappingFlags}

lemma keeps_new : Keeps .new fun _ => none := ⟨rfl, coherent_empty _⟩

/-- A page is mapped. -/
lemma Keeps.mapOne (h : Keeps t T) (v : Addr) (e : TlbEntry) :
    Keeps (((t.set v (some e)).eraseCacheEntry v).updateCache v e) (Function.update T v (some e)) := by
  obtain ⟨rfl, hc⟩ := h
  obtain ⟨herase, hlacks⟩ := hc.eraseCacheEntry (v := v) (U := Function.update t.pTable v (some e)) fun w hw =>
    Function.update_of_ne hw ..
  exact ⟨rfl, herase.updateCache hlacks (Function.update_self ..)⟩

lemma Keeps.mapPages (h : Keeps t T) (hk : k ≤ 2 ^ 52)
    (hfree : flags.clobber = true ∨ ∀ a, InPages v k a → T a = none) :
    ∃ t', t.mapPages flags k v p = .ok t' ∧ Keeps t' (mapped flags v p k T) := by
  induction k generalizing t T v p with
  | zero =>
    refine ⟨t, rfl, ?_⟩
    have hsame : mapped flags v p 0 T = T := funext fun a => if_neg not_inPages_zero
    rwa [hsame]
  | succ k ih =>
    have hfirst : flags.clobber = true ∨ t.pTable v = none := hfree.imp_right fun hfree => h.1 ▸ hfree v inPages_self
    have hrest : flags.clobber = true ∨ ∀ a, InPages (v + pageSize) k a →
        Function.update T v (some (TlbEntry.ofPage v p flags.uncacheable flags.readOnly)) a = none := by
      refine hfree.imp_right fun hfree a ha => ?_
      have hav : a ≠ v := fun heq => not_inPages_next hk (heq ▸ ha)
      rw [Function.update_of_ne hav]
      exact hfree a ((inPages_succ hk).mpr (.inr ha))
    obtain ⟨t', hrun, h'⟩ := ih (h.mapOne v _) (p := p + pageSize) (by omega) hrest
    refine ⟨t', ?_, by rwa [mapped_succ hk]⟩
    rw [FuncPageTable.mapPages, ensure, if_pos hfirst, ok_bind]
    exact hrun

/-- `map` stops at a page that is mapped already. -/
lemma mapPages_free (hrun : t.mapPages flags k v p = .ok t') (hk : k ≤ 2 ^ 52) :
    flags.clobber = true ∨ ∀ a, InPages v k a → t.pTable a = none := by
  induction k generalizing t v p with
  | zero => exact .inr fun a ha => absurd ha not_inPages_zero
  | succ k ih =>
    rw [FuncPageTable.mapPages, bind_eq_ok] at hrun
    obtain ⟨_, hfirst, hrun⟩ := hrun
    rw [ensure_eq_ok] at hfirst
    by_cases hclobber : flags.clobber = true
    · exact .inl hclobber
    · refine .inr fun a ha => ?_
      have hrest := (ih hrun (by omega)).resolve_left hclobber
      rcases (inPages_succ hk).mp ha with rfl | ha'
      · exact hfirst.resolve_left hclobber
      · have hav : a ≠ v := fun heq => not_inPages_next hk (heq ▸ ha')
        have hnone := hrest a ha'
        simpa [FuncPageTable.set, FuncPageTable.eraseCacheEntry, FuncPageTable.updateCache, hav] using hnone

lemma Keeps.moveOne (h : Keeps t T) {e : TlbEntry} (hv : T v = some e) (hw : T w = none) :
    Keeps (((((t.set w (some e)).set v none).eraseCacheEntry v).set w (some { e with vaddr := w })).updateCache w
      { e with vaddr := w }) (movedOne v w e T) := by
  obtain ⟨rfl, hc⟩ := h
  have hvw : v ≠ w := fun heq => by rw [heq, hw] at hv; cases hv
  have hlacks := hc.lacks hw
  obtain ⟨herase, -⟩ := hc.eraseCacheEntry (v := v) (U := Function.update t.pTable v none) fun a ha =>
    Function.update_of_ne ha ..
  have htable : Function.update (Function.update (Function.update t.pTable w (some e)) v none) w
      (some { e with vaddr := w }) = movedOne v w e t.pTable := by
    rw [movedOne, Function.update_comm hvw.symm, Function.update_idem]
  refine ⟨htable, Coherent.updateCache ⟨fun i a e' hi => ?_, herase.once⟩ (fun i e' hi => ?_) ?_⟩
  · have ha := (hc.eraseCacheEntry_eq_some.mp hi).1
    have haw : a ≠ w := fun heq => hlacks i e' (heq ▸ ha)
    rw [movedOne, Function.update_of_ne haw]
    exact herase.right i a e' hi
  · exact hlacks i e' (hc.eraseCacheEntry_eq_some.mp hi).1
  · exact Function.update_self ..

lemma Keeps.remapPages (h : Keeps t T) (hk : k ≤ 2 ^ 52) (hmove : Movable T v w k) :
    ∃ t', t.remapPages k v w = .ok t' ∧ Keeps t' (moved v w k T) := by
  induction k generalizing t T v w with
  | zero =>
    have hsame : moved v w 0 T = T := funext fun a => by simp [moved, not_inPages_zero]
    exact ⟨t, rfl, by rwa [hsame]⟩
  | succ k ih =>
    obtain ⟨e, he⟩ := Option.ne_none_iff_exists'.mp (hmove.source v inPages_self)
    have hw := hmove.first
    have hvw : w ≠ v := fun heq => by rw [← heq, hw] at he; cases he
    obtain ⟨t', hrun, h'⟩ := ih (h.moveOne he hw) (by omega) (hmove.rest hk e)
    refine ⟨t', ?_, by rwa [moved_succ hmove hk he]⟩
    have hentry : ((((t.set w (some e)).set v none).eraseCacheEntry v).pTable w).getD .empty = e := by
      simp [FuncPageTable.set, FuncPageTable.eraseCacheEntry, hvw]
    rw [FuncPageTable.remapPages, h.1, he]
    simp only [hentry]
    exact hrun

lemma Keeps.unmapPages (h : Keeps t T) (hk : k ≤ 2 ^ 52) (hall : ∀ a, InPages v k a → T a ≠ none) :
    ∃ t', t.unmapPages k v = .ok t' ∧ Keeps t' (unmapped v k T) := by
  induction k generalizing t T v with
  | zero =>
    have hsame : unmapped v 0 T = T := funext fun a => if_neg not_inPages_zero
    exact ⟨t, rfl, by rwa [hsame]⟩
  | succ k ih =>
    obtain ⟨rfl, hc⟩ := h
    obtain ⟨herase, -⟩ := hc.eraseCacheEntry (v := v) (U := Function.update t.pTable v none) fun a ha =>
      Function.update_of_ne ha ..
    have hone : Keeps ((t.set v none).eraseCacheEntry v) (Function.update t.pTable v none) := ⟨rfl, herase⟩
    obtain ⟨t', hrun, h'⟩ := ih hone (v := v + pageSize) (by omega) fun a ha => by
      have hav : a ≠ v := fun heq => not_inPages_next hk (heq ▸ ha)
      rw [Function.update_of_ne hav]
      exact hall a ((inPages_succ hk).mpr (.inr ha))
    refine ⟨t', ?_, by rwa [unmapped_succ hk]⟩
    rw [FuncPageTable.unmapPages, ensure, if_pos (hall v inPages_self), ok_bind]
    exact hrun

lemma pagesUnmapped_iff (hk : k ≤ 2 ^ 52) :
    t.pagesUnmapped k v = true ↔ ∀ a, InPages v k a → t.pTable a = none := by
  induction k generalizing v with
  | zero => exact iff_of_true rfl fun a ha => absurd ha not_inPages_zero
  | succ k ih =>
    rw [FuncPageTable.pagesUnmapped]
    split
    · rename_i hv
      exact iff_of_false Bool.false_ne_true fun hall => hv (hall v inPages_self)
    · rename_i hv
      rw [ih (by omega)]
      refine ⟨fun hall a ha => ?_, fun hall a ha => hall a ((inPages_succ hk).mpr (.inr ha))⟩
      rcases (inPages_succ hk).mp ha with rfl | ha'
      · exact not_not.mp hv
      · exact hall a ha'

/-- The cache does not change what is found. -/
lemma Keeps.lookup (h : Keeps t T) (v : Addr) :
    (t.lookup v).1 = T (pageAlign v) ∧ Keeps (t.lookup v).2 T := by
  obtain ⟨rfl, hc⟩ := h
  cases hfind : t.cache.find (pageAlign v) with
  | some e =>
    obtain ⟨i, hi⟩ := find_eq_some hfind
    simp only [FuncPageTable.lookup, hfind]
    exact ⟨(hc.right i _ _ hi).symm, rfl, hc⟩
  | none =>
    cases he : t.pTable (pageAlign v) with
    | none =>
      simp only [FuncPageTable.lookup, hfind, he]
      exact ⟨trivial, rfl, hc⟩
    | some e =>
      simp only [FuncPageTable.lookup, hfind, he]
      exact ⟨trivial, rfl, hc.updateCache (find_eq_none hfind) he⟩

end Calls

/-! ### Runs -/

/-- A call on the table without its cache. Addresses are aligned, pages are mapped where none is mapped or with
`Clobber`, only mapped pages are unmapped or moved, and pages are moved to pages that are not mapped. -/
inductive TableOp (T : PTable) : FuncPageTable.Op → FuncPageTable.Answer → PTable → Prop
  | map {v p : Addr} {size : BitVec 64} {flags : MappingFlags} : pageOffset v = 0 →
    (flags.clobber = true ∨ ∀ a, InPages v (pageCount size) a → T a = none) →
    TableOp T (.map v p size flags) .done (mapped flags v p (pageCount size) T)
  | remap {v w : Addr} {size : BitVec 64} : pageOffset v = 0 → pageOffset w = 0 → Movable T v w (pageCount size) →
    TableOp T (.remap v size w) .done (moved v w (pageCount size) T)
  | unmap {v : Addr} {size : BitVec 64} : pageOffset v = 0 → (∀ a, InPages v (pageCount size) a → T a ≠ none) →
    TableOp T (.unmap v size) .done (unmapped v (pageCount size) T)
  | isUnmapped {v : Addr} {size : BitVec 64} {b : Bool} : pageOffset v = 0 →
    (b = true ↔ ∀ a, InPages v (pageCount size) a → T a = none) → TableOp T (.isUnmapped v size) (.bool b) T
  | lookup {v : Addr} : TableOp T (.lookup v) (.entry (T (pageAlign v))) T
  | translate {v : Addr} :
    TableOp T (.translate v) (.addr ((T (pageAlign v)).map fun e => pageOffset v + e.paddr)) T

lemma step_keeps {t : FuncPageTable} {T T' : PTable} {op : FuncPageTable.Op} {o : FuncPageTable.Answer}
    (h : Keeps t T) (hop : TableOp T op o T') : ∃ t', t.step op = .ok (o, t') ∧ Keeps t' T' := by
  have hcount : ∀ size, pageCount size ≤ 2 ^ 52 := fun size => (pageCount_le size).trans (by decide)
  cases hop with
  | @map v p size flags hv hfree =>
    obtain ⟨t', hrun, h'⟩ := h.mapPages (p := p) (hcount size) hfree
    exact ⟨t', by simp only [FuncPageTable.step, FuncPageTable.map, ensure, if_pos hv, ok_bind, hrun], h'⟩
  | @remap v w size hv hw hmove =>
    obtain ⟨t', hrun, h'⟩ := h.remapPages (hcount size) hmove
    exact ⟨t', by simp only [FuncPageTable.step, FuncPageTable.remap, ensure, if_pos hv, if_pos hw, ok_bind, hrun], h'⟩
  | @unmap v size hv hall =>
    obtain ⟨t', hrun, h'⟩ := h.unmapPages (hcount size) hall
    exact ⟨t', by simp only [FuncPageTable.step, FuncPageTable.unmap, ensure, if_pos hv, ok_bind, hrun], h'⟩
  | @isUnmapped v size b hv hb =>
    have hb' : t.pagesUnmapped (pageCount size) v = b := by
      rw [Bool.eq_iff_iff, pagesUnmapped_iff (hcount size), h.1, hb]
    exact ⟨t, by simp only [FuncPageTable.step, FuncPageTable.isUnmapped, ensure, if_pos hv, ok_bind, hb'], h⟩
  | @lookup v =>
    obtain ⟨ho, h'⟩ := h.lookup v
    exact ⟨(t.lookup v).2, by rw [FuncPageTable.step, ho], h'⟩
  | @translate v =>
    obtain ⟨ho, h'⟩ := h.lookup v
    exact ⟨(t.lookup v).2, by rw [← ho]; rfl, h'⟩

/-- A page table with its cache does what a table without a cache does, along every sequence of calls of
`TableOp`: no assertion fails, and the answers are the same. -/
theorem page_table_follows {ops : List FuncPageTable.Op} {os : List FuncPageTable.Answer} {T : PTable}
    (hrun : SpecRun TableOp (fun _ => none) ops os T) :
    ∃ t, runAnswers FuncPageTable.step .new ops = .ok (os, t) ∧ Keeps t T :=
  hrun.follow FuncPageTable.step (fun T t => Keeps t T) (fun _ _ _ _ _ h hop => step_keeps h hop) keeps_new

lemma inPages_one {v a : Addr} : InPages v 1 a ↔ a = v := by
  rw [inPages_succ (by decide)]
  exact or_iff_left not_inPages_zero

/-- A page is mapped, moved and found where it has been moved to. -/
theorem page_table_follows_move :
    ∃ t T, runAnswers FuncPageTable.step .new
        [.map 0x1000 0x5000 0x1000 ⟨false, false, false⟩, .remap 0x1000 0x1000 0x3000, .translate 0x3010,
          .translate 0x1010] = .ok ([.done, .done, .addr (some 0x5010), .addr none], t) ∧ Keeps t T := by
  have hone : pageCount 0x1000 = 1 := by decide
  have hmove : Movable (mapped ⟨false, false, false⟩ 0x1000 0x5000 (pageCount 0x1000) fun _ => none) 0x1000 0x3000
      (pageCount 0x1000) := by
    rw [hone]
    refine ⟨fun a ha => ?_, fun a ha => ?_⟩
    · rw [inPages_one.mp ha]
      decide
    · rw [inPages_one.mp ha]
      decide
  obtain ⟨t, hrun, h⟩ := page_table_follows <|
    .cons (.map (by decide) (.inr fun _ _ => rfl)) <| .cons (.remap (by decide) (by decide) hmove) <|
    .cons .translate <| .cons .translate (.nil _)
  exact ⟨t, _, hrun, h⟩

lemma pageAlign_of_offset {v : Addr} (h : pageOffset v = 0) : pageAlign v = v := by
  refine BitVec.eq_of_getLsbD_eq fun i hi => ?_
  have hbit : (v.getLsbD i && offsetMask.getLsbD i) = false := by
    rw [← BitVec.getLsbD_and, ← pageOffset, h]
    exact BitVec.getLsbD_zero
  simp only [pageAlign, BitVec.getLsbD_and, BitVec.getLsbD_not, hi, decide_true, Bool.true_and]
  revert hbit
  cases v.getLsbD i <;> simp

/-- The entries of other pages stay where they are. -/
lemma eraseCacheEntry_other {c : PTableCache} {v w : Addr} {e : TlbEntry} {i : CacheIndex} (hvw : v ≠ w)
    (hi : c i = some (w, e)) : c.eraseCacheEntry v i = some (w, e) := by
  rcases eraseCacheEntry_cases c v with ⟨j, e', hj, herase⟩ | ⟨-, herase⟩
  · have hij : i ≠ j := by
      rintro rfl
      rw [hi] at hj
      exact hvw (congrArg Prod.fst (Option.some.inj hj)).symm
    rw [herase, Function.update_of_ne hij, hi]
  · rw [herase, hi]

/-- When a page is moved to one that is mapped and was looked up a short time ago, the cache keeps the old
entry of that page behind the new one. After the page has been unmapped, the old entry is found. -/
theorem remap_onto_mapped_stale {t : FuncPageTable} {T : PTable} (h : Keeps t T) {v w : Addr} {e e' : TlbEntry}
    (hv : pageOffset v = 0) (hw : pageOffset w = 0) (hvw : v ≠ w) (he : T v = some e)
    (hcached : t.cache .i0 = some (w, e') ∨ t.cache .i1 = some (w, e')) :
    ∃ t₁ t₂, t.remap v 0x1000 w = .ok t₁ ∧ t₁.unmap w 0x1000 = .ok t₂ ∧ t₂.pTable w = none ∧
      (t₂.lookup w).1 = some e' := by
  obtain ⟨rfl, hc⟩ := h
  have hone : pageCount 0x1000 = 1 := by decide
  let moved : TlbEntry := { e with vaddr := w }
  let t₁ : FuncPageTable :=
    ((((t.set w (some e)).set v none).eraseCacheEntry v).set w (some moved)).updateCache w moved
  let t₂ : FuncPageTable := (t₁.set w none).eraseCacheEntry w
  have hentry : ((((t.set w (some e)).set v none).eraseCacheEntry v).pTable w).getD .empty = e := by
    simp [FuncPageTable.set, FuncPageTable.eraseCacheEntry, hvw.symm]
  have hremap : t.remap v 0x1000 w = .ok t₁ := by
    simp only [FuncPageTable.remap, ensure, if_pos hv, if_pos hw, ok_bind, hone, FuncPageTable.remapPages, he, hentry]
    rfl
  have hunmap : t₁.unmap w 0x1000 = .ok t₂ := by
    have hmapped : t₁.pTable w ≠ none := by
      simp [t₁, FuncPageTable.set, FuncPageTable.eraseCacheEntry, FuncPageTable.updateCache]
    simp only [FuncPageTable.unmap, ensure, if_pos hw, ok_bind, hone, FuncPageTable.unmapPages, if_pos hmapped]
    rfl
  -- only the new entry is erased
  have hcache : t₂.cache = Function.update t₁.cache .i0 none := by
    have hhit : (PTableCache.entryFor (t₁.cache .i0) w).isSome = true := by
      simp [t₁, FuncPageTable.updateCache, PTableCache.updateCache, PTableCache.entryFor]
    change t₁.cache.eraseCacheEntry w = _
    rw [PTableCache.eraseCacheEntry, if_pos hhit]
  have hslot0 : PTableCache.entryFor (t₂.cache .i0) w = none := by rw [hcache, Function.update_self]; rfl
  have hslot1 : t₂.cache .i1 = t.cache.eraseCacheEntry v .i0 := by rw [hcache, Function.update_of_ne (by decide)]; rfl
  have hslot2 : t₂.cache .i2 = t.cache.eraseCacheEntry v .i1 := by rw [hcache, Function.update_of_ne (by decide)]; rfl
  have hfind : t₂.cache.find w = some e' := by
    rcases hcached with h0 | h1
    · have hhit : PTableCache.entryFor (t₂.cache .i1) w = some e' := by
        rw [hslot1, eraseCacheEntry_other hvw h0, entryFor_eq_some]
      simp only [PTableCache.find, hslot0, hhit]
    · have hmiss : PTableCache.entryFor (t₂.cache .i1) w = none := by
        rw [hslot1, entryFor_eq_none]
        intro x hx
        exact absurd (hc.once .i0 .i1 w x e' (hc.eraseCacheEntry_eq_some.mp hx).1 h1) (by decide)
      have hhit : PTableCache.entryFor (t₂.cache .i2) w = some e' := by
        rw [hslot2, eraseCacheEntry_other hvw h1, entryFor_eq_some]
      simp only [PTableCache.find, hslot0, hmiss, hhit]
  refine ⟨t₁, t₂, hremap, hunmap, by simp [t₂, FuncPageTable.set, FuncPageTable.eraseCacheEntry], ?_⟩
  rw [FuncPageTable.lookup, pageAlign_of_offset hw, hfind]

/-- The second page keeps its old physical page. -/
theorem remap_onto_mapped_stale_pages :
    ∃ t t₁ t₂, runAnswers FuncPageTable.step .new [.map 0x1000 0x5000 0x1000 ⟨false, false, false⟩,
        .map 0x2000 0x6000 0x1000 ⟨false, false, false⟩] = .ok ([.done, .done], t) ∧
      t.remap 0x1000 0x1000 0x2000 = .ok t₁ ∧ t₁.unmap 0x2000 0x1000 = .ok t₂ ∧
      (t₂.lookup 0x2000).1 = some (.ofPage 0x2000 0x6000 false false) := by
  have hkeeps := (keeps_new.mapOne 0x1000 (.ofPage 0x1000 0x5000 false false)).mapOne 0x2000
    (.ofPage 0x2000 0x6000 false false)
  obtain ⟨t₁, t₂, h₁, h₂, -, h₃⟩ := remap_onto_mapped_stale hkeeps (v := 0x1000) (w := 0x2000) (by decide) (by decide)
    (by decide) rfl (.inl rfl)
  exact ⟨_, t₁, t₂, rfl, h₁, h₂, h₃⟩

end MimdramLean.Proofs

import MimdramLean.Library.Loops
import MimdramLean.Proofs.Trie
import MimdramLean.TLB

/-!
# The TLB is a least-recently-used cache of pages

The TLB is compared with a list of pages, the most recently used one first, that holds no more pages
than the TLB has entries. Which entry of the array holds a page, the free list, the trie and the
sequence numbers are not in the list.
-/

namespace MimdramLean.Proofs
open Library

/-! ### Pages -/

/-- An entry without what the TLB notes for itself. -/
def TlbEntry.bare (e : TlbEntry) : TlbEntry := { e with lruSeq := 0, trieHandle := none }

/-- The page of the entry has the address. -/
def TlbEntry.covers (e : TlbEntry) (va : BitVec 64) : Bool := va &&& leadingMask 64 (64 - e.logBytes) == e.vaddr

/-- The size of the page that each address is in. -/
structure Paging where
  logBytes : BitVec 64 → Nat
  lt : ∀ va, logBytes va < 64
  same : ∀ va va', AgreeTo (64 - logBytes va) va va' → logBytes va' = logBytes va

/-- The entry is for a whole page. -/
def Paging.Fits (P : Paging) (e : TlbEntry) : Prop :=
  e.logBytes = P.logBytes e.vaddr ∧ e.vaddr &&& leadingMask 64 (64 - e.logBytes) = e.vaddr

/-- The prefix of the addresses of a page. -/
def pageHandle (e : TlbEntry) : TrieHandle 64 := TrieNode.handleOf e.vaddr (64 - e.logBytes)

section Pages

variable {P : Paging} {e e' : TlbEntry} {va : BitVec 64}

lemma covers_iff (h : P.Fits e) : TlbEntry.covers e va = true ↔ TrieNode.Matches (pageHandle e) va := by
  rw [TlbEntry.covers, beq_iff_eq, TrieNode.Matches, pageHandle, TrieNode.handleOf, h.2]

lemma logBytes_of_covers (h : P.Fits e) (hcov : TlbEntry.covers e va = true) : e.logBytes = P.logBytes va := by
  rw [TlbEntry.covers, beq_iff_eq, ← h.2, and_leadingMask_eq_iff (Nat.sub_le _ _), h.1] at hcov
  rw [h.1]
  exact (P.same _ _ hcov.symm).symm

/-- An address is in one page. -/
lemma pageHandle_eq (h : P.Fits e) (h' : P.Fits e') (hcov : TlbEntry.covers e va = true)
    (hcov' : TlbEntry.covers e' va = true) : pageHandle e = pageHandle e' := by
  have hlog : e.logBytes = e'.logBytes := (logBytes_of_covers h hcov).trans (logBytes_of_covers h' hcov').symm
  have hvaddr : e.vaddr = e'.vaddr := by
    rw [TlbEntry.covers, beq_iff_eq] at hcov hcov'
    rw [← hcov, ← hcov', hlog]
  rw [pageHandle, pageHandle, hlog, hvaddr]

end Pages

/-! ### The list of pages -/

/-- A call on the list of pages, the most recently used one first. -/
def lruStep (size : Nat) (pages : List TlbEntry) : TLB.Op → Option TlbEntry × List TlbEntry
  | .insert vpn entry =>
    match pages.find? fun e => TlbEntry.covers e vpn with
    | some e => (some e, pages)
    | none =>
      let e := TlbEntry.bare { entry with vaddr := vpn }
      (some e, e :: if pages.length = size then pages.dropLast else pages)
  | .lookup va updateLru =>
    match pages.find? fun e => TlbEntry.covers e va with
    | none => (none, pages)
    | some e => (some e, if updateLru then e :: pages.filter fun e => !TlbEntry.covers e va else pages)
  | .flushAll => (none, [])
  | .flushNonGlobal => (none, pages.filter fun e => e.global)
  | .demapPage va => (none, pages.filter fun e => !TlbEntry.covers e va)

/-! ### The TLB and its list -/

/-- The entries in use. -/
structure InUse (P : Paging) {n : Nat} (t : TLB n) (slots : List (Fin (n + 1))) : Prop where
  nodup : (slots ++ t.freeList).Nodup
  complete : ∀ i, i ∈ slots ∨ i ∈ t.freeList
  fits : ∀ i ∈ slots, P.Fits (t.tlb i)
  handle : ∀ i ∈ slots, (t.tlb i).trieHandle = some (pageHandle (t.tlb i))
  free : ∀ i ∈ t.freeList, (t.tlb i).trieHandle = none
  trie : ∃ E, TrieNode.Represents t.trie E ∧ ∀ h i, E h = some i ↔ i ∈ slots ∧ pageHandle (t.tlb i) = h

/-- The most recently used entry comes first. -/
structure Recent {n : Nat} (t : TLB n) (slots : List (Fin (n + 1))) : Prop where
  order : slots.Pairwise fun i j => (t.tlb j).lruSeq < (t.tlb i).lruSeq
  seq : ∀ i ∈ slots, (t.tlb i).lruSeq ≤ t.lruSeq

section

variable {P : Paging} {n : Nat} {t : TLB n} {slots : List (Fin (n + 1))}

lemma inUse_new (P : Paging) (n : Nat) : InUse P (TLB.new n) [] where
  nodup := List.nodup_finRange _
  complete := fun i => .inr (List.mem_finRange i)
  fits := nofun
  handle := nofun
  free := fun _ _ => rfl
  trie := ⟨fun _ => none, TrieNode.represents_head, by simp⟩

/-- The trie finds the entry whose page has the address. -/
lemma InUse.lookup (h : InUse P t slots) (va : BitVec 64) (i : Fin (n + 1)) :
    t.trie.lookup va = some i ↔ i ∈ slots ∧ TlbEntry.covers (t.tlb i) va = true := by
  obtain ⟨E, hrep, hE⟩ := h.trie
  have hans := hrep.lookupHandle va
  rw [ MimdramLean.TrieNode.lookup]
  generalize t.trie.lookupHandle va = a at hans
  have hfound : ∀ j ∈ slots, TlbEntry.covers (t.tlb j) va = true → ∃ h, a = some (h, j) := by
    intro j hj hcov
    have hmatch := (covers_iff (h.fits j hj)).mp hcov
    have hentry := (hE _ j).mpr ⟨hj, rfl⟩
    cases a with
    | none =>
      rw [hans _ hmatch] at hentry
      cases hentry
    | some p =>
      obtain ⟨hp, hpm, -⟩ := hans
      obtain ⟨hin, hhandle⟩ := (hE _ _).mp hp
      have hcovp : TlbEntry.covers (t.tlb p.2) va = true := (covers_iff (h.fits _ hin)).mpr (hhandle ▸ hpm)
      have hsame := pageHandle_eq (h.fits _ hin) (h.fits j hj) hcovp hcov
      have hp' := (hE (pageHandle (t.tlb j)) p.2).mpr ⟨hin, hsame⟩
      rw [hentry] at hp'
      exact ⟨p.1, by rw [Option.some.inj hp']⟩
  constructor
  · intro hlook
    obtain ⟨p, rfl, rfl⟩ := Option.map_eq_some_iff.mp hlook
    obtain ⟨hp, hpm, -⟩ := hans
    obtain ⟨hin, hhandle⟩ := (hE _ _).mp hp
    exact ⟨hin, (covers_iff (h.fits _ hin)).mpr (hhandle ▸ hpm)⟩
  · rintro ⟨hi, hcov⟩
    obtain ⟨h', rfl⟩ := hfound i hi hcov
    rfl

/-- The entries of two TLBs are the same but for entry `i`. -/
def SameBut (t t' : TLB n) (i : Fin (n + 1)) : Prop := ∀ j, j ≠ i → t'.tlb j = t.tlb j

/-- An entry is released. -/
lemma InUse.release (h : InUse P t slots) {i : Fin (n + 1)} (hi : i ∈ slots) :
    ∃ t', t.release i = .ok t' ∧ InUse P t' (slots.erase i) ∧ SameBut t t' i ∧ t'.freeList = t.freeList ++ [i] ∧
      t'.lruSeq = t.lruSeq := by
  obtain ⟨E, hrep, hE⟩ := h.trie
  have hentry := (hE _ i).mpr ⟨hi, rfl⟩
  obtain ⟨trie, hremove, hrep'⟩ := hrep.remove (h := pageHandle (t.tlb i)) (by rw [hentry]; nofun)
  have hslots : slots.Nodup := (List.nodup_append.mp h.nodup).1
  have hne : ∀ j ∈ slots.erase i, j ≠ i := fun j hj => (hslots.mem_erase_iff.mp hj).1
  have hmem : ∀ j ∈ slots.erase i, j ∈ slots := fun j hj => List.mem_of_mem_erase hj
  let t' : TLB n :=
    { t.setEntry i { t.tlb i with trieHandle := none } with trie := trie, freeList := t.freeList ++ [i] }
  have hsame : SameBut t t' i := fun j hj => if_neg hj
  have hperm : (slots.erase i ++ t'.freeList).Perm (slots ++ t.freeList) := by
    change (slots.erase i ++ (t.freeList ++ [i])).Perm _
    rw [← List.append_assoc]
    refine (List.perm_append_singleton i _).trans ?_
    exact ((List.perm_cons_erase hi).append_right t.freeList).symm
  refine ⟨t', by simp only [TLB.release, h.handle i hi, hremove]; rfl, ?_, hsame, rfl, rfl⟩
  refine
    { nodup := hperm.nodup_iff.mpr h.nodup
      complete := fun j => ?_
      fits := fun j hj => ?_
      handle := fun j hj => ?_
      free := fun j hj => ?_
      trie := ⟨_, hrep', fun h' j => ?_⟩ }
  · exact List.mem_append.mp (hperm.mem_iff.mpr (List.mem_append.mpr (h.complete j)))
  · rw [hsame j (hne j hj)]
    exact h.fits j (hmem j hj)
  · rw [hsame j (hne j hj)]
    exact h.handle j (hmem j hj)
  · by_cases hji : j = i
    · subst hji
      simp [t', TLB.setEntry]
    · rw [hsame j hji]
      exact h.free j (by simpa [t', hji] using hj)
  · rw [Function.update_apply]
    split
    · rename_i heq
      subst heq
      refine iff_of_false nofun ?_
      rintro ⟨hj, hhandle⟩
      rw [hsame j (hne j hj)] at hhandle
      have hj' := (hE _ j).mpr ⟨hmem j hj, hhandle⟩
      rw [hentry] at hj'
      exact hne j hj (Option.some.inj hj').symm
    · rename_i hneq
      rw [hE h' j, hslots.mem_erase_iff]
      constructor
      · rintro ⟨hj, hhandle⟩
        have hji : j ≠ i := fun heq => hneq (by rw [← hhandle, heq])
        exact ⟨⟨hji, hj⟩, by rwa [hsame j hji]⟩
      · rintro ⟨⟨hji, hj⟩, hhandle⟩
        exact ⟨hj, by rwa [hsame j hji] at hhandle⟩

/-- The entries, with `i` taken out of both lists and put in front. -/
lemma InUse.front_perm (h : InUse P t slots) (i : Fin (n + 1)) :
    (i :: slots.erase i ++ t.freeList.erase i).Perm (slots ++ t.freeList) := by
  obtain ⟨hslots, hfree, hdisj⟩ := List.nodup_append.mp h.nodup
  rcases h.complete i with hi | hi
  · rw [List.erase_of_not_mem fun hfree => hdisj i hi i hfree rfl]
    exact (List.perm_cons_erase hi).symm.append_right _
  · rw [List.erase_of_not_mem fun hin => hdisj i hin i hi rfl]
    exact List.perm_middle.symm.trans ((List.perm_cons_erase hi).symm.append_left _)

/-- Entry `i` is written and put in front. -/
lemma InUse.put (h : InUse P t slots) {i : Fin (n + 1)} {e : TlbEntry} {trie : TrieNode 64 (Fin (n + 1))}
    {E : TrieHandle 64 → Option (Fin (n + 1))} (seq : Nat) (hfits : P.Fits e)
    (hhandle : e.trieHandle = some (pageHandle e)) (hrep : TrieNode.Represents trie E)
    (hE : ∀ h j, E h = some j ↔ j = i ∧ pageHandle e = h ∨ j ≠ i ∧ j ∈ slots ∧ pageHandle (t.tlb j) = h) :
    InUse P { t.setEntry i e with freeList := t.freeList.erase i, trie := trie, lruSeq := seq }
      (i :: slots.erase i) := by
  obtain ⟨hslots, hfree, -⟩ := List.nodup_append.mp h.nodup
  have hperm := h.front_perm i
  have hold : ∀ j ∈ slots.erase i, j ≠ i ∧ j ∈ slots := fun j hj => hslots.mem_erase_iff.mp hj
  have hself : (t.setEntry i e).tlb i = e := if_pos rfl
  have hother : ∀ j, j ≠ i → (t.setEntry i e).tlb j = t.tlb j := fun j hj => if_neg hj
  refine
    { nodup := hperm.nodup_iff.mpr h.nodup
      complete := fun j => List.mem_append.mp (hperm.mem_iff.mpr (List.mem_append.mpr (h.complete j)))
      fits := List.forall_mem_cons.mpr ⟨by simpa [hself] using hfits, fun j hj => ?_⟩
      handle := List.forall_mem_cons.mpr ⟨by simpa [hself] using hhandle, fun j hj => ?_⟩
      free := fun j hj => ?_
      trie := ⟨E, hrep, fun h' j => ?_⟩ }
  · simpa [hother j (hold j hj).1] using h.fits j (hold j hj).2
  · simpa [hother j (hold j hj).1] using h.handle j (hold j hj).2
  · obtain ⟨hji, hj⟩ := hfree.mem_erase_iff.mp hj
    simpa [hother j hji] using h.free j hj
  · rw [hE h' j, List.mem_cons, hslots.mem_erase_iff]
    by_cases hji : j = i
    · subst hji
      simp [hself]
    · simp [hji, hother j hji]

/-- An entry is used. -/
lemma InUse.touch (h : InUse P t slots) {i : Fin (n + 1)} (hi : i ∈ slots) :
    InUse P { t.setEntry i { t.tlb i with lruSeq := t.nextSeq } with lruSeq := t.nextSeq } (i :: slots.erase i) := by
  obtain ⟨E, hrep, hE⟩ := h.trie
  have hfree : t.freeList.erase i = t.freeList :=
    List.erase_of_not_mem fun hfree => (List.nodup_append.mp h.nodup).2.2 i hi i hfree rfl
  have hput := h.put (i := i) (e := { t.tlb i with lruSeq := t.nextSeq }) t.nextSeq (h.fits i hi) (h.handle i hi)
    hrep ?_
  · rwa [hfree] at hput
  · intro h' j
    rw [hE]
    by_cases hji : j = i
    · subst hji
      simp [hi, pageHandle]
    · simp [hji]

/-- A free entry is used for a new page. -/
lemma InUse.fill (h : InUse P t slots) {i : Fin (n + 1)} {rest : List (Fin (n + 1))} (hfree : t.freeList = i :: rest)
    {vpn : BitVec 64} {entry : TlbEntry} (hfits : P.Fits { entry with vaddr := vpn })
    (hmiss : ∀ j ∈ slots, TlbEntry.covers (t.tlb j) vpn = false) :
    ∃ trie h, t.trie.insert vpn (64 - entry.logBytes) i = .ok (trie, h) ∧
      InUse P
        { t.setEntry i (entry.inserted vpn t.nextSeq h) with freeList := rest, trie := trie, lruSeq := t.nextSeq }
        (i :: slots) := by
  obtain ⟨E, hrep, hE⟩ := h.trie
  have hlog : entry.logBytes < 64 := hfits.1 ▸ P.lt _
  have hout : i ∉ slots := fun hin => (List.nodup_append.mp h.nodup).2.2 i hin i (by simp [hfree]) rfl
  have hmatch : TrieNode.Matches (TrieNode.handleOf vpn (64 - entry.logBytes)) vpn :=
    (covers_iff hfits).mp (beq_iff_eq.mpr hfits.2)
  have hnew : E (TrieNode.handleOf vpn (64 - entry.logBytes)) = none := by
    refine Option.eq_none_iff_forall_ne_some.mpr fun j hj => ?_
    obtain ⟨hin, hhandle⟩ := (hE _ j).mp hj
    rw [← hhandle, ← covers_iff (h.fits j hin), hmiss j hin] at hmatch
    cases hmatch
  obtain ⟨trie, hinsert, hrep'⟩ := hrep.insert (show 0 < 64 - entry.logBytes by omega) (by omega) hnew i
  refine ⟨trie, _, hinsert, ?_⟩
  rw [← List.erase_of_not_mem hout, show rest = t.freeList.erase i by rw [hfree, List.erase_cons_head]]
  refine h.put t.nextSeq hfits rfl hrep' fun h' j => ?_
  rw [TrieNode.update_some_iff hnew, hE h' j]
  refine or_congr ⟨fun hj => ⟨hj.2, hj.1.symm⟩, fun hj => ⟨hj.2.symm, hj.1⟩⟩ ?_
  exact ⟨fun hj => ⟨fun heq => hout (heq ▸ hj.1), hj⟩, fun hj => hj.2⟩

lemma lru_le (t : TLB n) (i : Fin (n + 1)) : (t.tlb t.lru).lruSeq ≤ (t.tlb i).lruSeq := by
  refine foldl_min (fun i => (t.tlb i).lruSeq) _ 0 i ?_
  have hi := List.mem_finRange i
  rwa [List.finRange_succ] at hi ⊢

/-- The entries that are left when there has to be room for one more. -/
def kept (t : TLB n) (slots : List (Fin (n + 1))) : List (Fin (n + 1)) :=
  if slots.length = n + 1 then slots.erase t.lru else slots

lemma kept_sublist (t : TLB n) (slots : List (Fin (n + 1))) : (kept t slots).Sublist slots := by
  unfold kept
  split
  · exact List.erase_sublist
  · exact List.Sublist.refl _

/-! ### The order of the entries -/

/-- The counter of a TLB that has not had too many calls does not wrap. -/
lemma nextSeq_eq (hseq : t.lruSeq + 1 < 2 ^ 64) : t.nextSeq = t.lruSeq + 1 := Nat.mod_eq_of_lt hseq

lemma Recent.sublist {t' : TLB n} {slots' : List (Fin (n + 1))} (h : Recent t slots) (hsub : slots'.Sublist slots)
    (hsame : ∀ j ∈ slots', t'.tlb j = t.tlb j) (hseq : t'.lruSeq = t.lruSeq) : Recent t' slots' where
  order := by
    refine (h.order.sublist hsub).imp_of_mem fun {a b} ha hb hlt => ?_
    rwa [hsame a ha, hsame b hb]
  seq := by
    intro j hj
    rw [hsame j hj, hseq]
    exact h.seq j (hsub.subset hj)

/-- An entry that gets the next sequence number comes first. -/
lemma Recent.front {t' : TLB n} {slots' : List (Fin (n + 1))} {i : Fin (n + 1)} (h : Recent t slots)
    (hsub : slots'.Sublist slots) (hsame : ∀ j ∈ slots', t'.tlb j = t.tlb j) (hnew : (t'.tlb i).lruSeq = t.lruSeq + 1)
    (hseq : t'.lruSeq = t.lruSeq + 1) : Recent t' (i :: slots') where
  order := by
    refine List.pairwise_cons.mpr ⟨fun j hj => ?_, (h.order.sublist hsub).imp_of_mem fun {a b} ha hb hlt => ?_⟩
    · have hle := h.seq j (hsub.subset hj)
      rw [hsame j hj, hnew]
      omega
    · rwa [hsame a ha, hsame b hb]
  seq := by
    refine List.forall_mem_cons.mpr ⟨(hnew.trans hseq.symm).le, fun j hj => ?_⟩
    have hle := h.seq j (hsub.subset hj)
    rw [hsame j hj]
    omega

/-- When no entry is free, the one to evict is the last of the list. -/
lemma Recent.lru (h : Recent t slots) (huse : InUse P t slots) (hin : t.lru ∈ slots) :
    slots.erase t.lru = slots.dropLast := by
  have hnodup : slots.Nodup := (List.nodup_append.mp huse.nodup).1
  obtain ⟨rest, j, rfl⟩ := (List.eq_nil_or_concat' slots).resolve_left (List.ne_nil_of_mem hin)
  have hout : j ∉ rest := fun hj => (List.nodup_append.mp hnodup).2.2 j hj j (List.mem_singleton_self j) rfl
  rcases List.mem_append.mp hin with hrest | hlast
  · -- the last entry is older than any other
    have hlt := (List.pairwise_append.mp h.order).2.2 _ hrest j (List.mem_singleton_self j)
    exact absurd (lru_le t j) (by omega)
  · rw [List.mem_singleton.mp hlast, List.erase_append_right _ hout, List.dropLast_concat]
    simp

/-! ### Calls -/

/-- The pages of the entries. -/
def pagesOf (t : TLB n) (slots : List (Fin (n + 1))) : List TlbEntry := slots.map fun i => TlbEntry.bare (t.tlb i)

lemma InUse.find (h : InUse P t slots) (va : BitVec 64) :
    (pagesOf t slots).find? (fun e => TlbEntry.covers e va) =
      (t.trie.lookup va).map fun i => TlbEntry.bare (t.tlb i) := by
  rw [pagesOf, List.find?_map]
  congr 1
  ext i
  rw [h.lookup va i]
  constructor
  · intro hfind
    have hcov := List.find?_some hfind
    exact ⟨List.mem_of_find?_eq_some hfind, hcov⟩
  · rintro ⟨hi, hcov⟩
    cases hfind : slots.find? ((fun e => TlbEntry.covers e va) ∘ fun i => TlbEntry.bare (t.tlb i)) with
    | none => exact absurd hcov (List.find?_eq_none.mp hfind i hi)
    | some j =>
      have hcov' := List.find?_some hfind
      have hj : t.trie.lookup va = some j := (h.lookup va j).mpr ⟨List.mem_of_find?_eq_some hfind, hcov'⟩
      exact hj.symm.trans ((h.lookup va i).mpr ⟨hi, hcov⟩)

/-- The pages without the one that has the address. -/
lemma InUse.filter (h : InUse P t slots) {va : BitVec 64} {i : Fin (n + 1)} (hi : t.trie.lookup va = some i) :
    (pagesOf t slots).filter (fun e => !TlbEntry.covers e va) = pagesOf t (slots.erase i) := by
  rw [pagesOf, List.filter_map, ((List.nodup_append.mp h.nodup).1).erase_eq_filter, pagesOf]
  congr 1
  refine List.filter_congr fun j hj => ?_
  have hcov : TlbEntry.covers (t.tlb j) va = true ↔ j = i := by
    have hlook := h.lookup va j
    rw [hi, and_iff_right hj] at hlook
    exact hlook.symm.trans (Option.some_inj.trans eq_comm)
  rw [Bool.eq_iff_iff, bne_iff_ne, Ne, ← hcov]
  simp [TlbEntry.covers, TlbEntry.bare]

lemma InUse.length (h : InUse P t slots) : slots.length + t.freeList.length = n + 1 := by
  have hperm : (slots ++ t.freeList).Perm (List.finRange (n + 1)) :=
    (List.perm_ext_iff_of_nodup h.nodup (List.nodup_finRange _)).mpr fun i =>
      iff_of_true (List.mem_append.mpr (h.complete i)) (List.mem_finRange i)
  rw [← List.length_append, hperm.length_eq, List.length_finRange]

/-- Entries that are not written keep their pages. -/
lemma pagesOf_congr {t' : TLB n} (hsame : ∀ i ∈ slots, TlbEntry.bare (t'.tlb i) = TlbEntry.bare (t.tlb i)) :
    pagesOf t' slots = pagesOf t slots := List.map_congr_left hsame

/-- The call names whole pages. -/
def GoodOp (P : Paging) : TLB.Op → Prop
  | .insert vpn entry => P.Fits { entry with vaddr := vpn }
  | _ => True

/-- The TLB holds the pages of the list. -/
def HoldsPages (P : Paging) (pages : List TlbEntry) (t : TLB n) : Prop :=
  ∃ slots, InUse P t slots ∧ Recent t slots ∧ pages = pagesOf t slots

lemma holdsPages_new (P : Paging) (n : Nat) : HoldsPages P [] (TLB.new n) :=
  ⟨[], inUse_new P n, ⟨.nil, nofun⟩, rfl⟩

lemma InUse.lru_mem (h : InUse P t slots) (hfull : slots.length = n + 1) : t.lru ∈ slots := by
  have hlen := h.length
  have hfree : t.freeList = [] := List.length_eq_zero_iff.mp (by omega)
  exact (h.complete t.lru).resolve_right (by simp [hfree])

lemma pagesOf_kept (h : InUse P t slots) (hrecent : Recent t slots) : pagesOf t (kept t slots) =
    if (pagesOf t slots).length = n + 1 then (pagesOf t slots).dropLast else pagesOf t slots := by
  rw [kept, pagesOf, pagesOf, List.length_map]
  split
  · rename_i hfull
    rw [hrecent.lru h (h.lru_mem hfull), List.map_dropLast]
  · rfl

/-- Room is made for a page. -/
lemma InUse.room (h : InUse P t slots) :
    ∃ t' i rest, t.makeRoom = .ok t' ∧ InUse P t' (kept t slots) ∧ t'.freeList = i :: rest ∧
      (∀ j ∈ kept t slots, t'.tlb j = t.tlb j) ∧ t'.lruSeq = t.lruSeq := by
  have hlen := h.length
  cases hfree : t.freeList with
  | nil =>
    have hfull : slots.length = n + 1 := by simpa [hfree] using hlen
    obtain ⟨t', hrun, huse, hsame, hfree', hseq⟩ := h.release (h.lru_mem hfull)
    have hroom : t.makeRoom = .ok t' := by simpa [TLB.makeRoom, TLB.evictLRU, hfree] using hrun
    rw [kept, if_pos hfull]
    refine ⟨t', t.lru, [], hroom, huse, by rw [hfree', hfree]; rfl, fun j hj => hsame j ?_, hseq⟩
    exact ((List.nodup_append.mp h.nodup).1.mem_erase_iff.mp hj).1
  | cons i rest =>
    rw [kept, if_neg]
    · exact ⟨t, i, rest, by simp [TLB.makeRoom, hfree], h, hfree, fun _ _ => rfl, rfl⟩
    · rw [hfree, List.length_cons] at hlen
      omega

/-- The page is there already, or its entry is put before those that are kept. -/
lemma InUse.insert (h : InUse P t slots) {vpn : BitVec 64} {entry : TlbEntry}
    (hfits : P.Fits { entry with vaddr := vpn }) :
    (∃ i ∈ slots, t.trie.lookup vpn = some i ∧ t.insert vpn entry = .ok (t.tlb i, t)) ∨
      t.trie.lookup vpn = none ∧ ∃ t' i hd, t.insert vpn entry = .ok (entry.inserted vpn t.nextSeq hd, t') ∧
        InUse P t' (i :: kept t slots) ∧ t'.tlb i = entry.inserted vpn t.nextSeq hd ∧
        (∀ j ∈ kept t slots, t'.tlb j = t.tlb j) ∧ t'.lruSeq = t.nextSeq := by
  cases hlook : t.trie.lookup vpn with
  | some i =>
    obtain ⟨hi, hcov⟩ := (h.lookup vpn i).mp hlook
    -- the pages of the entry and of the call have an address in common
    have hvaddr : (t.tlb i).vaddr = vpn := by
      have hpage := pageHandle_eq (h.fits i hi) hfits hcov (beq_iff_eq.mpr hfits.2)
      have hkey := congrArg TrieHandle.key hpage
      simp only [pageHandle, TrieNode.handleOf] at hkey
      rwa [(h.fits i hi).2, hfits.2] at hkey
    exact .inl ⟨i, hi, rfl, by simp [TLB.insert, hlook, hvaddr, ensure]⟩
  | none =>
    have hmiss : ∀ j ∈ slots, TlbEntry.covers (t.tlb j) vpn = false := by
      intro j hj
      by_contra hcov
      have hsome := (h.lookup vpn j).mpr ⟨hj, by simpa using hcov⟩
      rw [hlook] at hsome
      cases hsome
    obtain ⟨t', i, rest, hroom, huse, hfree, hsame, hseq⟩ := h.room
    have hmiss' : ∀ j ∈ kept t slots, TlbEntry.covers (t'.tlb j) vpn = false := by
      intro j hj
      rw [hsame j hj]
      exact hmiss j ((kept_sublist t slots).subset hj)
    have hnext : t'.nextSeq = t.nextSeq := by rw [TLB.nextSeq, hseq, TLB.nextSeq]
    obtain ⟨trie, hd, hinsert, hfill⟩ := huse.fill hfree hfits hmiss'
    rw [hnext] at hfill
    have hout : ∀ j ∈ kept t slots, j ≠ i := fun j hj heq =>
      (List.nodup_append.mp huse.nodup).2.2 j hj i (by simp [hfree]) heq
    refine .inr ⟨rfl, _, i, hd, ?_, hfill, if_pos rfl, fun j hj => ?_, rfl⟩
    · simp only [TLB.insert, hlook, hroom, ok_bind, hfree, hinsert, hnext]
    · exact (if_neg (hout j hj)).trans (hsame j hj)

lemma insert_holds {pages : List TlbEntry} (h : HoldsPages P pages t) {vpn : BitVec 64} {entry : TlbEntry}
    (hfits : P.Fits { entry with vaddr := vpn }) (hseq : t.lruSeq + 1 < 2 ^ 64) :
    ∃ o t', t.step (.insert vpn entry) = .ok (o, t') ∧
      o.map TlbEntry.bare = (lruStep (n + 1) pages (.insert vpn entry)).1 ∧
      HoldsPages P (lruStep (n + 1) pages (.insert vpn entry)).2 t' ∧ t'.lruSeq ≤ t.lruSeq + 1 := by
  obtain ⟨slots, huse, hrecent, rfl⟩ := h
  have hfind := huse.find vpn
  rcases huse.insert hfits with ⟨i, hi, hlook, hrun⟩ | ⟨hlook, t', i, hd, hrun, huse', hi, hsame, hseq'⟩
  · rw [hlook] at hfind
    refine ⟨some (t.tlb i), t, ?_, ?_, ⟨slots, huse, hrecent, ?_⟩, Nat.le_succ _⟩
    · simp only [TLB.step, hrun, ok_bind]
    · simp [lruStep, hfind]
    · simp [lruStep, hfind]
  · rw [hlook] at hfind
    rw [nextSeq_eq hseq] at hi hseq'
    have hrecent' : Recent t' (i :: kept t slots) :=
      hrecent.front (kept_sublist t slots) hsame (congrArg TlbEntry.lruSeq hi) hseq'
    refine ⟨some (entry.inserted vpn t.nextSeq hd), t', ?_, ?_, ⟨_, huse', hrecent', ?_⟩, hseq'.le⟩
    · simp only [TLB.step, hrun, ok_bind]
    · simp [lruStep, hfind, TlbEntry.bare, MimdramLean.TlbEntry.inserted]
    · have hpages : pagesOf t' (i :: kept t slots) =
          TlbEntry.bare { entry with vaddr := vpn } :: pagesOf t (kept t slots) := by
        rw [← pagesOf_congr (t := t) fun j hj => by rw [hsame j hj], pagesOf, List.map_cons, hi]
        rfl
      rw [hpages, pagesOf_kept huse hrecent]
      simp only [lruStep, hfind, Option.map_none]

lemma lookup_holds {pages : List TlbEntry} (h : HoldsPages P pages t) (va : BitVec 64) (updateLru : Bool)
    (hseq : t.lruSeq + 1 < 2 ^ 64) :
    (t.lookup va updateLru).1.map TlbEntry.bare = (lruStep (n + 1) pages (.lookup va updateLru)).1 ∧
      HoldsPages P (lruStep (n + 1) pages (.lookup va updateLru)).2 (t.lookup va updateLru).2 ∧
      (t.lookup va updateLru).2.lruSeq ≤ t.lruSeq + 1 := by
  obtain ⟨slots, huse, hrecent, rfl⟩ := h
  have hfind := huse.find va
  cases hlook : t.trie.lookup va with
  | none =>
    rw [hlook] at hfind
    simp only [TLB.lookup, lruStep, hfind, hlook]
    exact ⟨rfl, ⟨slots, huse, hrecent, rfl⟩, Nat.le_succ _⟩
  | some i =>
    obtain ⟨hi, -⟩ := (huse.lookup va i).mp hlook
    have hrest := huse.filter hlook
    rw [hlook] at hfind
    cases updateLru with
    | false =>
      simp only [TLB.lookup, lruStep, hfind, hlook]
      exact ⟨rfl, ⟨slots, huse, hrecent, rfl⟩, Nat.le_succ _⟩
    | true =>
      have hother : ∀ j ∈ slots.erase i, j ≠ i := fun j hj =>
        ((List.nodup_append.mp huse.nodup).1.mem_erase_iff.mp hj).1
      have htouch := huse.touch hi
      simp only [TLB.lookup, lruStep, hfind, hlook, Option.map_some, if_true, hrest]
      rw [nextSeq_eq hseq] at htouch ⊢
      refine ⟨rfl, ⟨_, htouch, ?_, ?_⟩, le_rfl⟩
      · refine hrecent.front List.erase_sublist (fun j hj => if_neg (hother j hj)) ?_ rfl
        simp [TLB.setEntry]
      · simp only [pagesOf, List.map_cons]
        congr 1
        · simp [TLB.setEntry, TlbEntry.bare]
        · exact List.map_congr_left fun j hj => by simp [TLB.setEntry, hother j hj]

lemma demapPage_holds {pages : List TlbEntry} (h : HoldsPages P pages t) (va : BitVec 64) :
    ∃ t', t.demapPage va = .ok t' ∧ HoldsPages P (pages.filter fun e => !TlbEntry.covers e va) t' ∧
      t'.lruSeq = t.lruSeq := by
  obtain ⟨slots, huse, hrecent, rfl⟩ := h
  cases hlook : t.trie.lookup va with
  | none =>
    have hmiss : (pagesOf t slots).find? (fun e => TlbEntry.covers e va) = none := by rw [huse.find va, hlook]; rfl
    refine ⟨t, by simp [TLB.demapPage, hlook], ⟨slots, huse, hrecent, ?_⟩, rfl⟩
    rw [List.filter_eq_self]
    intro e he
    simpa using List.find?_eq_none.mp hmiss e he
  | some i =>
    obtain ⟨hi, -⟩ := (huse.lookup va i).mp hlook
    obtain ⟨t', hrun, huse', hsame, -, hseq⟩ := huse.release hi
    have hrest : ∀ j ∈ slots.erase i, t'.tlb j = t.tlb j := fun j hj =>
      hsame j ((List.nodup_append.mp huse.nodup).1.mem_erase_iff.mp hj).1
    refine ⟨t', by simpa [TLB.demapPage, hlook] using hrun,
      ⟨_, huse', hrecent.sublist List.erase_sublist hrest hseq, ?_⟩, hseq⟩
    rw [huse.filter hlook]
    exact (pagesOf_congr fun j hj => by rw [hrest j hj]).symm

/-- The loop of a flush, over the entries that it still has to come to. -/
lemma flush_loop (p : TlbEntry → Bool) (todo : List (Fin (n + 1))) (h : InUse P t slots) :
    ∃ t', todo.foldlM (fun t i => if (t.tlb i).trieHandle.isSome && p (t.tlb i) then t.release i else .ok t) t = .ok t' ∧
      InUse P t' (slots.filter fun i => !(decide (i ∈ todo) && p (t.tlb i))) ∧
      (∀ i ∈ slots.filter fun i => !(decide (i ∈ todo) && p (t.tlb i)), t'.tlb i = t.tlb i) ∧
      t'.lruSeq = t.lruSeq := by
  induction todo generalizing t slots with
  | nil => exact ⟨t, rfl, by simpa using h, fun _ _ => rfl, rfl⟩
  | cons i todo ih =>
    rw [List.foldlM_cons]
    by_cases hi : i ∈ slots ∧ p (t.tlb i) = true
    · obtain ⟨mid, hrun, huse, hsame, -, hseq⟩ := h.release hi.1
      obtain ⟨t', hrest, huse', hkept, hseq'⟩ := ih huse
      rw [if_pos (by simp [h.handle i hi.1, hi.2]), hrun, ok_bind]
      have hnodup : slots.Nodup := (List.nodup_append.mp h.nodup).1
      have hlist : (slots.erase i).filter (fun j => !(decide (j ∈ todo) && p (mid.tlb j))) =
          slots.filter fun j => !(decide (j ∈ i :: todo) && p (t.tlb j)) := by
        rw [hnodup.erase_eq_filter, List.filter_filter]
        refine List.filter_congr fun j hj => ?_
        by_cases hji : j = i
        · subst hji
          simp [hi.2]
        · simp [hji, hsame j hji]
      rw [hlist] at huse' hkept
      refine ⟨t', hrest, huse', fun j hj => (hkept j hj).trans (hsame j fun heq => ?_), hseq'.trans hseq⟩
      subst heq
      simp [hi.2] at hj
    · have hskip : ((t.tlb i).trieHandle.isSome && p (t.tlb i)) = false := by
        rcases h.complete i with hin | hfree
        · simp [Bool.eq_false_iff.mpr fun hp => hi ⟨hin, hp⟩]
        · simp [h.free i hfree]
      obtain ⟨t', hrest, huse', hkept, hseq⟩ := ih h
      have hlist : slots.filter (fun j => !(decide (j ∈ todo) && p (t.tlb j))) =
          slots.filter fun j => !(decide (j ∈ i :: todo) && p (t.tlb j)) := by
        refine List.filter_congr fun j hj => ?_
        by_cases hji : j = i
        · subst hji
          simp [Bool.eq_false_iff.mpr fun hp => hi ⟨hj, hp⟩]
        · simp [hji]
      rw [hlist] at huse' hkept
      rw [if_neg (by simp [hskip]), ok_bind]
      exact ⟨t', hrest, huse', hkept, hseq⟩

/-- A flush keeps the pages that fail its test. -/
lemma flushWhere_holds {pages : List TlbEntry} (h : HoldsPages P pages t) (p : TlbEntry → Bool)
    (hbare : ∀ e, p (TlbEntry.bare e) = p e) :
    ∃ t', t.flushWhere p = .ok t' ∧ HoldsPages P (pages.filter fun e => !p e) t' ∧ t'.lruSeq = t.lruSeq := by
  obtain ⟨slots, huse, hrecent, rfl⟩ := h
  obtain ⟨t', hrun, huse', hkept, hseq⟩ := flush_loop p (List.finRange (n + 1)) huse
  simp only [List.mem_finRange, decide_true, Bool.true_and] at huse' hkept
  refine ⟨t', hrun, ⟨_, huse', hrecent.sublist List.filter_sublist hkept hseq, ?_⟩, hseq⟩
  have hpages : pagesOf t' (slots.filter fun i => !p (t.tlb i)) = pagesOf t (slots.filter fun i => !p (t.tlb i)) :=
    pagesOf_congr fun i hi => by rw [hkept i hi]
  rw [hpages, pagesOf, List.filter_map, pagesOf]
  congr 1
  exact List.filter_congr fun i _ => by simp only [Function.comp_apply, hbare]

lemma step_holds {pages : List TlbEntry} (h : HoldsPages P pages t) {op : TLB.Op} (hop : GoodOp P op)
    (hseq : t.lruSeq + 1 < 2 ^ 64) :
    ∃ o t', t.step op = .ok (o, t') ∧ o.map TlbEntry.bare = (lruStep (n + 1) pages op).1 ∧
      HoldsPages P (lruStep (n + 1) pages op).2 t' ∧ t'.lruSeq ≤ t.lruSeq + 1 := by
  cases op with
  | insert vpn entry => exact insert_holds h hop hseq
  | lookup va updateLru =>
    obtain ⟨ho, h', hseq'⟩ := lookup_holds h va updateLru hseq
    exact ⟨_, _, rfl, ho, h', hseq'⟩
  | flushAll =>
    obtain ⟨t', hrun, h', hseq'⟩ := flushWhere_holds h (fun _ => true) fun _ => rfl
    exact ⟨none, t', by rw [TLB.step, TLB.flushAll, hrun]; rfl, rfl, by simpa [lruStep] using h',
      hseq' ▸ Nat.le_succ _⟩
  | flushNonGlobal =>
    obtain ⟨t', hrun, h', hseq'⟩ := flushWhere_holds h (fun e => !e.global) fun _ => rfl
    exact ⟨none, t', by rw [TLB.step, TLB.flushNonGlobal, hrun]; rfl, rfl, by simpa [lruStep] using h',
      hseq' ▸ Nat.le_succ _⟩
  | demapPage va =>
    obtain ⟨t', hrun, h', hseq'⟩ := demapPage_holds h va
    exact ⟨none, t', by rw [TLB.step, hrun]; rfl, rfl, h', hseq' ▸ Nat.le_succ _⟩

end

/-- Whatever calls a TLB gets, as long as the pages that are inserted do not overlap and there are fewer calls than
sequence numbers, no call fails and every call returns what a least-recently-used list of as many pages as the TLB
has entries returns. -/
theorem tlb_is_lru (P : Paging) (n : Nat) (ops : List TLB.Op) (hops : ∀ op ∈ ops, GoodOp P op)
    (hcalls : ops.length < 2 ^ 64) :
    ∃ os t, runAnswers TLB.step (TLB.new n) ops = .ok (os, t) ∧
      os.map (Option.map TlbEntry.bare) = (outputs (lruStep (n + 1)) [] ops).1 ∧
      HoldsPages P (outputs (lruStep (n + 1)) [] ops).2 t := by
  have hroom : (TLB.new n).lruSeq + ops.length < 2 ^ 64 := by
    change 0 + ops.length < 2 ^ 64
    omega
  -- every call takes at most one sequence number
  obtain ⟨os, t, hrun, hos, hpages, -⟩ := runAnswers_simulate TLB.step (lruStep (n + 1)) (Option.map TlbEntry.bare)
    (fun k pages t => HoldsPages P pages t ∧ t.lruSeq + k < 2 ^ 64) (fun k pages t op h hop => by
      obtain ⟨o, t', hstep, ho, h', hseq⟩ := step_holds h.1 hop (by omega)
      exact ⟨o, t', hstep, ho, h', by omega⟩) ⟨holdsPages_new P n, hroom⟩ hops
  exact ⟨os, t, hrun, hos, hpages⟩

lemma pageShift_lt : TlbEntry.pageShift < 64 := by decide

/-- Pages of 4 KB only. -/
def smallPages : Paging := ⟨fun _ => TlbEntry.pageShift, fun _ => pageShift_lt, fun _ _ _ => rfl⟩

/-- One entry: the second page takes the place of the first. -/
theorem tlb_is_lru_evicts :
    ∃ os t, runAnswers TLB.step (TLB.new 0)
        [.insert 0x1000 (.ofPage 0x1000 0x5000 false false), .insert 0x2000 (.ofPage 0x2000 0x6000 false false),
          .lookup 0x1234 true, .lookup 0x2345 true] = .ok (os, t) ∧
      os.map (Option.map TlbEntry.bare) =
        [some (.ofPage 0x1000 0x5000 false false), some (.ofPage 0x2000 0x6000 false false), none,
          some (.ofPage 0x2000 0x6000 false false)] := by
  obtain ⟨os, t, hrun, hos, -⟩ := tlb_is_lru smallPages 0
    [.insert 0x1000 (.ofPage 0x1000 0x5000 false false), .insert 0x2000 (.ofPage 0x2000 0x6000 false false),
      .lookup 0x1234 true, .lookup 0x2345 true] (by simp [GoodOp, Paging.Fits, smallPages, TlbEntry.ofPage]; decide)
    (by decide)
  exact ⟨os, t, hrun, hos.trans (by decide)⟩

end MimdramLean.Proofs

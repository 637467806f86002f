import MimdramLean.ProcessMemory
import MimdramLean.Proofs.FuncPageTable
import MimdramLean.Proofs.TLB

/-!
# Virtual memory in syscall emulation

As long as no region is remapped, the page tables only grow. Each new page gets a physical page that no
process has, so the translations of a whole run are those of one table, and this table does not map two
pages to one.
-/

namespace MimdramLean.Proofs
open Library

/-! ### Addresses and physical pages -/

lemma pageOffset_toNat (a : Addr) : (pageOffset a).toNat = a.toNat % pageBytes := by
  rw [pageOffset, BitVec.toNat_and, show offsetMask.toNat = 2 ^ 12 - 1 from rfl, Nat.and_two_pow_sub_one_eq_mod]
  rfl

lemma pageOffset_eq_zero {a : Addr} : pageOffset a = 0 ↔ a.toNat % pageBytes = 0 := by
  rw [← BitVec.toNat_inj, pageOffset_toNat]
  rfl

lemma pageAlign_add_pageOffset (a : Addr) : pageAlign a + pageOffset a = a := by
  have hdisj : pageAlign a &&& pageOffset a = 0 := by
    refine BitVec.eq_of_getLsbD_eq fun i hi => ?_
    simp only [pageAlign, pageOffset, BitVec.getLsbD_and, BitVec.getLsbD_not, hi, decide_true, Bool.true_and]
    cases offsetMask.getLsbD i <;> simp
  rw [BitVec.add_eq_or_of_and_eq_zero _ _ hdisj]
  refine BitVec.eq_of_getLsbD_eq fun i hi => ?_
  simp only [pageAlign, pageOffset, BitVec.getLsbD_or, BitVec.getLsbD_and, BitVec.getLsbD_not, hi, decide_true,
    Bool.true_and]
  cases a.getLsbD i <;> cases offsetMask.getLsbD i <;> rfl

lemma pageAlign_toNat (a : Addr) : (pageAlign a).toNat = a.toNat / pageBytes * pageBytes := by
  have hsum := congrArg BitVec.toNat (pageAlign_add_pageOffset a)
  have hle : (pageAlign a).toNat ≤ a.toNat := by
    rw [pageAlign, BitVec.toNat_and]
    exact Nat.and_le_left
  have := a.isLt
  rw [BitVec.toNat_add, pageOffset_toNat] at hsum
  simp only [pageBytes] at hsum ⊢
  omega

/-- The memory ends before the addresses of the pseudo instructions. -/
structure MemOk (m : PhysMem) : Prop where
  small : m.totalSize.toNat < 0xFFFF0000
  ptr : m.pagePtr.toNat * pageBytes ≤ m.totalSize.toNat

lemma shift_toNat {a : Addr} (h : a.toNat < 2 ^ 52) : (a <<< TlbEntry.pageShift).toNat = a.toNat * pageBytes := by
  rw [BitVec.toNat_shiftLeft, Nat.shiftLeft_eq]
  simp only [TlbEntry.pageShift, pageBytes]
  omega

lemma allocPhysPages_spec {m m' : PhysMem} {npages : BitVec 32} {paddr : Addr} (hm : MemOk m)
    (hn : npages.toNat < 2 ^ 31) (hrun : m.allocPhysPages npages = .ok (paddr, m')) :
    paddr.toNat = m.pagePtr.toNat * pageBytes ∧ m'.pagePtr.toNat = m.pagePtr.toNat + npages.toNat ∧
      m'.totalSize = m.totalSize ∧ MemOk m' := by
  have hptr := hm.ptr
  have hsmall := hm.small
  have hsum : (m.pagePtr + npages.signExtend 64).toNat = m.pagePtr.toNat + npages.toNat := by
    have hmsb : npages.msb = false := by
      rw [BitVec.msb_eq_false_iff_two_mul_lt]
      omega
    rw [BitVec.signExtend_eq_setWidth_of_msb_false hmsb, BitVec.toNat_add, BitVec.toNat_setWidth]
    simp only [pageBytes] at hptr
    omega
  have hbound : m.pagePtr.toNat + npages.toNat < 2 ^ 52 := by
    simp only [pageBytes] at hptr
    omega
  rw [PhysMem.allocPhysPages] at hrun
  split at hrun
  rename_i returnAddr pagePtr hpair
  obtain ⟨_, hfits, hrun⟩ := bind_eq_ok.mp hrun
  rw [ensure_eq_ok, BitVec.le_def] at hfits
  obtain ⟨rfl, rfl⟩ := Prod.mk.inj (Except.ok.inj hrun)
  split at hpair
  · -- the last page would be at the pseudo instructions, which is after the end of the memory
    obtain ⟨-, rfl⟩ := Prod.mk.inj hpair
    have hlast : ((0xFFFFFFFF : Addr) >>> TlbEntry.pageShift <<< TlbEntry.pageShift).toNat = 0xFFFFF000 := by decide
    rw [hlast] at hfits
    omega
  · obtain ⟨rfl, rfl⟩ := Prod.mk.inj hpair
    rw [shift_toNat (by omega), hsum] at hfits
    refine ⟨shift_toNat (by omega), hsum, rfl, hsmall, ?_⟩
    rw [hsum]
    exact hfits

lemma pageCount_eq {size : BitVec 64} (h : size.toNat ≤ 2 ^ 42) :
    pageCount size = (size.toNat + (pageBytes - 1)) / pageBytes := by
  have hint : size.toInt = size.toNat := BitVec.toInt_eq_toNat_of_lt (by omega)
  simp only [pageCount, hint, pageBytes]
  omega

lemma npages_toNat {size : BitVec 64} (h : size.toNat ≤ 2 ^ 42) : (Process.npages size).toNat = pageCount size := by
  have hsum : (size + pageSize - 1).toNat = size.toNat + (pageBytes - 1) := by
    rw [BitVec.toNat_sub, BitVec.toNat_add, show pageSize.toNat = 4096 from rfl, show (1 : Addr).toNat = 1 from rfl]
    simp only [pageBytes]
    omega
  have hmsb : (size + pageSize - 1).msb = false := by
    rw [BitVec.msb_eq_false_iff_two_mul_lt, hsum]
    simp only [pageBytes]
    omega
  have hdiv : (size + pageSize - 1).sdiv pageSize = (size + pageSize - 1) / pageSize := by
    rw [BitVec.sdiv_eq, hmsb, show pageSize.msb = false by decide]
    rfl
  rw [Process.npages, hdiv, BitVec.toNat_setWidth, BitVec.toNat_udiv, hsum, pageCount_eq h,
    show pageSize.toNat = pageBytes from rfl]
  simp only [pageBytes]
  omega

/-! ### A process gets pages -/

/-- The physical memory and the cache of the page table are as they should be. -/
def SoundMem (s : ProcMem) : Prop := MemOk s.2 ∧ Coherent s.1.pTable.cache s.1.pTable.pTable

/-- An entry for a page of a process, in the physical pages from `lo` up to `hi`. -/
structure NewEntry (lo hi : Nat) (v : Addr) (e : TlbEntry) : Prop where
  page : pageOffset v = 0
  frame : pageOffset e.paddr = 0
  entry : e = TlbEntry.ofPage v e.paddr false false
  low : lo * pageBytes ≤ e.paddr.toNat
  high : e.paddr.toNat < hi * pageBytes

/-- The page table of the process grows: what is new has got physical pages of its own. -/
structure Grown (s s' : ProcMem) : Prop where
  sound : SoundMem s'
  size : s'.2.totalSize = s.2.totalSize
  ptr : s.2.pagePtr.toNat ≤ s'.2.pagePtr.toNat
  keep : ∀ v e, s.1.pTable.pTable v = some e → s'.1.pTable.pTable v = some e
  new : ∀ v e, s'.1.pTable.pTable v = some e →
    s.1.pTable.pTable v = some e ∨ NewEntry s.2.pagePtr.toNat s'.2.pagePtr.toNat v e
  once : ∀ v w e e', s'.1.pTable.pTable v = some e → s'.1.pTable.pTable w = some e' →
    s.1.pTable.pTable v = none → s.1.pTable.pTable w = none → e.paddr = e'.paddr → v = w

section Process

variable {s s' s'' : ProcMem}

lemma Grown.refl (h : SoundMem s) : Grown s s where
  sound := h
  size := rfl
  ptr := le_rfl
  keep := fun _ _ he => he
  new := fun _ _ he => .inl he
  once := fun v _ e _ he _ hv => by rw [he] at hv; cases hv

/-- Only the page table counts. -/
lemma Grown.of_pTable {p p' : Process} {m : PhysMem} (h : Grown (p', m) s') (heq : p'.pTable = p.pTable) :
    Grown (p, m) s' where
  sound := h.sound
  size := h.size
  ptr := h.ptr
  keep := fun v e he => h.keep v e (by rwa [heq])
  new := fun v e he => by simpa only [heq] using h.new v e he
  once := fun v w e e' he he' hv hw => h.once v w e e' he he' (by rwa [heq]) (by rwa [heq])

/-- A page that is new has got a new physical page. -/
lemma Grown.new_of_none (h : Grown s s') {v : Addr} {e : TlbEntry} (he : s'.1.pTable.pTable v = some e)
    (hv : s.1.pTable.pTable v = none) : NewEntry s.2.pagePtr.toNat s'.2.pagePtr.toNat v e :=
  (h.new v e he).resolve_left fun hold => by rw [hv] at hold; cases hold

lemma NewEntry.mono {lo lo' hi hi' : Nat} {v : Addr} {e : TlbEntry} (h : NewEntry lo hi v e) (hlo : lo' ≤ lo)
    (hhi : hi ≤ hi') : NewEntry lo' hi' v e where
  page := h.page
  frame := h.frame
  entry := h.entry
  low := (Nat.mul_le_mul_right _ hlo).trans h.low
  high := h.high.trans_le (Nat.mul_le_mul_right _ hhi)

lemma Grown.trans (h : Grown s s') (h' : Grown s' s'') : Grown s s'' where
  sound := h'.sound
  size := h'.size.trans h.size
  ptr := h.ptr.trans h'.ptr
  keep := fun v e he => h'.keep v e (h.keep v e he)
  new := by
    intro v e he
    rcases h'.new v e he with hold | hnew
    · exact (h.new v e hold).imp_right fun hnew => hnew.mono le_rfl h'.ptr
    · exact .inr (hnew.mono h.ptr le_rfl)
  once := by
    intro v w e e' he he' hv hw hpaddr
    have hapart : ∀ {a b : Addr} {x y x' : TlbEntry}, s'.1.pTable.pTable a = some x → s''.1.pTable.pTable a = some x' →
        s.1.pTable.pTable a = none → s'.1.pTable.pTable b = none → s''.1.pTable.pTable b = some y →
        x'.paddr ≠ y.paddr := by
      intro a b x y x' hx hx' ha hb hy heq
      have hlow := (h.new_of_none hx ha).high
      have hhigh := (h'.new_of_none hy hb).low
      rw [h'.keep a x hx] at hx'
      rw [← heq, ← Option.some.inj hx'] at hhigh
      omega
    cases hv' : s'.1.pTable.pTable v with
    | none =>
      cases hw' : s'.1.pTable.pTable w with
      | none => exact h'.once v w e e' he he' hv' hw' hpaddr
      | some y => exact absurd hpaddr.symm (hapart hw' he' hw hv' he)
    | some x =>
      cases hw' : s'.1.pTable.pTable w with
      | none => exact absurd hpaddr (hapart hv' he hv hw' he')
      | some y =>
        have hx := (h'.keep v x hv').symm.trans he
        have hy := (h'.keep w y hw').symm.trans he'
        refine h.once v w x y hv' hw' hv hw ?_
        rw [Option.some.inj hx, Option.some.inj hy, hpaddr]

lemma liftTable_eq_ok {α : Type} {x : Except PageTableFailure α} {a : α} : liftTable x = .ok a ↔ x = .ok a := by
  cases x <;> simp [liftTable]

/-- The pages of a range get physical pages in a row. -/
def MappedAt (T : PTable) (v : Addr) (k : Nat) (base : Addr) : Prop :=
  ∀ a, InPages v k a → T a = some (TlbEntry.ofPage a (base + (a - v)) false false)

/-- The entries of pages that are mapped to physical pages from `lo` on. -/
lemma newEntry_mapped {v a base : Addr} {k lo : Nat} (hv : pageOffset v = 0) (hbase : base.toNat = lo * pageBytes)
    (hhi : (lo + k) * pageBytes < 2 ^ 64) (ha : InPages v k a) :
    NewEntry lo (lo + k) a (TlbEntry.ofPage a (base + (a - v)) false false) := by
  have hpaddr : (base + (a - v)).toNat = lo * pageBytes + (a - v).toNat := by
    rw [BitVec.toNat_add, hbase]
    have := ha.2
    simp only [pageBytes] at this hhi ⊢
    omega
  obtain ⟨hmod, hdiv⟩ := ha
  refine ⟨?_, ?_, rfl, ?_, ?_⟩
  · rw [pageOffset_eq_zero] at hv ⊢
    have := a.isLt
    have := v.isLt
    rw [BitVec.toNat_sub] at hmod
    simp only [pageBytes] at hv hmod ⊢
    omega
  · rw [pageOffset_eq_zero, TlbEntry.ofPage, hpaddr]
    simp only [pageBytes] at hmod ⊢
    omega
  · rw [TlbEntry.ofPage, hpaddr]
    exact Nat.le_add_right ..
  · rw [TlbEntry.ofPage, hpaddr]
    simp only [pageBytes] at hdiv ⊢
    omega

lemma allocateMem_grown (h : SoundMem s) {v : Addr} {size : BitVec 64} (hsize : size.toNat ≤ 2 ^ 42)
    (hrun : Process.allocateMem s v size false = .ok s') :
    Grown s s' ∧ ∃ base, MappedAt s'.1.pTable.pTable v (pageCount size) base := by
  obtain ⟨⟨base, mem⟩, halloc, hrun⟩ := bind_eq_ok.mp hrun
  obtain ⟨t, hmap, hrun⟩ := bind_eq_ok.mp hrun
  obtain rfl := Except.ok.inj hrun
  have hcount : pageCount size ≤ 2 ^ 30 := by
    rw [pageCount_eq hsize]
    simp only [pageBytes]
    omega
  obtain ⟨hbase, hptr, htotal, hmem⟩ := allocPhysPages_spec h.1 (by rw [npages_toNat hsize]; omega) halloc
  rw [npages_toNat hsize] at hptr
  rw [liftTable_eq_ok, FuncPageTable.map] at hmap
  obtain ⟨_, hv, hmap⟩ := bind_eq_ok.mp hmap
  rw [ensure_eq_ok] at hv
  have hfree := (mapPages_free hmap (by omega)).resolve_left Bool.false_ne_true
  obtain ⟨t', hmap', hkeeps⟩ := Keeps.mapPages (p := base) ⟨rfl, h.2⟩ (by omega) (.inr hfree)
  obtain rfl := Except.ok.inj (hmap.symm.trans hmap')
  obtain ⟨htable, hcache⟩ := hkeeps
  have hhi : (s.2.pagePtr.toNat + pageCount size) * pageBytes < 2 ^ 64 := by
    have hle := hmem.ptr
    have hlt := hmem.small
    rw [hptr] at hle
    omega
  have hentry : ∀ a e, t.pTable a = some e → s.1.pTable.pTable a = some e ∨
      InPages v (pageCount size) a ∧ e = TlbEntry.ofPage a (base + (a - v)) false false := by
    intro a e he
    rw [htable, mapped] at he
    split at he
    · rename_i ha
      exact .inr ⟨ha, (Option.some.inj he).symm⟩
    · exact .inl he
  refine ⟨?_, base, fun a ha => by rw [htable, mapped, if_pos ha]⟩
  refine
    { sound := ⟨hmem, htable ▸ hcache⟩
      size := htotal
      ptr := by simp only [hptr]; omega
      keep := fun a e he => ?_
      new := fun a e he => ?_
      once := fun a b e e' he he' hnone hnone' hpaddr => ?_ }
  · have hout : ¬InPages v (pageCount size) a := fun ha => by rw [hfree a ha] at he; cases he
    simp only [htable, mapped, if_neg hout, he]
  · refine (hentry a e he).imp_right ?_
    rintro ⟨ha, rfl⟩
    simp only [hptr]
    exact newEntry_mapped hv hbase hhi ha
  · have hnew := (hentry a e he).resolve_left fun hold => by rw [hnone] at hold; cases hold
    have hnew' := (hentry b e' he').resolve_left fun hold => by rw [hnone'] at hold; cases hold
    rw [hnew.2, hnew'.2] at hpaddr
    exact sub_left_injective (add_right_injective base hpaddr)

lemma lookup_grown (h : SoundMem s) (v : Addr) :
    (Process.lookup s v).1 = s.1.pTable.pTable (pageAlign v) ∧ Grown s (Process.lookup s v).2 := by
  have hkeeps : Keeps s.1.pTable s.1.pTable.pTable := ⟨rfl, h.2⟩
  obtain ⟨hentry, htable, hcache⟩ := hkeeps.lookup v
  have hsame : (Process.lookup s v).2.1.pTable.pTable = s.1.pTable.pTable := htable
  refine ⟨hentry, ⟨h.1, hsame ▸ hcache⟩, rfl, le_rfl, fun v e he => by rwa [hsame], fun v e he => ?_, ?_⟩
  · exact .inl (by rwa [hsame] at he)
  · intro v w e e' he he' hv
    rw [hsame, hv] at he
    cases he

/-- A lookup that only changes the cache. -/
lemma lookup_eq {v : Addr} {o : Option TlbEntry} (h : SoundMem s) (heq : Process.lookup s v = (o, s')) :
    o = s.1.pTable.pTable (pageAlign v) ∧ Grown s s' := by
  have hlook := lookup_grown h v
  rwa [heq] at hlook

lemma pageSize_le : pageSize.toNat ≤ 2 ^ 42 := by decide

lemma growStack_grown {v : Addr} {fuel : Nat} (h : SoundMem s) (hrun : Process.growStack v fuel s = .ok s') :
    Grown s s' := by
  induction fuel generalizing s with
  | zero =>
    rw [Process.growStack] at hrun
    split at hrun
    · cases hrun
    · obtain rfl := Except.ok.inj hrun
      exact .refl h
  | succ fuel ih =>
    rw [Process.growStack] at hrun
    split at hrun
    · obtain ⟨_, -, hrun⟩ := bind_eq_ok.mp hrun
      obtain ⟨mid, halloc, hrun⟩ := bind_eq_ok.mp hrun
      obtain ⟨hgrown, -⟩ := allocateMem_grown (s := ({ s.1 with stackMin := s.1.stackMin - pageSize }, s.2)) h
        pageSize_le halloc
      exact (hgrown.of_pTable (p := s.1) rfl).trans (ih hgrown.sound hrun)
    · obtain rfl := Except.ok.inj hrun
      exact .refl h

/-- Only the page table of the process changes, and the region starts at a page. -/
lemma allocateMem_frame {v : Addr} {size : BitVec 64} {clobber : Bool}
    (hrun : Process.allocateMem s v size clobber = .ok s') :
    pageOffset v = 0 ∧ ∃ t, s'.1 = { s.1 with pTable := t } := by
  obtain ⟨⟨base, mem⟩, -, hrun⟩ := bind_eq_ok.mp hrun
  obtain ⟨t, hmap, hrun⟩ := bind_eq_ok.mp hrun
  obtain rfl := Except.ok.inj hrun
  rw [liftTable_eq_ok, FuncPageTable.map] at hmap
  obtain ⟨_, hv, -⟩ := bind_eq_ok.mp hmap
  exact ⟨ensure_eq_ok.mp hv, t, rfl⟩

lemma allocateMem_raises (s : ProcMem) (v : Addr) (size : BitVec 64) (clobber : Bool) :
    Raises (Process.allocateMem s v size clobber) (· ≠ .stackLoop) := by
  refine Raises.bind ?_ fun a _ => Raises.bind ?_ fun t _ => raises_ok
  · rw [PhysMem.allocPhysPages]
    split
    exact Raises.bind (raises_ensure fun _ => nofun) fun _ _ => raises_ok
  · cases s.1.pTable.map v a.1 size ⟨clobber, false, false⟩ with
    | ok t => exact raises_ok
    | error e => exact fun e' he' => by cases he'; nofun

/-- The stack reaches the address in time. -/
lemma growStack_ends {v : Addr} {fuel : Nat} (h : s.1.stackMin.toNat - v.toNat ≤ fuel * pageBytes) :
    Raises (Process.growStack v fuel s) (· ≠ .stackLoop) := by
  induction fuel generalizing s with
  | zero =>
    rw [Process.growStack, if_neg (by rw [BitVec.lt_def]; omega)]
    exact raises_ok
  | succ fuel ih =>
    rw [Process.growStack]
    split
    · rename_i hlt
      refine Raises.bind (raises_ensure fun _ => nofun) fun _ _ =>
        Raises.bind (allocateMem_raises _ _ _ _) fun mid halloc => ih ?_
      obtain ⟨hpage, t, hframe⟩ := allocateMem_frame halloc
      rw [hframe]
      rw [pageOffset_eq_zero, BitVec.toNat_sub] at hpage
      rw [BitVec.lt_def] at hlt
      change (s.1.stackMin - pageSize).toNat - v.toNat ≤ fuel * pageBytes
      rw [BitVec.toNat_sub]
      have hsize : pageSize.toNat = 4096 := rfl
      have := s.1.stackMin.isLt
      simp only [hsize, pageBytes] at h hpage ⊢
      omega
    · exact raises_ok

lemma fixupStackFault_ends (s : ProcMem) (v : Addr) : Raises (Process.fixupStackFault s v) (· ≠ .stackLoop) := by
  rw [Process.fixupStackFault]
  split
  · exact Raises.bind (allocateMem_raises _ _ _ _) fun _ _ => raises_ok
  · split
    · rename_i hgrow
      refine Raises.bind (growStack_ends ?_) fun _ _ => raises_ok
      have hlt := hgrow.1
      rw [BitVec.lt_def] at hlt
      have hdiff : (s.1.stackMin - v).toNat = s.1.stackMin.toNat - v.toNat := by
        rw [BitVec.toNat_sub]
        have := s.1.stackMin.isLt
        omega
      rw [hdiff]
      simp only [pageBytes]
      omega
    · exact raises_ok

lemma fixupStackFault_grown {v : Addr} {b : Bool} (h : SoundMem s)
    (hrun : Process.fixupStackFault s v = .ok (b, s')) : Grown s s' := by
  rw [Process.fixupStackFault] at hrun
  split at hrun
  · obtain ⟨mid, halloc, hrun⟩ := bind_eq_ok.mp hrun
    obtain ⟨-, rfl⟩ := Prod.mk.inj (Except.ok.inj hrun)
    exact (allocateMem_grown h pageSize_le halloc).1
  · split at hrun
    · obtain ⟨mid, hgrow, hrun⟩ := bind_eq_ok.mp hrun
      obtain ⟨-, rfl⟩ := Prod.mk.inj (Except.ok.inj hrun)
      exact growStack_grown h hgrow
    · obtain ⟨-, rfl⟩ := Prod.mk.inj (Except.ok.inj hrun)
      exact .refl h

lemma missEntry_grown {mode : TlbMode} {v : Addr} {o : Option TlbEntry} (h : SoundMem s)
    (hrun : missEntry mode s v = .ok (o, s')) :
    Grown s s' ∧ ∀ e, o = some e → s'.1.pTable.pTable (pageAlign v) = some e := by
  rw [missEntry] at hrun
  split at hrun
  · rename_i e mid hlook
    obtain ⟨rfl, rfl⟩ := Prod.mk.inj (Except.ok.inj hrun)
    obtain ⟨he, hgrown⟩ := lookup_eq h hlook
    exact ⟨hgrown, fun e' he' => hgrown.keep _ _ (he.symm.trans he')⟩
  · rename_i mid hlook
    obtain ⟨-, hgrown⟩ := lookup_eq h hlook
    split at hrun
    · obtain ⟨rfl, rfl⟩ := Prod.mk.inj (Except.ok.inj hrun)
      exact ⟨hgrown, nofun⟩
    · obtain ⟨⟨fixed, s₁⟩, hfix, hrun⟩ := bind_eq_ok.mp hrun
      have hgrown' := hgrown.trans (fixupStackFault_grown hgrown.sound hfix)
      have hpair := Except.ok.inj hrun
      split at hpair
      · obtain ⟨he, hlast⟩ := lookup_eq hgrown'.sound hpair
        exact ⟨hgrown'.trans hlast, fun e' he' => hlast.keep _ _ (he.symm.trans he')⟩
      · obtain ⟨rfl, rfl⟩ := Prod.mk.inj hpair
        exact ⟨hgrown', nofun⟩

lemma brkChunk_grown {newBrk addr : Addr} (h : SoundMem s) (hrun : Process.brkChunk newBrk s addr = .ok s') :
    Grown s s' := by
  rw [Process.brkChunk] at hrun
  split at hrun
  · rename_i mid hlook
    obtain ⟨-, hgrown⟩ := lookup_eq h hlook
    exact hgrown.trans (allocateMem_grown hgrown.sound pageSize_le hrun).1
  · rename_i mid hlook
    obtain ⟨-, hgrown⟩ := lookup_eq h hlook
    have hmid : Grown mid (if addr < Process.roundUp addr then (Process.lookup mid addr).2 else mid) := by
      split
      · exact (lookup_grown hgrown.sound addr).2
      · exact .refl hgrown.sound
    refine (hgrown.trans hmid).trans ?_
    have hsound := hmid.sound
    dsimp only at hrun
    generalize (if addr < Process.roundUp addr then (Process.lookup mid addr).2 else mid) = s₁ at hrun hsound
    split at hrun
    · have hnext := (lookup_grown hsound (Process.roundUp addr)).2
      split at hrun
      · rename_i s₂ hlook'
        rw [hlook'] at hnext
        obtain rfl := Except.ok.inj hrun
        exact hnext
      · rename_i e s₂ hlook'
        rw [hlook'] at hnext
        obtain rfl := Except.ok.inj hrun
        exact hnext.trans (lookup_grown hnext.sound _).2
    · obtain rfl := Except.ok.inj hrun
      exact .refl hsound

lemma foldlM_grown {α : Type} {f : ProcMem → α → Except SeFailure ProcMem}
    (hf : ∀ s a s', SoundMem s → f s a = .ok s' → Grown s s') {as : List α} (h : SoundMem s)
    (hrun : as.foldlM f s = .ok s') : Grown s s' := by
  induction as generalizing s with
  | nil =>
    obtain rfl := Except.ok.inj hrun
    exact .refl h
  | cons a as ih =>
    rw [List.foldlM_cons] at hrun
    obtain ⟨mid, hone, hrun⟩ := bind_eq_ok.mp hrun
    have hgrown := hf s a mid h hone
    exact hgrown.trans (ih hgrown.sound hrun)

lemma brkFunc_grown {newBrk : Addr} {r : Process.SyscallReturn} (h : SoundMem s)
    (hrun : Process.brkFunc s newBrk = .ok (r, s')) : Grown s s' := by
  rw [Process.brkFunc] at hrun
  split at hrun
  · obtain ⟨-, rfl⟩ := Prod.mk.inj (Except.ok.inj hrun)
    exact .refl h
  · obtain ⟨mid, hloop, hrun⟩ := bind_eq_ok.mp hrun
    obtain ⟨-, rfl⟩ := Prod.mk.inj (Except.ok.inj hrun)
    have hgrown := foldlM_grown (fun _ _ _ hs hone => brkChunk_grown hs hone) h hloop
    exact ⟨hgrown.sound, hgrown.size, hgrown.ptr, hgrown.keep, hgrown.new, hgrown.once⟩

lemma mmapPlace_pTable (growsDown : Bool) (p : Process) (provided : Option Addr) (length : Addr) :
    (Process.mmapPlace growsDown p provided length).2.pTable = p.pTable := by
  cases provided <;> cases growsDown <;> rfl

/-- `mmap` gives the caller a region whose physical pages lie in a row. -/
lemma mmapFunc_grown {growsDown : Bool} {args : Process.MmapArgs} {r : Process.SyscallReturn} (h : SoundMem s)
    (hsize : (Process.roundUp args.length).toNat ≤ 2 ^ 42)
    (hrun : Process.mmapFunc growsDown s args = .ok (r, s')) :
    Grown s s' ∧ ∀ start, r = .value start →
      ∃ base, MappedAt s'.1.pTable.pTable start (pageCount (Process.roundUp args.length)) base := by
  rw [Process.mmapFunc] at hrun
  dsimp only at hrun
  split at hrun
  · obtain ⟨rfl, rfl⟩ := Prod.mk.inj (Except.ok.inj hrun)
    exact ⟨.refl h, nofun⟩
  · split at hrun
    · obtain ⟨rfl, rfl⟩ := Prod.mk.inj (Except.ok.inj hrun)
      exact ⟨.refl h, nofun⟩
    · obtain ⟨unused, -, hrun⟩ := bind_eq_ok.mp hrun
      split at hrun
      · obtain ⟨rfl, rfl⟩ := Prod.mk.inj (Except.ok.inj hrun)
        exact ⟨.refl h, nofun⟩
      · have hplace := mmapPlace_pTable growsDown s.1 (if unused = true then some args.start else none)
          (Process.roundUp args.length)
        generalize Process.mmapPlace _ _ _ _ = place at hrun hplace
        obtain ⟨start, p⟩ := place
        obtain ⟨mid, halloc, hrun⟩ := bind_eq_ok.mp hrun
        obtain ⟨rfl, rfl⟩ := Prod.mk.inj (Except.ok.inj hrun)
        have hsound : SoundMem (p, s.2) := ⟨h.1, by rw [hplace]; exact h.2⟩
        obtain ⟨hgrown, hmapped⟩ := allocateMem_grown hsound hsize halloc
        refine ⟨hgrown.of_pTable hplace, fun start' hstart => ?_⟩
        rwa [← Process.SyscallReturn.value.inj hstart]

lemma proxyWrite_grown {allocating : Process.AllocType} {addr : Addr} {b : Bool} (h : SoundMem s)
    (hrun : Process.proxyWrite s allocating addr = .ok (b, s')) : Grown s s' := by
  rw [Process.proxyWrite] at hrun
  split at hrun
  · rename_i e mid hlook
    obtain ⟨-, rfl⟩ := Prod.mk.inj (Except.ok.inj hrun)
    exact (lookup_eq h hlook).2
  · rename_i mid hlook
    have hgrown := (lookup_eq h hlook).2
    split at hrun
    · obtain ⟨s₁, halloc, hrun⟩ := bind_eq_ok.mp hrun
      obtain ⟨-, rfl⟩ := Prod.mk.inj (Except.ok.inj hrun)
      have hgrown' := hgrown.trans (allocateMem_grown hgrown.sound pageSize_le halloc).1
      exact hgrown'.trans (lookup_grown hgrown'.sound addr).2
    · obtain ⟨⟨fixed, s₁⟩, hfix, hrun⟩ := bind_eq_ok.mp hrun
      obtain ⟨_, -, hrun⟩ := bind_eq_ok.mp hrun
      obtain ⟨-, rfl⟩ := Prod.mk.inj (Except.ok.inj hrun)
      have hgrown' := hgrown.trans (fixupStackFault_grown hgrown.sound hfix)
      exact hgrown'.trans (lookup_grown hgrown'.sound addr).2
    · obtain ⟨-, rfl⟩ := Prod.mk.inj (Except.ok.inj hrun)
      exact hgrown

end Process

/-! ### The TLB agrees with the page table -/

/-- All entries are for pages of the process, in the physical pages below `hi`. -/
def GoodTable (T : PTable) (hi : Nat) : Prop := ∀ v e, T v = some e → NewEntry 0 hi v e

/-- Every page in the TLB is in the table. -/
def TlbAgrees {n : Nat} (T : PTable) (t : TLB n) : Prop :=
  ∃ slots, InUse smallPages t slots ∧ ∀ i ∈ slots, T (t.tlb i).vaddr = some (TlbEntry.bare (t.tlb i))

section Tlb

variable {n : Nat} {t t' : TLB n} {T T' : PTable} {hi : Nat} {va : Addr} {e e' : TlbEntry}

lemma tlbAgrees_new (T : PTable) : TlbAgrees T (TLB.new n) := ⟨[], inUse_new _ n, nofun⟩

lemma TlbAgrees.mono (h : TlbAgrees T t) (hT : ∀ v e, T v = some e → T' v = some e) : TlbAgrees T' t := by
  obtain ⟨slots, huse, hsub⟩ := h
  exact ⟨slots, huse, fun i hi => hT _ _ (hsub i hi)⟩

lemma GoodTable.grown {s s' : ProcMem} (hT : GoodTable s.1.pTable.pTable s.2.pagePtr.toNat) (h : Grown s s') :
    GoodTable s'.1.pTable.pTable s'.2.pagePtr.toNat := by
  intro v e he
  rcases h.new v e he with hold | hnew
  · exact (hT v e hold).mono le_rfl h.ptr
  · exact hnew.mono (Nat.zero_le _) le_rfl

lemma GoodTable.bare (hT : GoodTable T hi) (he : T va = some e) : TlbEntry.bare e = e := by
  rw [(hT va e he).entry]
  rfl

lemma GoodTable.vaddr (hT : GoodTable T hi) (he : T va = some e) : e.vaddr = va := by
  rw [(hT va e he).entry]
  rfl

lemma GoodTable.logBytes (hT : GoodTable T hi) (he : T va = some e) : e.logBytes = TlbEntry.pageShift := by
  rw [(hT va e he).entry]
  rfl

lemma GoodTable.covers (hT : GoodTable T hi) {v : Addr} (he : T v = some e)
    (hcov : TlbEntry.covers e va = true) : v = pageAlign va := by
  rw [TlbEntry.covers, beq_iff_eq, hT.logBytes he, hT.vaddr he] at hcov
  exact hcov.symm

lemma TlbAgrees.lookup (h : TlbAgrees T t) (hT : GoodTable T hi) (va : Addr) :
    (∀ e, (t.lookup va true).1 = some e → T (pageAlign va) = some (TlbEntry.bare e)) ∧
      TlbAgrees T (t.lookup va true).2 := by
  obtain ⟨slots, huse, hsub⟩ := h
  rw [TLB.lookup]
  cases hlook : t.trie.lookup va with
  | none =>
    refine ⟨fun e he => ?_, slots, huse, hsub⟩
    cases he
  | some i =>
    obtain ⟨hi, hcov⟩ := (huse.lookup va i).mp hlook
    refine ⟨?_, _, huse.touch hi, ?_⟩
    · intro e he
      rw [← Option.some.inj he, ← hT.covers (hsub i hi) hcov]
      exact hsub i hi
    · intro j hj
      by_cases hji : j = i
      · subst hji
        simpa [TLB.setEntry, TlbEntry.bare] using hsub j hi
      · simpa [TLB.setEntry, hji] using hsub j (List.mem_of_mem_erase ((List.mem_cons.mp hj).resolve_left hji))

lemma liftTlb_eq_ok {α : Type} {x : Except TlbFailure α} {a : α} : liftTlb x = .ok a ↔ x = .ok a := by
  cases x <;> simp [liftTlb]

lemma TlbAgrees.insert (h : TlbAgrees T t) (hT : GoodTable T hi) (he : T (pageAlign va) = some e)
    (hrun : t.insert (pageAlign va) e = .ok (e', t')) : T (pageAlign va) = some (TlbEntry.bare e') ∧ TlbAgrees T t' := by
  obtain ⟨slots, huse, hsub⟩ := h
  have halign : pageAlign (pageAlign va) = pageAlign va := pageAlign_of_offset (hT _ _ he).page
  have hvaddr : { e with vaddr := pageAlign va } = e := by rw [← hT.vaddr he]
  have hfits : smallPages.Fits { e with vaddr := pageAlign va } := by
    rw [hvaddr]
    refine ⟨hT.logBytes he, ?_⟩
    rw [hT.logBytes he, hT.vaddr he]
    exact halign
  rcases huse.insert hfits with ⟨i, hi, hlook, hinsert⟩ | ⟨-, t₁, i, hd, hinsert, huse', hi, hsame, -⟩
  · obtain ⟨rfl, rfl⟩ := Prod.mk.inj (Except.ok.inj (hrun.symm.trans hinsert))
    obtain ⟨-, hcov⟩ := (huse.lookup (pageAlign va) i).mp hlook
    refine ⟨?_, slots, huse, hsub⟩
    rw [← halign, ← hT.covers (hsub i hi) hcov]
    exact hsub i hi
  · obtain ⟨rfl, rfl⟩ := Prod.mk.inj (Except.ok.inj (hrun.symm.trans hinsert))
    have hbare : TlbEntry.bare (e.inserted (pageAlign va) t.nextSeq hd) = e := by
      rw [← hT.bare he, ← hT.vaddr he]
      rfl
    refine ⟨by rw [hbare, he], _, huse', ?_⟩
    rw [List.forall_mem_cons]
    refine ⟨by rw [hi, hbare]; exact he, fun j hj => ?_⟩
    rw [hsame j hj]
    exact hsub j ((kept_sublist t slots).subset hj)

lemma tlbEntry_agrees {mode : TlbMode} {s s' : TlbState n} {o : Option TlbEntry} (hs : SoundMem s.2)
    (hT : GoodTable s.2.1.pTable.pTable s.2.2.pagePtr.toNat) (h : TlbAgrees s.2.1.pTable.pTable s.1)
    (hrun : tlbEntry mode s va = .ok (o, s')) :
    Grown s.2 s'.2 ∧ TlbAgrees s'.2.1.pTable.pTable s'.1 ∧
      ∀ e, o = some e → s'.2.1.pTable.pTable (pageAlign va) = some (TlbEntry.bare e) := by
  obtain ⟨hhit, hagrees⟩ := h.lookup hT va
  rw [tlbEntry] at hrun
  split at hrun
  · rename_i e t hlook
    rw [hlook] at hhit hagrees
    obtain ⟨rfl, rfl⟩ := Prod.mk.inj (Except.ok.inj hrun)
    exact ⟨.refl hs, hagrees, fun e' he' => hhit e' he'⟩
  · rename_i t hlook
    rw [hlook] at hagrees
    obtain ⟨⟨entry, pm⟩, hmiss, hrun⟩ := bind_eq_ok.mp hrun
    obtain ⟨hgrown, hentry⟩ := missEntry_grown hs hmiss
    have hagrees' : TlbAgrees pm.1.pTable.pTable t := hagrees.mono hgrown.keep
    cases entry with
    | none =>
      obtain ⟨rfl, rfl⟩ := Prod.mk.inj (Except.ok.inj hrun)
      exact ⟨hgrown, hagrees', nofun⟩
    | some e =>
      obtain ⟨⟨e', t'⟩, hinsert, hrun⟩ := bind_eq_ok.mp hrun
      obtain ⟨rfl, rfl⟩ := Prod.mk.inj (Except.ok.inj hrun)
      rw [liftTlb_eq_ok] at hinsert
      have hT' : GoodTable pm.1.pTable.pTable pm.2.pagePtr.toNat := hT.grown hgrown
      obtain ⟨he', hagrees''⟩ := hagrees'.insert hT' (hentry e rfl) hinsert
      refine ⟨hgrown, hagrees'', fun x hx => ?_⟩
      rw [← Option.some.inj hx]
      exact he'

lemma or_pageOffset {p : Addr} (hp : pageOffset p = 0) (v : Addr) : p ||| pageOffset v = p + pageOffset v := by
  refine (BitVec.add_eq_or_of_and_eq_zero _ _ ?_).symm
  rw [pageOffset, BitVec.and_comm v, ← BitVec.and_assoc, ← pageOffset, hp]
  exact BitVec.zero_and

/-- Physical addresses are below those of the pseudo instructions. -/
lemma NewEntry.addr_lt {lo : Nat} {v : Addr} (h : NewEntry lo hi v e) (hhi : hi * pageBytes < 0xFFFF0000) (a : Addr) :
    (e.paddr + pageOffset a).toNat < 0xFFFF0000 := by
  have hhigh := h.high
  have hmod := pageOffset_eq_zero.mp h.frame
  have hoff : (pageOffset a).toNat < pageBytes := by
    rw [pageOffset_toNat]
    exact Nat.mod_lt _ (by decide)
  rw [BitVec.toNat_add]
  simp only [pageBytes] at hhigh hmod hoff hhi
  omega

/-- The translation through an entry, which is never an address of the pseudo instructions. -/
lemma pageTranslation_paddr (hT : GoodTable T hi) (hhi : hi * pageBytes < 0xFFFF0000) (req : TlbRequest)
    (he : T (pageAlign va) = some (TlbEntry.bare e)) :
    finalizePhysical (pageTranslation req va e) = pageTranslation req va e ∧
      (pageTranslation req va e).paddr = (TlbEntry.bare e).paddr + pageOffset va := by
  have hnew := hT _ _ he
  have hpaddr : (pageTranslation req va e).paddr = (TlbEntry.bare e).paddr + pageOffset va := by
    have hlog : (TlbEntry.bare e).logBytes = TlbEntry.pageShift := hT.logBytes he
    change e.logBytes = TlbEntry.pageShift at hlog
    rw [pageTranslation, hlog]
    exact or_pageOffset hnew.frame va
  refine ⟨if_neg ?_, hpaddr⟩
  have hlt := hnew.addr_lt hhi va
  rw [← hpaddr] at hlt
  simp only [m5opRange, Bool.and_eq_true, decide_eq_true_eq, BitVec.le_def, not_and]
  intro hle
  have : (0xFFFF0000 : Addr).toNat = 0xFFFF0000 := rfl
  omega

/-- The physical address that a request gets is that of the page table. -/
def TranslatedBy (T : PTable) (r : TlbResult) : Prop :=
  ∃ e, T (pageAlign r.vaddr) = some e ∧ r.paddr = e.paddr + pageOffset r.vaddr

lemma translatePage_agrees {regs : MiscRegs} {req : TlbRequest} {mode : TlbMode} {s s' : TlbState n}
    {r : Except TlbFault TlbResult} (hs : SoundMem s.2)
    (hT : GoodTable s.2.1.pTable.pTable s.2.2.pagePtr.toNat) (h : TlbAgrees s.2.1.pTable.pTable s.1)
    (hrun : translatePage regs req mode s va = .ok (r, s')) :
    Grown s.2 s'.2 ∧ TlbAgrees s'.2.1.pTable.pTable s'.1 ∧ ∀ x, r = .ok x → TranslatedBy s'.2.1.pTable.pTable x := by
  obtain ⟨⟨entry, s₁⟩, hentry, hrun⟩ := bind_eq_ok.mp hrun
  obtain ⟨hgrown, hagrees, hfound⟩ := tlbEntry_agrees hs hT h hentry
  cases entry with
  | none =>
    obtain ⟨rfl, rfl⟩ := Prod.mk.inj (Except.ok.inj hrun)
    exact ⟨hgrown, hagrees, nofun⟩
  | some e =>
    dsimp only at hrun
    split at hrun
    · obtain ⟨rfl, rfl⟩ := Prod.mk.inj (Except.ok.inj hrun)
      exact ⟨hgrown, hagrees, nofun⟩
    · obtain ⟨rfl, rfl⟩ := Prod.mk.inj (Except.ok.inj hrun)
      refine ⟨hgrown, hagrees, fun x hx => ?_⟩
      have hhi : s₁.2.2.pagePtr.toNat * pageBytes < 0xFFFF0000 :=
        hgrown.sound.1.ptr.trans_lt hgrown.sound.1.small
      obtain ⟨hfinal, hpaddr⟩ := pageTranslation_paddr (hT.grown hgrown) hhi req (hfound e rfl)
      rw [hfinal] at hx
      rw [← Except.ok.inj hx]
      exact ⟨_, hfound e rfl, hpaddr⟩

lemma tlbTranslate_agrees {regs : MiscRegs} {req : TlbRequest} {mode : TlbMode} {s s' : TlbState n}
    {r : Except TlbFault TlbResult} (hs : SoundMem s.2)
    (hT : GoodTable s.2.1.pTable.pTable s.2.2.pagePtr.toNat) (h : TlbAgrees s.2.1.pTable.pTable s.1)
    (hrun : tlbTranslate regs req mode s = .ok (r, s')) :
    Grown s.2 s'.2 ∧ TlbAgrees s'.2.1.pTable.pTable s'.1 ∧
      (regs.prot = true → regs.paging = true → ∀ x, r = .ok x → TranslatedBy s'.2.1.pTable.pTable x) := by
  obtain ⟨_, -, hrun⟩ := bind_eq_ok.mp hrun
  dsimp only at hrun
  split at hrun
  · split at hrun
    · obtain ⟨rfl, rfl⟩ := Prod.mk.inj (Except.ok.inj hrun)
      exact ⟨.refl hs, h, fun _ _ => nofun⟩
    · split at hrun
      · obtain ⟨hgrown, hagrees, hr⟩ := translatePage_agrees hs hT h hrun
        exact ⟨hgrown, hagrees, fun _ _ => hr⟩
      · rename_i hpaging
        obtain ⟨rfl, rfl⟩ := Prod.mk.inj (Except.ok.inj hrun)
        exact ⟨.refl hs, h, fun _ hp => absurd hp hpaging⟩
  · rename_i hprot
    obtain ⟨rfl, rfl⟩ := Prod.mk.inj (Except.ok.inj hrun)
    exact ⟨.refl hs, h, fun hp => absurd hp hprot⟩

end Tlb

/-! ### The system -/

section System

variable {ι κ : Type} {n : Nat} {owner : κ → ι} {s s' : SeSystem ι κ n}

/-- The page table of a process. -/
def table (s : SeSystem ι κ n) (i : ι) : PTable := (s.processes i).pTable.pTable

/-- No two pages, of one process or of two, have the same physical page. -/
def Separate (s : SeSystem ι κ n) : Prop :=
  ∀ i j v w e e', table s i v = some e → table s j w = some e' → e.paddr = e'.paddr → i = j ∧ v = w

structure SeInv (owner : κ → ι) (s : SeSystem ι κ n) : Prop where
  mem : MemOk s.mem
  cache : ∀ i, Coherent (s.processes i).pTable.cache (table s i)
  good : ∀ i, GoodTable (table s i) s.mem.pagePtr.toNat
  separate : Separate s
  tlbs : ∀ k, TlbAgrees (table s (owner k)) (s.tlbs k)

/-- The tables only grow. -/
def TablesGrow (s s' : SeSystem ι κ n) : Prop := ∀ i v e, table s i v = some e → table s' i v = some e

lemma SeInv.sound (h : SeInv owner s) (i : ι) : SoundMem (s.procMem i) := ⟨h.mem, h.cache i⟩

variable [DecidableEq ι]

lemma table_setProcess (s : SeSystem ι κ n) (i : ι) (pm : ProcMem) :
    table (s.setProcess i pm) = Function.update (table s) i pm.1.pTable.pTable := by
  funext j
  by_cases hj : j = i
  · subst hj
    simp [table, SeSystem.setProcess]
  · simp [table, SeSystem.setProcess, hj]

lemma tablesGrow_setProcess {i : ι} {pm : ProcMem} (h : Grown (s.procMem i) pm) :
    TablesGrow s (s.setProcess i pm) := by
  intro j v e he
  rw [table_setProcess]
  by_cases hj : j = i
  · subst hj
    rw [Function.update_self]
    exact h.keep v e he
  · rwa [Function.update_of_ne hj]

/-- An entry is an old one, or a new one of the process that has grown. -/
lemma setProcess_entry {i j : ι} {pm : ProcMem} (h : Grown (s.procMem i) pm) {v : Addr} {e : TlbEntry}
    (he : table (s.setProcess i pm) j v = some e) : table s j v = some e ∨
      j = i ∧ table s i v = none ∧ pm.1.pTable.pTable v = some e ∧ s.mem.pagePtr.toNat * pageBytes ≤ e.paddr.toNat := by
  rw [table_setProcess] at he
  by_cases hj : j = i
  · subst hj
    rw [Function.update_self] at he
    cases hold : table s j v with
    | none => exact .inr ⟨rfl, rfl, he, (h.new_of_none he hold).low⟩
    | some e₀ => exact .inl ((h.keep v e₀ hold).symm.trans he)
  · rw [Function.update_of_ne hj] at he
    exact .inl he

lemma SeInv.setProcess (h : SeInv owner s) {i : ι} {pm : ProcMem} (hgrown : Grown (s.procMem i) pm) :
    SeInv owner (s.setProcess i pm) where
  mem := hgrown.sound.1
  cache := by
    intro j
    rw [table_setProcess]
    by_cases hj : j = i
    · subst hj
      simpa [SeSystem.setProcess] using hgrown.sound.2
    · simpa [SeSystem.setProcess, hj] using h.cache j
  good := by
    intro j
    rw [table_setProcess]
    by_cases hj : j = i
    · subst hj
      rw [Function.update_self]
      exact (h.good j).grown hgrown
    · rw [Function.update_of_ne hj]
      exact fun v e he => (h.good j v e he).mono le_rfl hgrown.ptr
  separate := by
    intro a b v w e e' he he' hpaddr
    rcases setProcess_entry hgrown he with hold | ⟨rfl, hv, hnew, hlow⟩
    · rcases setProcess_entry hgrown he' with hold' | ⟨rfl, -, -, hlow'⟩
      · exact h.separate a b v w e e' hold hold' hpaddr
      · exact absurd (h.good a v e hold).high (by rw [hpaddr]; omega)
    · rcases setProcess_entry hgrown he' with hold' | ⟨rfl, hw, hnew', -⟩
      · exact absurd (h.good b w e' hold').high (by rw [← hpaddr]; omega)
      · exact ⟨rfl, hgrown.once v w e e' hnew hnew' hv hw hpaddr⟩
  tlbs := fun k => (h.tlbs k).mono (tablesGrow_setProcess hgrown (owner k))

/-- What an answer says about the page tables. -/
def Explained (owner : κ → ι) (s : SeSystem ι κ n) : SeOp ι κ → SeAnswer → Prop
  | .translate k regs _ _, .translated (.ok r) =>
    regs.prot = true → regs.paging = true → TranslatedBy (table s (owner k)) r
  | .allocate i v size, .done => ∃ base, MappedAt (table s i) v (pageCount size) base
  | .mmap i args, .syscall (.value start) =>
    ∃ base, MappedAt (table s i) start (pageCount (Process.roundUp args.length)) base
  | _, _ => True

/-- Nothing is remapped, and the sizes of regions are at most 4 TB. -/
def PlainOp : SeOp ι κ → Prop
  | .allocate _ _ size => size.toNat ≤ 2 ^ 42
  | .mmap _ args => (Process.roundUp args.length).toNat ≤ 2 ^ 42
  | .mremap _ _ => False
  | _ => True

omit [DecidableEq ι] in
lemma Explained.mono {op : SeOp ι κ} {o : SeAnswer} (h : Explained owner s op o) (hgrow : TablesGrow s s') :
    Explained owner s' op o := by
  have hmapped : ∀ {i v k}, (∃ base, MappedAt (table s i) v k base) → ∃ base, MappedAt (table s' i) v k base := by
    rintro i v k ⟨base, hbase⟩
    exact ⟨base, fun a ha => hgrow _ _ _ (hbase a ha)⟩
  cases op with
  | translate k regs req mode =>
    cases o with
    | translated r =>
      cases r with
      | error fault => trivial
      | ok r =>
        intro hprot hpaging
        obtain ⟨e, he, hr⟩ := h hprot hpaging
        exact ⟨e, hgrow _ _ _ he, hr⟩
    | _ => trivial
  | allocate i v size =>
    cases o with
    | done => exact hmapped h
    | _ => trivial
  | mmap i args =>
    cases o with
    | syscall r =>
      cases r with
      | value start => exact hmapped h
      | _ => trivial
    | _ => trivial
  | _ => trivial

variable [DecidableEq κ]

omit [DecidableEq ι] in
lemma SeInv.setTlb (h : SeInv owner s) {k : κ} {t : TLB n} (ht : TlbAgrees (table s (owner k)) t) :
    SeInv owner { s with tlbs := Function.update s.tlbs k t } where
  mem := h.mem
  cache := h.cache
  good := h.good
  separate := h.separate
  tlbs := by
    intro j
    change TlbAgrees (table s (owner j)) (Function.update s.tlbs k t j)
    by_cases hj : j = k
    · subst hj
      rwa [Function.update_self]
    · rw [Function.update_of_ne hj]
      exact h.tlbs j

lemma step_explained {growsDown : Bool} {op : SeOp ι κ} {o : SeAnswer} (h : SeInv owner s) (hop : PlainOp op)
    (hrun : SeSystem.step owner growsDown s op = .ok (o, s')) :
    SeInv owner s' ∧ TablesGrow s s' ∧ Explained owner s' op o := by
  cases op with
  | translate k regs req mode =>
    obtain ⟨⟨r, t, pm⟩, htrans, hrun⟩ := bind_eq_ok.mp hrun
    obtain ⟨rfl, rfl⟩ := Prod.mk.inj (Except.ok.inj hrun)
    obtain ⟨hgrown, hagrees, hr⟩ := tlbTranslate_agrees (h.sound (owner k)) (h.good (owner k)) (h.tlbs k) htrans
    have htable : table (s.setProcess (owner k) pm) (owner k) = pm.1.pTable.pTable := by
      rw [table_setProcess, Function.update_self]
    refine ⟨(h.setProcess hgrown).setTlb (by rwa [htable]), tablesGrow_setProcess hgrown, ?_⟩
    cases r with
    | error fault => trivial
    | ok r =>
      intro hprot hpaging
      have := hr hprot hpaging r rfl
      rwa [← htable] at this
  | allocate i v size =>
    obtain ⟨pm, halloc, hrun⟩ := bind_eq_ok.mp hrun
    obtain ⟨rfl, rfl⟩ := Prod.mk.inj (Except.ok.inj hrun)
    obtain ⟨hgrown, hmapped⟩ := allocateMem_grown (h.sound i) hop halloc
    refine ⟨h.setProcess hgrown, tablesGrow_setProcess hgrown, ?_⟩
    rw [Explained, table_setProcess, Function.update_self]
    exact hmapped
  | brk i newBrk =>
    obtain ⟨⟨r, pm⟩, hbrk, hrun⟩ := bind_eq_ok.mp hrun
    obtain ⟨rfl, rfl⟩ := Prod.mk.inj (Except.ok.inj hrun)
    have hgrown := brkFunc_grown (h.sound i) hbrk
    exact ⟨h.setProcess hgrown, tablesGrow_setProcess hgrown, trivial⟩
  | mmap i args =>
    obtain ⟨⟨r, pm⟩, hmmap, hrun⟩ := bind_eq_ok.mp hrun
    obtain ⟨rfl, rfl⟩ := Prod.mk.inj (Except.ok.inj hrun)
    obtain ⟨hgrown, hmapped⟩ := mmapFunc_grown (h.sound i) hop hmmap
    refine ⟨h.setProcess hgrown, tablesGrow_setProcess hgrown, ?_⟩
    cases r with
    | value start =>
      rw [Explained, table_setProcess, Function.update_self]
      exact hmapped start rfl
    | _ => trivial
  | mremap i args => exact hop.elim
  | munmap i =>
    obtain ⟨rfl, rfl⟩ := Prod.mk.inj (Except.ok.inj hrun)
    exact ⟨h, fun _ _ _ he => he, trivial⟩
  | proxyWrite i allocating addr =>
    obtain ⟨⟨b, pm⟩, hwrite, hrun⟩ := bind_eq_ok.mp hrun
    obtain ⟨rfl, rfl⟩ := Prod.mk.inj (Except.ok.inj hrun)
    have hgrown := proxyWrite_grown (h.sound i) hwrite
    exact ⟨h.setProcess hgrown, tablesGrow_setProcess hgrown, trivial⟩
  | proxyRead i addr =>
    obtain ⟨rfl, rfl⟩ := Prod.mk.inj (Except.ok.inj hrun)
    have hgrown := (lookup_grown (h.sound i) addr).2
    exact ⟨h.setProcess hgrown, tablesGrow_setProcess hgrown, trivial⟩

/-- Nothing is mapped yet, and the pages that have been handed out are in the memory. Nothing is said about the
size of the memory. -/
structure Fresh (s : SeSystem ι κ n) : Prop where
  ptr : s.mem.pagePtr.toNat * pageBytes ≤ s.mem.totalSize.toNat
  tables : ∀ i, (s.processes i).pTable = .new
  tlbs : ∀ k, s.tlbs k = .new n

omit [DecidableEq ι] [DecidableEq κ] in
lemma Fresh.inv (h : Fresh s) (hsmall : s.mem.totalSize.toNat < 0xFFFF0000) : SeInv owner s := by
  have hnone : ∀ i v, table s i v = none := fun i v => by rw [table, h.tables i]; rfl
  refine ⟨⟨hsmall, h.ptr⟩, fun i => ?_, fun i v e he => ?_, fun i j v w e e' he => ?_, fun k => ?_⟩
  · rw [h.tables i]
    exact coherent_empty _
  · rw [hnone] at he
    cases he
  · rw [hnone] at he
    cases he
  · rw [h.tlbs k]
    exact tlbAgrees_new _

section Run

variable {growsDown : Bool} {s₀ : SeSystem ι κ n} {ops : List (SeOp ι κ)} {os : List SeAnswer}

/-- As long as no region is remapped, the page tables at the end of a run explain everything that happened in
it: every translation of every CPU, however early, gave the address that these tables give, and every region
that was handed out lies in physical pages in a row. -/
theorem run_explained (hfresh : Fresh s₀) (hsmall : s₀.mem.totalSize.toNat < 0xFFFF0000)
    (hops : ∀ op ∈ ops, PlainOp op)
    (hrun : runAnswers (SeSystem.step owner growsDown) s₀ ops = .ok (os, s)) :
    SeInv owner s ∧ ∀ p ∈ ops.zip os, Explained owner s p.1 p.2 := by
  obtain ⟨hinv, hall, -⟩ := runAnswers_settled (SeSystem.step owner growsDown) (I := SeInv owner) (G := PlainOp)
    (P := fun op o s => Explained owner s op o)
    (fun s op o s' h hop hstep =>
      have hone := step_explained h hop hstep
      ⟨hone.1, hone.2.2⟩)
    (fun s op o s' h hop hstep op' o' hold => hold.mono (step_explained h hop hstep).2.1) (hfresh.inv hsmall) hops hrun
  exact ⟨hinv, hall⟩

/-- The request of a CPU whose TLB is `k` got an address through the page tables. -/
def GotAddress (ops : List (SeOp ι κ)) (os : List SeAnswer) (k : κ) (r : TlbResult) : Prop :=
  ∃ regs req mode, (SeOp.translate k regs req mode, SeAnswer.translated (.ok r)) ∈ ops.zip os ∧
    regs.prot = true ∧ regs.paging = true

omit [DecidableEq ι] [DecidableEq κ] in
lemma GotAddress.translatedBy {k : κ} {r : TlbResult} (h : GotAddress ops os k r)
    (hall : ∀ p ∈ ops.zip os, Explained owner s p.1 p.2) : TranslatedBy (table s (owner k)) r := by
  obtain ⟨regs, req, mode, hmem, hprot, hpaging⟩ := h
  exact hall _ hmem hprot hpaging

lemma pageAlign_add_offset {p : Addr} (hp : pageOffset p = 0) (v : Addr) : pageAlign (p + pageOffset v) = p := by
  rw [pageOffset_eq_zero] at hp
  have hoff : (pageOffset v).toNat < pageBytes := by
    rw [pageOffset_toNat]
    exact Nat.mod_lt _ (by decide)
  have := p.isLt
  rw [← BitVec.toNat_inj, pageAlign_toNat, BitVec.toNat_add]
  simp only [pageBytes] at hp hoff ⊢
  omega

/-- Two requests of a run get the same physical page exactly if they come from the same process and name the
same virtual page: processes are isolated, pages are not shared, and a translation never changes. The memory ends
below the addresses of the pseudo instructions, where `allocPhysPages` starts again. -/
theorem same_frame_iff (hfresh : Fresh s₀) (hsmall : s₀.mem.totalSize.toNat < 0xFFFF0000)
    (hops : ∀ op ∈ ops, PlainOp op)
    (hrun : runAnswers (SeSystem.step owner growsDown) s₀ ops = .ok (os, s)) {k k' : κ} {r r' : TlbResult}
    (hr : GotAddress ops os k r) (hr' : GotAddress ops os k' r') :
    pageAlign r.paddr = pageAlign r'.paddr ↔ owner k = owner k' ∧ pageAlign r.vaddr = pageAlign r'.vaddr := by
  obtain ⟨hinv, hall⟩ := run_explained hfresh hsmall hops hrun
  obtain ⟨e, he, hpaddr⟩ := hr.translatedBy hall
  obtain ⟨e', he', hpaddr'⟩ := hr'.translatedBy hall
  rw [hpaddr, hpaddr', pageAlign_add_offset (hinv.good _ _ _ he).frame,
    pageAlign_add_offset (hinv.good _ _ _ he').frame]
  constructor
  · exact hinv.separate _ _ _ _ _ _ he he'
  · rintro ⟨howner, hpage⟩
    rw [howner, hpage, he'] at he
    rw [Option.some.inj he]

/-- Two processes, each on a CPU of its own with a TLB of one entry. -/
def twoProcesses : SeSystem Bool Bool 0 where
  processes := fun _ => ⟨.new, 0x7FFFFFFFF000, 0x7FFFFFFFE000, 0x800000, 0x600000, 0x2AAAAAAAB000⟩
  tlbs := fun _ => .new 0
  mem := ⟨16, 0x20000000⟩

def userRegs : MiscRegs := ⟨true, true, true, true, 3, 3, 2, true, fun _ => ⟨true, true, true, false, 0, 0⟩⟩

def twoProcessesOps : List (SeOp Bool Bool) :=
  [.mmap false ⟨0, 0x1800, 0x20, false, 0⟩, .mmap true ⟨0, 0x1000, 0x20, false, 0⟩,
    .translate false userRegs ⟨0x2AAAAAAAC234, 8, 3⟩ .write, .translate true userRegs ⟨0x2AAAAAAAB010, 8, 3⟩ .read]

def twoProcessesAnswers : List SeAnswer :=
  [.syscall (.value 0x2AAAAAAAB000), .syscall (.value 0x2AAAAAAAB000),
    .translated (.ok ⟨0x2AAAAAAAC234, 0x11234, 3⟩), .translated (.ok ⟨0x2AAAAAAAB010, 0x12010, 3⟩)]

lemma twoProcesses_run :
    ∃ s, runAnswers (SeSystem.step id false) twoProcesses twoProcessesOps = .ok (twoProcessesAnswers, s) := ⟨_, rfl⟩

lemma twoProcesses_fresh : Fresh twoProcesses := ⟨by decide, fun _ => rfl, fun _ => rfl⟩

lemma twoProcesses_plain : ∀ op ∈ twoProcessesOps, PlainOp op := by
  simp only [twoProcessesOps, List.forall_mem_cons, PlainOp]
  exact ⟨by decide, by decide, trivial, trivial, nofun⟩

/-- The first page of the second process and the second page of the first one. -/
theorem same_frame_iff_twoProcesses :
    pageAlign (0x11234 : Addr) = pageAlign 0x12010 ↔
      id false = id true ∧ pageAlign (0x2AAAAAAAC234 : Addr) = pageAlign 0x2AAAAAAAB010 := by
  obtain ⟨s, hrun⟩ := twoProcesses_run
  have hr : GotAddress twoProcessesOps twoProcessesAnswers false ⟨0x2AAAAAAAC234, 0x11234, 3⟩ :=
    ⟨userRegs, _, _, List.mem_iff_getElem?.mpr ⟨2, rfl⟩, rfl, rfl⟩
  have hr' : GotAddress twoProcessesOps twoProcessesAnswers true ⟨0x2AAAAAAAB010, 0x12010, 3⟩ :=
    ⟨userRegs, _, _, List.mem_iff_getElem?.mpr ⟨3, rfl⟩, rfl, rfl⟩
  exact same_frame_iff twoProcesses_fresh (by decide) twoProcesses_plain hrun hr hr'

lemma roundUp_mod (a : Addr) : (Process.roundUp a).toNat % pageBytes = 0 := by
  have halign : (Process.roundUp a).toNat = (a + offsetMask).toNat / pageBytes * pageBytes := pageAlign_toNat _
  rw [halign]
  exact Nat.mul_mod_left ..

/-- The page of an address in a region. -/
lemma inPages_of_lt {start v size : Addr} (hstart : pageOffset start = 0) (hsize : size.toNat ≤ 2 ^ 42)
    (hmod : size.toNat % pageBytes = 0) (hv : (v - start).toNat < size.toNat) :
    InPages start (pageCount size) (pageAlign v) := by
  rw [pageOffset_eq_zero] at hstart
  rw [InPages, pageCount_eq hsize]
  have := v.isLt
  have := start.isLt
  rw [BitVec.toNat_sub] at hv ⊢
  rw [pageAlign_toNat]
  simp only [pageBytes] at hstart hmod ⊢
  omega

/-- An address of a region that lies in physical pages in a row. -/
lemma MappedAt.entry {T : PTable} {start base v size : Addr} {hi : Nat} (h : MappedAt T start (pageCount size) base)
    (hT : GoodTable T hi) (hsize : size.toNat ≤ 2 ^ 42) (hmod : size.toNat % pageBytes = 0)
    (hv : (v - start).toNat < size.toNat) :
    ∃ e, T (pageAlign v) = some e ∧ e.paddr + pageOffset v = base + (v - start) := by
  have hstart : pageOffset start = 0 := by
    have hfirst : InPages start (pageCount size) start := by
      rw [InPages, pageCount_eq hsize, BitVec.sub_self]
      simp only [pageBytes, BitVec.toNat_zero] at hmod ⊢
      omega
    exact (hT _ _ (h start hfirst)).page
  refine ⟨_, h _ (inPages_of_lt hstart hsize hmod hv), ?_⟩
  have hsplit := pageAlign_add_pageOffset v
  calc base + (pageAlign v - start) + pageOffset v
      = base + (pageAlign v + pageOffset v - start) := by ring
    _ = base + (v - start) := by rw [hsplit]

/-- A region that `mmap` returned keeps its place in physical memory, in one piece: whenever an address of it is
translated, the result is as far from the start of the piece as the address is from that of the region. -/
theorem mmap_region_contiguous (hfresh : Fresh s₀) (hsmall : s₀.mem.totalSize.toNat < 0xFFFF0000)
    (hops : ∀ op ∈ ops, PlainOp op)
    (hrun : runAnswers (SeSystem.step owner growsDown) s₀ ops = .ok (os, s)) {i : ι} {args : Process.MmapArgs}
    {start : Addr} (hmmap : (SeOp.mmap i args, SeAnswer.syscall (.value start)) ∈ ops.zip os) :
    ∃ base, ∀ k r, GotAddress ops os k r → owner k = i →
      (r.vaddr - start).toNat < (Process.roundUp args.length).toNat → r.paddr = base + (r.vaddr - start) := by
  obtain ⟨hinv, hall⟩ := run_explained hfresh hsmall hops hrun
  obtain ⟨base, hbase⟩ := hall _ hmmap
  refine ⟨base, fun k r hr hk hlt => ?_⟩
  have hsize : (Process.roundUp args.length).toNat ≤ 2 ^ 42 := hops _ (List.of_mem_zip hmmap).1
  obtain ⟨e, he, hpaddr⟩ := hr.translatedBy hall
  obtain ⟨e', he', hpaddr'⟩ := hbase.entry (hinv.good i) hsize (roundUp_mod args.length) hlt
  rw [hk, he'] at he
  rw [hpaddr, ← Option.some.inj he, hpaddr']

theorem mmap_region_contiguous_twoProcesses :
    ∃ base, ∀ k r, GotAddress twoProcessesOps twoProcessesAnswers k r → id k = false →
      (r.vaddr - 0x2AAAAAAAB000).toNat < (Process.roundUp 0x1800).toNat →
      r.paddr = base + (r.vaddr - 0x2AAAAAAAB000) := by
  obtain ⟨s, hrun⟩ := twoProcesses_run
  have hmmap : (SeOp.mmap false ⟨0, 0x1800, 0x20, false, 0⟩, SeAnswer.syscall (.value 0x2AAAAAAAB000)) ∈
      twoProcessesOps.zip twoProcessesAnswers := List.mem_iff_getElem?.mpr ⟨0, rfl⟩
  obtain ⟨base, h⟩ := mmap_region_contiguous twoProcesses_fresh (by decide) twoProcesses_plain hrun hmmap
  exact ⟨base, fun k r hr hk hlt => h k r hr hk hlt⟩

end Run

end System

end MimdramLean.Proofs

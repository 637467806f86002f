import MimdramLean.Cache
import MimdramLean.Library.Precedence

/-!
# The queues of a cache

What a request and a send do to the ready lists of the two queues, and the order that these keep.
-/

namespace MimdramLean.Proofs
open Library MSHRQueue

variable {p : CacheParams} {s t : Cache p}

/-! ### Ready lists -/

section ReadyList

variable {l : List MSHR} {m : MSHR}

lemma addToReadyList_perm : (addToReadyList l m).Perm (m :: l) := by
  unfold addToReadyList
  split
  · exact List.perm_append_singleton m l
  · exact List.perm_orderedInsert _ m l

lemma mem_addToReadyList {x : MSHR} : x ∈ addToReadyList l m ↔ x = m ∨ x ∈ l := by
  rw [addToReadyList_perm.mem_iff, List.mem_cons]

lemma sublist_addToReadyList : l.Sublist (addToReadyList l m) := by
  unfold addToReadyList
  split
  · exact List.sublist_append_left l [m]
  · exact List.sublist_orderedInsert m l

/-- The test of the last entry only saves time. -/
lemma addToReadyList_eq (h : OrderedBy MSHR.readyTime l) : addToReadyList l m = insertBy MSHR.readyTime m l := by
  unfold addToReadyList
  split
  · rename_i hlast
    symm
    apply insertBy_eq_append
    rcases List.eq_nil_or_concat l with rfl | ⟨front, back, rfl⟩
    · simp
    · rw [List.concat_eq_append] at h hlast ⊢
      have hback : back.readyTime ≤ m.readyTime := by simpa using hlast
      intro x hx
      rcases List.mem_append.mp hx with hx | hx
      · exact ((List.pairwise_append.mp h).2.2 x hx back (by simp)).trans hback
      · rw [List.mem_singleton.mp hx]
        exact hback
  · rfl

lemma getNextMSHR_mem {q : MSHRQueue} {now : Nat} (h : q.getNextMSHR now = some m) : m ∈ q.readyList :=
  List.mem_of_mem_head? (Option.filter_eq_some_iff.mp h).1

lemma findPending_mem {q : MSHRQueue} {blkAddr : Nat} {secure : Bool}
    (h : q.findPending blkAddr secure = some m) : m ∈ q.readyList := List.mem_of_find?_eq_some h

end ReadyList

/-! ### Consistent queues -/

/-- The orders of the entries that wait to be sent. -/
def orders (s : Cache p) : List Nat := (s.writeBuffer.readyList ++ s.mshrQueue.readyList).map MSHR.order

/-- A cacheable miss. -/
def isMiss (m : MSHR) : Bool := !m.isUncacheable && !m.target.evictingBlock

structure Consistent (s : Cache p) : Prop where
  ordered : OrderedBy MSHR.readyTime s.writeBuffer.readyList
  nodup : (orders s).Nodup
  fresh : ∀ o ∈ orders s, o < s.order
  writes : ∀ m ∈ s.writeBuffer.readyList, isMiss m = false
  misses : ∀ m ∈ s.mshrQueue.readyList, m.target.rowOp = none

/-- Nothing waits to be sent. -/
def Quiet (s : Cache p) : Prop := s.writeBuffer.readyList = [] ∧ s.mshrQueue.readyList = []

lemma quiet_idle (tags : Tags) : Quiet (Cache.idle p tags) := ⟨rfl, rfl⟩

lemma Quiet.consistent (h : Quiet s) : Consistent s where
  ordered := by simp [h.1, OrderedBy]
  nodup := by simp [orders, h.1, h.2]
  fresh := by simp [orders, h.1, h.2]
  writes := by simp [h.1]
  misses := by simp [h.2]

lemma Consistent.lt_of_write (h : Consistent s) {m : MSHR} (hm : m ∈ s.writeBuffer.readyList) :
    m.order < s.order := h.fresh _ (List.mem_map_of_mem (List.mem_append_left _ hm))

lemma Consistent.lt_of_miss (h : Consistent s) {m : MSHR} (hm : m ∈ s.mshrQueue.readyList) :
    m.order < s.order := h.fresh _ (List.mem_map_of_mem (List.mem_append_right _ hm))

lemma Consistent.nodup_writes (h : Consistent s) : s.writeBuffer.readyList.Nodup := by
  have hnodup := h.nodup
  rw [orders, List.map_append] at hnodup
  exact (List.nodup_append.mp hnodup).1.of_map _

/-- No entry is in both queues. -/
lemma Consistent.ne (h : Consistent s) {w m : MSHR} (hw : w ∈ s.writeBuffer.readyList)
    (hm : m ∈ s.mshrQueue.readyList) : w ≠ m := by
  have hnodup := h.nodup
  rw [orders, List.map_append] at hnodup
  rintro rfl
  exact (List.nodup_append.mp hnodup).2.2 _ (List.mem_map_of_mem hw) _ (List.mem_map_of_mem hm) rfl

section Steps

variable (h : Consistent s)
include h

lemma Consistent.congr (hwrites : t.writeBuffer = s.writeBuffer) (hmisses : t.mshrQueue = s.mshrQueue)
    (horder : t.order = s.order) : Consistent t := by
  constructor
  · rw [hwrites]
    exact h.ordered
  · rw [orders, hwrites, hmisses]
    exact h.nodup
  · rw [orders, hwrites, hmisses, horder]
    exact h.fresh
  · rw [hwrites]
    exact h.writes
  · rw [hmisses]
    exact h.misses

/-- The next order is new. -/
lemma Consistent.nodup_cons {l : List Nat} (hperm : l.Perm (s.order :: orders s)) : l.Nodup := by
  rw [hperm.nodup_iff, List.nodup_cons]
  refine ⟨?_, h.nodup⟩
  intro hin
  exact lt_irrefl _ (h.fresh _ hin)

lemma Consistent.fresh_cons {l : List Nat} (hperm : l.Perm (s.order :: orders s)) :
    ∀ o ∈ l, o < s.order + 1 := by
  intro o ho
  rcases List.mem_cons.mp (hperm.mem_iff.mp ho) with rfl | ho
  · exact Nat.lt_succ_self _
  · have := h.fresh o ho
    omega

lemma Consistent.allocateWrite {m : MSHR} (horder : m.order = s.order) (hm : isMiss m = false)
    (hwrites : t.writeBuffer.readyList = addToReadyList s.writeBuffer.readyList m)
    (hmisses : t.mshrQueue = s.mshrQueue) (ht : t.order = s.order + 1) : Consistent t := by
  have hperm : (orders t).Perm (s.order :: orders s) := by
    rw [orders, hwrites, hmisses, ← horder]
    exact (addToReadyList_perm.append_right _).map MSHR.order
  constructor
  · rw [hwrites, addToReadyList_eq h.ordered]
    exact h.ordered.insertBy
  · exact h.nodup_cons hperm
  · rw [ht]
    exact h.fresh_cons hperm
  · intro x hx
    rw [hwrites] at hx
    rcases mem_addToReadyList.mp hx with rfl | hx
    · exact hm
    · exact h.writes x hx
  · rw [hmisses]
    exact h.misses

lemma Consistent.allocateMiss {m : MSHR} (horder : m.order = s.order) (hm : m.target.rowOp = none)
    (hwrites : t.writeBuffer = s.writeBuffer)
    (hmisses : t.mshrQueue.readyList = addToReadyList s.mshrQueue.readyList m) (ht : t.order = s.order + 1) :
    Consistent t := by
  have hperm : (orders t).Perm (s.order :: orders s) := by
    rw [orders, hwrites, hmisses, ← horder]
    exact ((addToReadyList_perm.append_left _).trans List.perm_middle).map MSHR.order
  constructor
  · rw [hwrites]
    exact h.ordered
  · exact h.nodup_cons hperm
  · rw [ht]
    exact h.fresh_cons hperm
  · rw [hwrites]
    exact h.writes
  · intro x hx
    rw [hmisses] at hx
    rcases mem_addToReadyList.mp hx with rfl | hx
    · exact hm
    · exact h.misses x hx

/-- Entries leave. -/
lemma Consistent.of_sublist (hwrites : t.writeBuffer.readyList.Sublist s.writeBuffer.readyList)
    (hmisses : t.mshrQueue.readyList.Sublist s.mshrQueue.readyList) (ht : t.order = s.order) :
    Consistent t := by
  have hsub : (orders t).Sublist (orders s) := (hwrites.append hmisses).map MSHR.order
  constructor
  · exact h.ordered.sublist hwrites
  · exact h.nodup.sublist hsub
  · intro o ho
    rw [ht]
    exact h.fresh o (hsub.subset ho)
  · intro m hm
    exact h.writes m (hwrites.subset hm)
  · intro m hm
    exact h.misses m (hmisses.subset hm)

/-- A target is added to an entry. -/
lemma Consistent.allocateTarget {m : MSHR} {pkt : CachePacket} (hwrites : t.writeBuffer = s.writeBuffer)
    (hmisses : t.mshrQueue = s.mshrQueue.allocateTarget m pkt) (ht : t.order = s.order + 1) : Consistent t := by
  have horders : orders t = orders s := by
    rw [orders, orders, hwrites, hmisses, MSHRQueue.allocateTarget, List.map_append, List.map_append,
      List.map_map]
    refine congrArg (_ ++ ·) (List.map_congr_left ?_)
    intro x _
    simp only [Function.comp_apply]
    split <;> rfl
  constructor
  · rw [hwrites]
    exact h.ordered
  · rw [horders]
    exact h.nodup
  · intro o ho
    rw [horders] at ho
    rw [ht]
    exact (h.fresh o ho).trans (Nat.lt_succ_self _)
  · rw [hwrites]
    exact h.writes
  · intro x hx
    rw [hmisses] at hx
    obtain ⟨y, hy, rfl⟩ := List.mem_map.mp hx
    have hrow := h.misses y hy
    split <;> exact hrow

end Steps

/-! ### Requests -/

/-- What a request that is handled at a time does to the write buffer. -/
structure Allocates (time : Nat) (s t : Cache p) : Prop where
  order_le : s.order ≤ t.order
  kept : s.writeBuffer.readyList.Sublist t.writeBuffer.readyList
  added : ∀ m ∈ t.writeBuffer.readyList, m ∈ s.writeBuffer.readyList ∨ s.order ≤ m.order ∧ m.readyTime = time
  consistent : Consistent s → Consistent t

section Requests

variable {time : Nat} {u : Cache p} {env : CacheEnv} {pkt : CachePacket}

lemma Allocates.of_eq (hwrites : t.writeBuffer = s.writeBuffer) (hmisses : t.mshrQueue = s.mshrQueue)
    (horder : t.order = s.order) : Allocates time s t where
  order_le := horder.ge
  kept := by rw [hwrites]
  added m hm := by
    rw [hwrites] at hm
    exact .inl hm
  consistent h := h.congr hwrites hmisses horder

lemma Allocates.trans (h : Allocates time s t) (h' : Allocates time t u) : Allocates time s u where
  order_le := h.order_le.trans h'.order_le
  kept := h.kept.trans h'.kept
  added m hm := by
    rcases h'.added m hm with hm | ⟨horder, htime⟩
    · exact h.added m hm
    · exact .inr ⟨h.order_le.trans horder, htime⟩
  consistent hs := h'.consistent (h.consistent hs)

/-- `allocateBufferInternal` adds an entry to one queue and leaves the other alone. -/
lemma allocateWriteBuffer_eq (h : s.allocateWriteBuffer pkt time = .ok t) :
    t.writeBuffer.readyList =
        addToReadyList s.writeBuffer.readyList (.allocate (Cache.blockAlign p pkt.addr) pkt time s.order) ∧
      t.mshrQueue = s.mshrQueue ∧ t.order = s.order + 1 ∧ t.tags = s.tags := by
  obtain ⟨_, _, h⟩ := bind_eq_ok.mp h
  obtain ⟨_, _, h⟩ := bind_eq_ok.mp h
  obtain ⟨q, hq, h⟩ := bind_eq_ok.mp h
  obtain ⟨_, _, hq⟩ := bind_eq_ok.mp hq
  cases hq
  cases h
  split <;> exact ⟨rfl, rfl, rfl, rfl⟩

lemma allocateMissBuffer_eq (h : s.allocateMissBuffer pkt time = .ok t) :
    t.mshrQueue.readyList =
        addToReadyList s.mshrQueue.readyList (.allocate (Cache.blockAlign p pkt.addr) pkt time s.order) ∧
      t.writeBuffer = s.writeBuffer ∧ t.order = s.order + 1 := by
  obtain ⟨q, hq, h⟩ := bind_eq_ok.mp h
  obtain ⟨_, _, hq⟩ := bind_eq_ok.mp hq
  cases hq
  cases h
  split <;> exact ⟨rfl, rfl, rfl⟩

lemma allocateWriteBuffer_allocates (hpkt : pkt.evictingBlock = true ∨ pkt.uncacheable = true)
    (h : s.allocateWriteBuffer pkt time = .ok t) : Allocates time s t := by
  obtain ⟨hwrites, hmisses, horder, _⟩ := allocateWriteBuffer_eq h
  have hmiss : isMiss (.allocate (Cache.blockAlign p pkt.addr) pkt time s.order) = false := by
    rcases hpkt with hpkt | hpkt <;> simp [isMiss, MSHR.allocate, hpkt]
  refine ⟨by omega, ?_, ?_, fun hs => hs.allocateWrite rfl hmiss hwrites hmisses horder⟩
  · rw [hwrites]
    exact sublist_addToReadyList
  · intro m hm
    rw [hwrites] at hm
    rcases mem_addToReadyList.mp hm with rfl | hm
    · exact .inr ⟨le_rfl, rfl⟩
    · exact .inl hm

lemma allocateMissBuffer_allocates (hrow : pkt.rowOp = none) (h : s.allocateMissBuffer pkt time = .ok t) :
    Allocates time s t := by
  obtain ⟨hmisses, hwrites, horder⟩ := allocateMissBuffer_eq h
  refine ⟨by omega, by rw [hwrites], ?_, fun hs => hs.allocateMiss rfl hrow hwrites hmisses horder⟩
  intro m hm
  rw [hwrites] at hm
  exact .inl hm

lemma coalesce_eq (s : Cache p) (m : MSHR) (pkt : CachePacket) :
    (s.coalesce m pkt).writeBuffer = s.writeBuffer ∧
      (s.coalesce m pkt).mshrQueue = s.mshrQueue.allocateTarget m pkt ∧
      (s.coalesce m pkt).order = s.order + 1 := by
  unfold Cache.coalesce
  split <;> exact ⟨rfl, rfl, rfl⟩

lemma coalesce_allocates (m : MSHR) : Allocates time s (s.coalesce m pkt) := by
  obtain ⟨hwrites, hmisses, horder⟩ := coalesce_eq s m pkt
  refine ⟨by omega, by rw [hwrites], ?_, fun hs => hs.allocateTarget hwrites hmisses horder⟩
  intro x hx
  rw [hwrites] at hx
  exact .inl hx

/-- What `access` leaves alone, and what it puts on the list of writebacks. -/
structure CacheAccessSpec (s : Cache p) (a : Cache.Accessed p) : Prop where
  writes : a.cache.writeBuffer = s.writeBuffer
  misses : a.cache.mshrQueue = s.mshrQueue
  order : a.cache.order = s.order
  evictions : ∀ w ∈ a.writebacks, w.evictingBlock = true ∧ w.rowOp = none

lemma CacheAccessSpec.allocates {a : Cache.Accessed p} (h : CacheAccessSpec s a) : Allocates time s a.cache :=
  .of_eq h.writes h.misses h.order

lemma evictBlk_evicting (blkAddr : Nat) (secure : Bool) (blk : CacheBlk) :
    (Cache.evictBlk p blkAddr secure blk).evictingBlock = true ∧
      (Cache.evictBlk p blkAddr secure blk).rowOp = none := by
  unfold Cache.evictBlk
  split <;> exact ⟨rfl, rfl⟩

lemma writebackAddrs_evictions {secure : Bool} {tags : Tags} {addrs : List Nat} :
    ∀ w ∈ (Cache.writebackAddrs p secure tags addrs).1, w.evictingBlock = true ∧ w.rowOp = none := by
  induction addrs generalizing tags with
  | nil => simp [Cache.writebackAddrs]
  | cons addr addrs ih =>
    intro w hw
    rcases List.mem_append.mp hw with hw | hw
    · unfold Cache.writebackAddr at hw
      split at hw
      · rw [List.mem_singleton.mp hw]
        exact evictBlk_evicting _ _ _
      · cases hw
    · exact ih w hw

lemma accessWriteback_spec {a : Cache.Accessed p} (h : s.accessWriteback env pkt = .ok a) : CacheAccessSpec s a := by
  obtain ⟨_, _, h⟩ := bind_eq_ok.mp h
  split at h
  · cases h
    exact ⟨rfl, rfl, rfl, List.forall_mem_nil _⟩
  · obtain ⟨frame, hframe, h⟩ := bind_eq_ok.mp h
    split at h
    · cases h
      exact ⟨rfl, rfl, rfl, List.forall_mem_nil _⟩
    · cases h
      refine ⟨rfl, rfl, rfl, ?_⟩
      unfold Cache.allocateBlock at hframe
      split at hframe
      · cases hframe
      · cases hframe
        exact List.forall_mem_nil _
      · split at hframe
        · cases hframe
        · split at hframe
          · cases hframe
          · cases hframe
            intro w hw
            rw [List.mem_singleton.mp hw]
            exact evictBlk_evicting _ _ _

lemma accessBlock_spec {a : Cache.Accessed p} (h : s.accessBlock env pkt = .ok a) : CacheAccessSpec s a := by
  unfold Cache.accessBlock at h
  split at h
  · exact accessWriteback_spec h
  · dsimp only at h
    split at h
    · cases h
      exact ⟨rfl, rfl, rfl, List.forall_mem_nil _⟩
    · split at h
      · split at h
        · obtain ⟨b, _, h⟩ := bind_eq_ok.mp h
          cases h
          exact ⟨rfl, rfl, rfl, List.forall_mem_nil _⟩
        · cases h
          exact ⟨rfl, rfl, rfl, List.forall_mem_nil _⟩
      · cases h
        exact ⟨rfl, rfl, rfl, List.forall_mem_nil _⟩

lemma access_spec {a : Cache.Accessed p} (h : s.access env pkt = .ok a) : CacheAccessSpec s a := by
  obtain ⟨_, _, h⟩ := bind_eq_ok.mp h
  split at h
  · cases h
    exact ⟨rfl, rfl, rfl, writebackAddrs_evictions⟩
  · split at h
    · split at h
      · exact accessBlock_spec h
      · obtain ⟨_, _, h⟩ := bind_eq_ok.mp h
        cases h
        exact ⟨rfl, rfl, rfl, List.forall_mem_nil _⟩
      · cases h
    · exact accessBlock_spec h

/-- Each eviction gets an entry, but for CleanEvicts, and there are no other new entries. -/
lemma doWritebacks_spec {writebacks : List CachePacket} (hevict : ∀ w ∈ writebacks, w.evictingBlock = true)
    (h : s.doWritebacks env time writebacks = .ok t) :
    Allocates time s t ∧ t.tags = s.tags ∧ t.mshrQueue = s.mshrQueue ∧
      (∀ m ∈ t.writeBuffer.readyList, m ∈ s.writeBuffer.readyList ∨ m.target ∈ writebacks) ∧
      ∀ w ∈ writebacks, w.cmd = .writeback →
        ∃ m ∈ t.writeBuffer.readyList, s.order ≤ m.order ∧ m.target = w := by
  induction writebacks generalizing s with
  | nil =>
    cases h
    exact ⟨.of_eq rfl rfl rfl, rfl, rfl, fun m hm => .inl hm, List.forall_mem_nil _⟩
  | cons wb writebacks ih =>
    obtain ⟨u, hu, h⟩ := bind_eq_ok.mp h
    have hfirst := hevict wb List.mem_cons_self
    obtain ⟨hrest, htags, hmisses, honly, hall⟩ := ih (fun w hw => hevict w (List.mem_cons_of_mem wb hw)) h
    unfold Cache.doWriteback at hu
    split at hu
    · rename_i hdropped
      cases hu
      refine ⟨hrest, htags, hmisses, ?_, ?_⟩
      · intro m hm
        exact (honly m hm).imp_right (List.mem_cons_of_mem wb)
      · intro w hw hcmd
        rcases List.mem_cons.mp hw with rfl | hw
        · rw [hcmd] at hdropped
          cases hdropped.1
        · exact hall w hw hcmd
    · obtain ⟨hwrites, humisses, horder, hutags⟩ := allocateWriteBuffer_eq hu
      refine ⟨(allocateWriteBuffer_allocates (.inl hfirst) hu).trans hrest, htags.trans hutags,
        hmisses.trans humisses, ?_, ?_⟩
      · intro m hm
        rcases honly m hm with hm | hm
        · rw [hwrites] at hm
          rcases mem_addToReadyList.mp hm with rfl | hm
          · exact .inr List.mem_cons_self
          · exact .inl hm
        · exact .inr (List.mem_cons_of_mem wb hm)
      · intro w hw hcmd
        rcases List.mem_cons.mp hw with rfl | hw
        · refine ⟨.allocate (Cache.blockAlign p w.addr) w time s.order, hrest.kept.subset ?_, le_rfl, rfl⟩
          rw [hwrites]
          exact mem_addToReadyList.mpr (.inl rfl)
        · obtain ⟨m, hm, hle, htarget⟩ := hall w hw hcmd
          exact ⟨m, hm, by omega, htarget⟩

/-- A row operation is an uncacheable write. -/
lemma rowOp_commandInfo (hrow : pkt.rowOp.isSome = true) :
    pkt.uncacheable = true ∧ pkt.isWrite = true ∧ pkt.isInvalidate = false ∧ pkt.isSWPrefetch = false := by
  obtain ⟨_, huncacheable, hcmd⟩ := pkt.ofRowOp hrow
  unfold CachePacket.isWrite CachePacket.isInvalidate CachePacket.isSWPrefetch
  rcases hcmd with hcmd | hcmd <;> rw [hcmd] <;> exact ⟨huncacheable, rfl, rfl, rfl⟩

lemma rowOp_eq_none (h : (pkt.evictingBlock || pkt.uncacheable && pkt.isWrite) = false) :
    pkt.rowOp = none := by
  by_contra hrow
  obtain ⟨huncacheable, hwrite, _⟩ := rowOp_commandInfo (Option.isSome_iff_ne_none.mpr hrow)
  simp [huncacheable, hwrite] at h

lemma hideBlock_eq {blk : Option CacheBlk} (h : s.hideBlock pkt blk = .ok t) :
    t.writeBuffer = s.writeBuffer ∧ t.mshrQueue = s.mshrQueue ∧ t.order = s.order := by
  cases blk with
  | none =>
    cases h
    exact ⟨rfl, rfl, rfl⟩
  | some blk =>
    obtain ⟨_, _, h⟩ := bind_eq_ok.mp h
    cases h
    exact ⟨rfl, rfl, rfl⟩

lemma missNew_allocates {blk : Option CacheBlk} (h : s.missNew time pkt blk = .ok t) : Allocates time s t := by
  unfold Cache.missNew at h
  split at h
  · rename_i hwrite
    apply allocateWriteBuffer_allocates _ h
    rw [Bool.or_eq_true, Bool.and_eq_true] at hwrite
    exact hwrite.imp_right And.left
  · rename_i hread
    obtain ⟨u, hu, h⟩ := bind_eq_ok.mp h
    obtain ⟨hwrites, hmisses, horder⟩ := hideBlock_eq hu
    have hrow : pkt.rowOp = none := rowOp_eq_none (by simpa using hread)
    exact (Allocates.of_eq hwrites hmisses horder).trans (allocateMissBuffer_allocates hrow h)

/-- A miss allocates at most one entry of the write buffer. -/
lemma missNew_writes {blk : Option CacheBlk} (h : s.missNew time pkt blk = .ok t) :
    t.writeBuffer.readyList = s.writeBuffer.readyList ∨
      ∃ m, m.readyTime = time ∧ t.writeBuffer.readyList = addToReadyList s.writeBuffer.readyList m := by
  unfold Cache.missNew at h
  split at h
  · exact .inr ⟨_, rfl, (allocateWriteBuffer_eq h).1⟩
  · obtain ⟨u, hu, h⟩ := bind_eq_ok.mp h
    left
    rw [(allocateMissBuffer_eq h).2.1, (hideBlock_eq hu).1]

lemma missHit_allocates {m : MSHR} (h : s.missHit m pkt = .ok t) : Allocates time s t := by
  unfold Cache.missHit at h
  split at h
  · cases h
    exact .of_eq rfl rfl rfl
  · obtain ⟨_, _, h⟩ := bind_eq_ok.mp h
    cases h
    split
    · exact .of_eq rfl rfl rfl
    · exact coalesce_allocates m

lemma missHit_writeBuffer {m : MSHR} (h : s.missHit m pkt = .ok t) : t.writeBuffer = s.writeBuffer := by
  unfold Cache.missHit at h
  split at h
  · cases h
    rfl
  · obtain ⟨_, _, h⟩ := bind_eq_ok.mp h
    cases h
    split
    · rfl
    · exact (coalesce_eq s m pkt).1

lemma handleMiss_allocates {blk : Option CacheBlk} (h : s.handleMiss time pkt blk = .ok t) :
    Allocates time s t := by
  obtain ⟨_, _, h⟩ := bind_eq_ok.mp h
  split at h
  · exact missHit_allocates h
  · exact missNew_allocates h

lemma handleMiss_writes {blk : Option CacheBlk} (h : s.handleMiss time pkt blk = .ok t) :
    t.writeBuffer.readyList = s.writeBuffer.readyList ∨
      ∃ m, m.readyTime = time ∧ t.writeBuffer.readyList = addToReadyList s.writeBuffer.readyList m := by
  obtain ⟨_, _, h⟩ := bind_eq_ok.mp h
  split at h
  · left
    rw [missHit_writeBuffer h]
  · exact missNew_writes h

/-- The two halves of a request: the evictions, and the request itself if it misses. -/
lemma recvTimingReq_split (h : s.recvTimingReq env time pkt = .ok t) :
    t = s ∨ ∃ a u, s.access env (Cache.promoteWholeLineWrites p pkt) = .ok a ∧
      a.cache.doWritebacks env time a.writebacks = .ok u ∧
      (t = u ∨ u.handleMiss time (Cache.promoteWholeLineWrites p pkt) a.blk = .ok t) := by
  unfold Cache.recvTimingReq at h
  dsimp only at h
  split at h
  · cases h
    exact .inl rfl
  · obtain ⟨a, ha, h⟩ := bind_eq_ok.mp h
    obtain ⟨u, hu, h⟩ := bind_eq_ok.mp h
    refine .inr ⟨a, u, ha, hu, ?_⟩
    split at h
    · obtain ⟨_, _, h⟩ := bind_eq_ok.mp h
      cases h
      exact .inl rfl
    · exact .inr h

lemma recvTimingReq_allocates (h : s.recvTimingReq env time pkt = .ok t) : Allocates time s t := by
  rcases recvTimingReq_split h with rfl | ⟨a, u, ha, hu, ht⟩
  · exact .of_eq rfl rfl rfl
  · have hspec := access_spec ha
    have hflush := hspec.allocates.trans (doWritebacks_spec (fun w hw => (hspec.evictions w hw).1) hu).1
    rcases ht with rfl | ht
    · exact hflush
    · exact hflush.trans (handleMiss_allocates ht)

/-- A row operation goes behind everything else that its request puts in the write buffer. -/
lemma recvTimingReq_rowOp_last (hs : Consistent s) (h : s.recvTimingReq env time pkt = .ok t) {r w : MSHR}
    (hr : r ∈ t.writeBuffer.readyList) (hrow : r.target.rowOp.isSome = true) (hrnew : s.order ≤ r.order)
    (hw : w ∈ t.writeBuffer.readyList) (hwnew : s.order ≤ w.order) (hne : w ≠ r) :
    Precedes t.writeBuffer.readyList w r := by
  have hold : ∀ m ∈ s.writeBuffer.readyList, ¬ s.order ≤ m.order := fun m hm => (hs.lt_of_write hm).not_ge
  rcases recvTimingReq_split h with rfl | ⟨a, u, ha, hu, ht⟩
  · exact absurd hrnew (hold r hr)
  have hspec := access_spec ha
  obtain ⟨hdo, _, _, honly, _⟩ := doWritebacks_spec (fun w hw => (hspec.evictions w hw).1) hu
  have hflush := hspec.allocates.trans hdo
  -- the evictions are no row operations
  have hnew : r ∉ u.writeBuffer.readyList := by
    intro hru
    rcases honly r hru with hrs | htarget
    · rw [hspec.writes] at hrs
      exact hold r hrs hrnew
    · rw [(hspec.evictions _ htarget).2] at hrow
      cases hrow
  have hmiss : u.handleMiss time (Cache.promoteWholeLineWrites p pkt) a.blk = .ok t := by
    rcases ht with rfl | ht
    · exact absurd hr hnew
    · exact ht
  rcases handleMiss_writes hmiss with hsame | ⟨m, htime, hwrites⟩
  · rw [hsame] at hr
    exact absurd hr hnew
  rw [hwrites] at hr hw ⊢
  have hm : r = m := (mem_addToReadyList.mp hr).resolve_right hnew
  subst hm
  have hwu : w ∈ u.writeBuffer.readyList := (mem_addToReadyList.mp hw).resolve_left hne
  rw [addToReadyList_eq (hflush.consistent hs).ordered]
  apply precedes_insertBy (hflush.consistent hs).ordered hwu
  rcases hflush.added w hwu with hws | ⟨_, hwtime⟩
  · exact absurd hwnew (hold w hws)
  · rw [hwtime, htime]

/-! A row operation flushes its rows and goes to the write buffer. -/

lemma promote_memInhibit : (Cache.promoteWholeLineWrites p pkt).memInhibit = pkt.memInhibit := by
  unfold Cache.promoteWholeLineWrites
  split <;> rfl

lemma promote_rowOp : (Cache.promoteWholeLineWrites p pkt).rowOp = pkt.rowOp := by
  unfold Cache.promoteWholeLineWrites
  split <;> rfl

lemma promote_secure : (Cache.promoteWholeLineWrites p pkt).secure = pkt.secure := by
  unfold Cache.promoteWholeLineWrites
  split <;> rfl

lemma access_uncacheable {a : Cache.Accessed p} (huncacheable : pkt.uncacheable = true)
    (h : s.access env pkt = .ok a) :
    a = ⟨false, none, (Cache.writebackAddrs p pkt.secure s.tags (Cache.flushAddrs p pkt)).1,
      { s with tags := (Cache.writebackAddrs p pkt.secure s.tags (Cache.flushAddrs p pkt)).2 }⟩ := by
  obtain ⟨_, _, h⟩ := bind_eq_ok.mp h
  rw [if_pos huncacheable] at h
  cases h
  rfl

lemma handleMiss_rowOp (hrow : pkt.rowOp.isSome = true) (blk : Option CacheBlk) :
    s.handleMiss time pkt blk = s.allocateWriteBuffer pkt time := by
  obtain ⟨huncacheable, hwrite, _, hprefetch⟩ := rowOp_commandInfo hrow
  simp [Cache.handleMiss, Cache.missNew, Cache.forwarded, ensure, hprefetch, huncacheable, hwrite]

lemma recvTimingReq_rowOp (hrow : pkt.rowOp.isSome = true) (hinhibit : pkt.memInhibit = false)
    (h : s.recvTimingReq env time pkt = .ok t) :
    ∃ a u, s.access env (Cache.promoteWholeLineWrites p pkt) = .ok a ∧
      a.cache.doWritebacks env time a.writebacks = .ok u ∧
      u.allocateWriteBuffer (Cache.promoteWholeLineWrites p pkt) time = .ok t := by
  have hrow' : (Cache.promoteWholeLineWrites p pkt).rowOp.isSome = true := by
    rw [promote_rowOp]
    exact hrow
  unfold Cache.recvTimingReq at h
  dsimp only at h
  rw [promote_memInhibit, hinhibit, if_neg (by decide)] at h
  obtain ⟨a, ha, h⟩ := bind_eq_ok.mp h
  obtain ⟨u, hu, h⟩ := bind_eq_ok.mp h
  have hmiss : a.satisfied = false := by
    rw [access_uncacheable (CachePacket.ofRowOp _ hrow').2.1 ha]
  rw [hmiss, if_neg (by decide), handleMiss_rowOp hrow'] at h
  exact ⟨a, u, ha, hu, h⟩

end Requests

/-! ### Sends -/

section Sends

variable {now : Nat} {m w : MSHR}

/-- It is the turn of the miss at the head of its queue. -/
def MissTurn (s : Cache p) (now : Nat) (m : MSHR) : Prop :=
  s.mshrQueue.getNextMSHR now = some m ∧ ((s.writeBuffer.getNextMSHR now).isSome = true → s.writesFirst = false)

/-- It is the turn of the write at the head of the write buffer. -/
def WriteTurn (s : Cache p) (now : Nat) (w : MSHR) : Prop :=
  s.writeBuffer.getNextMSHR now = some w ∧ ((s.mshrQueue.getNextMSHR now).isSome = true → s.writesFirst = true)

lemma getNextMSHR_of_missTurn (h : MissTurn s now m) : s.getNextMSHR now = some (s.issueMiss m) := by
  obtain ⟨hmiss, hfirst⟩ := h
  unfold Cache.getNextMSHR
  rw [hmiss]
  cases hwrite : s.writeBuffer.getNextMSHR now with
  | none => rfl
  | some w =>
    rw [hwrite] at hfirst
    simp [hfirst rfl]

lemma getNextMSHR_of_writeTurn (h : WriteTurn s now w) : s.getNextMSHR now = some (s.issueWrite w) := by
  obtain ⟨hwrite, hfirst⟩ := h
  unfold Cache.getNextMSHR
  rw [hwrite]
  cases hmiss : s.mshrQueue.getNextMSHR now with
  | none => rfl
  | some m =>
    rw [hmiss] at hfirst
    simp [hfirst rfl]

lemma getNextMSHR_cases {x : MSHRQueueIndex × MSHR} (h : s.getNextMSHR now = some x) :
    (∃ w, WriteTurn s now w ∧ x = s.issueWrite w) ∨ ∃ m, MissTurn s now m ∧ x = s.issueMiss m := by
  have hsame : ∀ {y}, s.getNextMSHR now = some y → x = y := fun hy => Option.some.inj (h.symm.trans hy)
  cases hwrite : s.writeBuffer.getNextMSHR now with
  | none =>
    cases hmiss : s.mshrQueue.getNextMSHR now with
    | none => simp [Cache.getNextMSHR, hwrite, hmiss] at h
    | some m =>
      have hturn : MissTurn s now m := ⟨hmiss, by simp [hwrite]⟩
      exact .inr ⟨m, hturn, hsame (getNextMSHR_of_missTurn hturn)⟩
  | some w =>
    by_cases hfirst : (s.mshrQueue.getNextMSHR now).isSome = true → s.writesFirst = true
    · have hturn : WriteTurn s now w := ⟨hwrite, hfirst⟩
      exact .inl ⟨w, hturn, hsame (getNextMSHR_of_writeTurn hturn)⟩
    · obtain ⟨hsome, hnot⟩ := Classical.not_imp.mp hfirst
      obtain ⟨m, hmiss⟩ := Option.isSome_iff_exists.mp hsome
      have hturn : MissTurn s now m := ⟨hmiss, fun _ => by simpa using hnot⟩
      exact .inr ⟨m, hturn, hsame (getNextMSHR_of_missTurn hturn)⟩

/-- What a send does to the ready lists. -/
inductive Sends (s : Cache p) (m : MSHR) (t : Cache p) : Prop
  | write (hm : m ∈ s.writeBuffer.readyList)
      (hwrites : t.writeBuffer.readyList = s.writeBuffer.readyList.erase m)
      (hmisses : t.mshrQueue = s.mshrQueue) (horder : t.order = s.order)
  | miss (hm : m ∈ s.mshrQueue.readyList) (hwrites : t.writeBuffer = s.writeBuffer)
      (hmisses : t.mshrQueue.readyList = s.mshrQueue.readyList.erase m) (horder : t.order = s.order)

lemma Sends.consistent (h : Sends s m t) (hs : Consistent s) : Consistent t := by
  cases h with
  | write hm hwrites hmisses horder =>
    apply hs.of_sublist _ (by rw [hmisses]) horder
    rw [hwrites]
    exact List.erase_sublist
  | miss hm hwrites hmisses horder =>
    apply hs.of_sublist (by rw [hwrites]) _ horder
    rw [hmisses]
    exact List.erase_sublist

lemma Sends.kept (h : Sends s m t) : t.writeBuffer.readyList.Sublist s.writeBuffer.readyList := by
  cases h with
  | write _ hwrites =>
    rw [hwrites]
    exact List.erase_sublist
  | miss _ hwrites => rw [hwrites]

lemma Sends.order_lt (h : Sends s m t) (hs : Consistent s) : m.order < t.order := by
  cases h with
  | write hm _ _ horder =>
    rw [horder]
    exact hs.lt_of_write hm
  | miss hm _ _ horder =>
    rw [horder]
    exact hs.lt_of_miss hm

lemma Sends.order_eq (h : Sends s m t) : t.order = s.order := by
  cases h with
  | write _ _ _ horder => exact horder
  | miss _ _ _ horder => exact horder

lemma markInService_readyList (q : MSHRQueue) : (q.markInService m).readyList = q.readyList.erase m := by
  unfold MSHRQueue.markInService
  split <;> rfl

lemma sends_write (hm : m ∈ s.writeBuffer.readyList) : Sends s m (s.markInService .writeBuffer m) := by
  unfold Cache.markInService
  dsimp only
  split <;> exact .write hm (markInService_readyList _) rfl rfl

lemma sends_miss (hm : m ∈ s.mshrQueue.readyList) : Sends s m (s.markInService .mshrs m) := by
  unfold Cache.markInService
  dsimp only
  split <;> exact .miss hm rfl (markInService_readyList _) rfl

lemma sendDeferredPacket_eq {pkt : CachePacket} (h : s.sendDeferredPacket now = .ok (t, m, pkt)) :
    ∃ idx, s.getNextMSHR now = some (idx, m) ∧ s.getTimingPacket m = .ok pkt ∧ t = s.markInService idx m := by
  unfold Cache.sendDeferredPacket at h
  split at h
  · cases h
  · rename_i idx m' hnext
    obtain ⟨pkt', hpkt, h⟩ := bind_eq_ok.mp h
    cases h
    exact ⟨idx, hnext, hpkt, rfl⟩

/-- A miss pulls out the first write of its block, wherever it stands. -/
def Pulled (s : Cache p) (now : Nat) (r : MSHR) : Prop :=
  ∃ m, MissTurn s now m ∧ s.writeBuffer.findPending m.blkAddr m.isSecure = some r

/-- The miss is next: no write of its block waits, or it is an earlier miss to the block of the write whose
turn it is. -/
def MissNext (s : Cache p) (now : Nat) (m : MSHR) : Prop :=
  (MissTurn s now m ∧ s.writeBuffer.findPending m.blkAddr m.isSecure = none) ∨
    ∃ w, WriteTurn s now w ∧ s.mshrQueue.findPending w.blkAddr w.isSecure = some m ∧ m.order < w.order

variable {pkt : CachePacket}

lemma send_of_pulled {r : MSHR} (h : s.sendDeferredPacket now = .ok (t, m, pkt)) (hr : Pulled s now r) : m = r := by
  obtain ⟨idx, hnext, _, _⟩ := sendDeferredPacket_eq h
  obtain ⟨m', hturn, hfind⟩ := hr
  rw [getNextMSHR_of_missTurn hturn, Cache.issueMiss, hfind] at hnext
  cases hnext
  rfl

lemma send_of_missNext {x : MSHR} (h : s.sendDeferredPacket now = .ok (t, m, pkt)) (hx : MissNext s now x) :
    m = x := by
  obtain ⟨idx, hnext, _, _⟩ := sendDeferredPacket_eq h
  rcases hx with ⟨hturn, hfind⟩ | ⟨w, hturn, hfind, horder⟩
  · rw [getNextMSHR_of_missTurn hturn, Cache.issueMiss, hfind] at hnext
    cases hnext
    rfl
  · rw [getNextMSHR_of_writeTurn hturn, Cache.issueWrite, hfind] at hnext
    dsimp only at hnext
    rw [if_pos horder] at hnext
    cases hnext
    rfl

/-- What is next is the head of the write buffer, a write that is pulled out, or a miss. -/
lemma next_cases {idx : MSHRQueueIndex} (h : s.getNextMSHR now = some (idx, m)) :
    (idx = .writeBuffer ∧ m ∈ s.writeBuffer.readyList ∧
        (s.writeBuffer.readyList.head? = some m ∨ Pulled s now m)) ∨
      (idx = .mshrs ∧ m ∈ s.mshrQueue.readyList ∧ MissNext s now m) := by
  rcases getNextMSHR_cases h with ⟨w, hturn, hx⟩ | ⟨m', hturn, hx⟩
  · have hhead : s.writeBuffer.readyList.head? = some w := (Option.filter_eq_some_iff.mp hturn.1).1
    unfold Cache.issueWrite at hx
    split at hx
    · rename_i conflict hfind
      split at hx
      · rename_i horder
        cases hx
        exact .inr ⟨rfl, findPending_mem hfind, .inr ⟨w, hturn, hfind, horder⟩⟩
      · cases hx
        exact .inl ⟨rfl, List.mem_of_mem_head? hhead, .inl hhead⟩
    · cases hx
      exact .inl ⟨rfl, List.mem_of_mem_head? hhead, .inl hhead⟩
  · unfold Cache.issueMiss at hx
    split at hx
    · rename_i conflict hfind
      cases hx
      exact .inl ⟨rfl, findPending_mem hfind, .inr ⟨m', hturn, hfind⟩⟩
    · rename_i hfind
      cases hx
      exact .inr ⟨rfl, getNextMSHR_mem hturn.1, .inl ⟨hturn, hfind⟩⟩

lemma send_cases (h : s.sendDeferredPacket now = .ok (t, m, pkt)) :
    (m ∈ s.writeBuffer.readyList ∧ (s.writeBuffer.readyList.head? = some m ∨ Pulled s now m)) ∨
      (m ∈ s.mshrQueue.readyList ∧ MissNext s now m) := by
  obtain ⟨idx, hnext, _, _⟩ := sendDeferredPacket_eq h
  exact (next_cases hnext).imp And.right And.right

lemma sendDeferredPacket_sends (h : s.sendDeferredPacket now = .ok (t, m, pkt)) : Sends s m t := by
  obtain ⟨idx, hnext, _, rfl⟩ := sendDeferredPacket_eq h
  rcases next_cases hnext with ⟨rfl, hm, _⟩ | ⟨rfl, hm, _⟩
  · exact sends_write hm
  · exact sends_miss hm

end Sends

end MimdramLean.Proofs

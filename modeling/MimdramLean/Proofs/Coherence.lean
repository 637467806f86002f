import MimdramLean.CoherentXBar
import MimdramLean.Proofs.CacheOrder

/-!
# Row operations and the caches beside

A row operation is snooped at address 0 and does not invalidate. The caches beside the one that it is
issued through keep what they hold of its rows.
-/

namespace MimdramLean.Proofs
open Library CacheTrace

variable {p : CacheParams} {ι : Type} [DecidableEq ι]

/-! ### Snoops -/

section Snoops

variable {s : Cache p} {pkt : CachePacket}

/-- Packets that take nothing from the caches that they are snooped in. -/
def Harmless (pkt : CachePacket) : Prop := pkt.evictingBlock = true ∨ pkt.rowOp.isSome = true

/-- A packet may differ from another in the flags that snoops set. -/
structure SameRequest (pkt pkt' : CachePacket) : Prop where
  cmd : pkt'.cmd = pkt.cmd
  addr : pkt'.addr = pkt.addr
  secure : pkt'.secure = pkt.secure
  rowOp : pkt'.rowOp = pkt.rowOp
  ofEviction : pkt.evictingBlock = true → pkt' = pkt

lemma SameRequest.refl (pkt : CachePacket) : SameRequest pkt pkt := ⟨rfl, rfl, rfl, rfl, fun _ => rfl⟩

lemma SameRequest.evictingBlock {pkt' : CachePacket} (h : SameRequest pkt pkt') :
    pkt'.evictingBlock = pkt.evictingBlock := by
  unfold CachePacket.evictingBlock
  rw [h.cmd]

lemma SameRequest.trans {pkt' pkt'' : CachePacket} (h : SameRequest pkt pkt') (h' : SameRequest pkt' pkt'') :
    SameRequest pkt pkt'' where
  cmd := h'.cmd.trans h.cmd
  addr := h'.addr.trans h.addr
  secure := h'.secure.trans h.secure
  rowOp := h'.rowOp.trans h.rowOp
  ofEviction hev := (h'.ofEviction (h.evictingBlock.trans hev)).trans (h.ofEviction hev)

lemma SameRequest.harmless {pkt' : CachePacket} (h : SameRequest pkt pkt') (hpkt : Harmless pkt) :
    Harmless pkt' := by
  rw [Harmless, h.evictingBlock, h.rowOp]
  exact hpkt

lemma setBlock_self {blk : CacheBlk} {addr : Nat} {secure : Bool} (h : s.findBlock addr secure = some blk) :
    (s.setBlock addr secure (some blk)).tags = s.tags := by
  funext a sec
  simp only [Cache.setBlock, Tags.set]
  split
  · rename_i heq
    rw [heq.1, heq.2]
    exact h.symm
  · rfl

lemma handleSnoop_harmless {sn : Cache.Snooped p} (hpkt : Harmless pkt) (h : s.handleSnoop pkt = .ok sn) :
    sn.cache.tags = s.tags ∧ SameRequest pkt sn.pkt := by
  unfold Cache.handleSnoop at h
  split at h
  · cases h
    exact ⟨rfl, .refl pkt⟩
  · rename_i blk hblk
    obtain ⟨_, _, h⟩ := bind_eq_ok.mp h
    split at h
    · cases h
      exact ⟨rfl, .refl pkt⟩
    · rename_i hev
      obtain ⟨huncacheable, _, hinvalidate, _⟩ := rowOp_commandInfo (hpkt.resolve_left hev)
      obtain ⟨_, _, h⟩ := bind_eq_ok.mp h
      obtain ⟨_, _, h⟩ := bind_eq_ok.mp h
      cases h
      refine ⟨?_, rfl, rfl, rfl, rfl, fun hev' => absurd hev' hev⟩
      have hkeep : pkt.cmd.commandInfo.isInvalidate = false := hinvalidate
      simpa [huncacheable, CachePacket.isInvalidate, hkeep] using setBlock_self hblk

lemma recvTimingSnoopReq_harmless {sn : Cache.Snooped p} (hpkt : Harmless pkt)
    (h : s.recvTimingSnoopReq pkt = .ok sn) : sn.cache.tags = s.tags ∧ SameRequest pkt sn.pkt := by
  unfold Cache.recvTimingSnoopReq at h
  split at h
  · split at h
    · cases h
      exact ⟨rfl, .refl pkt⟩
    · cases h
  · exact handleSnoop_harmless hpkt h

/-- A harmless packet leaves every cache its blocks, and the source alone. -/
lemma forwardTiming_harmless {src : ι} {caches caches' : ι → Cache p} {pkt' : CachePacket} {blockCached : Bool}
    {dests : List ι} (hpkt : Harmless pkt)
    (h : CoherentXBar.forwardTiming src caches pkt dests = .ok (caches', pkt', blockCached)) :
    (∀ j, (caches' j).tags = (caches j).tags) ∧ caches' src = caches src ∧ SameRequest pkt pkt' := by
  induction dests generalizing caches pkt blockCached with
  | nil =>
    cases h
    exact ⟨fun j => rfl, rfl, .refl _⟩
  | cons d dests ih =>
    unfold CoherentXBar.forwardTiming at h
    split at h
    · exact ih hpkt h
    · rename_i hd
      obtain ⟨sn, hsn, h⟩ := bind_eq_ok.mp h
      obtain ⟨⟨caches₁, pkt₁, cached₁⟩, hrest, h⟩ := bind_eq_ok.mp h
      cases h
      obtain ⟨htags, hsame⟩ := recvTimingSnoopReq_harmless hpkt hsn
      obtain ⟨htags', hsrc, hsame'⟩ := ih (hsame.harmless hpkt) hrest
      refine ⟨?_, ?_, hsame.trans hsame'⟩
      · intro j
        rw [htags' j]
        by_cases hj : j = d
        · rw [hj, Function.update_self, htags]
        · rw [Function.update_of_ne hj]
      · rw [hsrc, Function.update_of_ne (Ne.symm hd)]

lemma getTimingPacket_harmless {m : MSHR} (hm : Harmless m.target) (h : s.getTimingPacket m = .ok pkt) :
    pkt = m.target := by
  unfold Cache.getTimingPacket at h
  dsimp only at h
  split at h
  · obtain ⟨_, _, h⟩ := bind_eq_ok.mp h
    cases h
    rfl
  · obtain ⟨bus, hbus, h⟩ := bind_eq_ok.mp h
    have hnone : bus = none := by
      unfold Cache.getBusPacket at hbus
      split at hbus
      · cases hbus
        rfl
      · rename_i hcacheable
        obtain ⟨_, hresponse, _⟩ := bind_eq_ok.mp hbus
        rw [ensure_eq_ok] at hresponse
        exfalso
        rcases hm with hev | hrow
        · revert hresponse hev
          unfold CachePacket.needsResponse CachePacket.evictingBlock
          cases m.target.cmd <;> decide
        · simp [(m.target.ofRowOp hrow).2.1] at hcacheable
    rw [hnone] at h
    cases h
    rfl

end Snoops

/-! ### What is flushed -/

section Flushed

variable {secure : Bool} {tags : Tags} {blkAddr : Nat} {blk : CacheBlk}

lemma writebackAddrs_mem {addrs : List Nat} {addr : Nat} (hblk : tags blkAddr secure = some blk)
    (hmem : addr ∈ addrs) (haddr : Cache.blockAlign p addr = blkAddr) :
    Cache.evictBlk p blkAddr secure blk ∈ (Cache.writebackAddrs p secure tags addrs).1 := by
  induction addrs generalizing tags with
  | nil => cases hmem
  | cons first addrs ih =>
    simp only [Cache.writebackAddrs, Cache.writebackAddr]
    by_cases hfirst : Cache.blockAlign p first = blkAddr
    · rw [hfirst, hblk]
      exact List.mem_append_left _ List.mem_cons_self
    · have hrest : addr ∈ addrs := by
        rcases List.mem_cons.mp hmem with rfl | hrest
        · exact absurd haddr hfirst
        · exact hrest
      apply List.mem_append_right
      split
      · apply ih _ hrest
        simp only [Tags.set]
        rw [if_neg (fun h => hfirst h.1.symm)]
        exact hblk
      · exact ih hblk hrest

lemma evictBlk_dirty (p : CacheParams) (blkAddr : Nat) (secure : Bool) (hdirty : blk.dirty = true) :
    (Cache.evictBlk p blkAddr secure blk).cmd = .writeback ∧
      (Cache.evictBlk p blkAddr secure blk).addr = blkAddr ∧
      (Cache.evictBlk p blkAddr secure blk).secure = secure := by
  rw [Cache.evictBlk, if_pos hdirty]
  exact ⟨rfl, rfl, rfl⟩

/-- The block has a byte of one of the rows. -/
def IsBlockOf (p : CacheParams) (addrs : RowOpPayload) (blkAddr : Nat) : Prop :=
  p.blkSize ∣ blkAddr ∧ (InRow p addrs.dest blkAddr ∨ InRow p addrs.src1 blkAddr ∨ InRow p addrs.src2 blkAddr)

/-- The loop of `access` comes to every block of an aligned row. -/
lemma exists_offset {base : Nat} (hline : p.blkSize ∣ rowSize) (hbase : p.blkSize ∣ base)
    (hblk : p.blkSize ∣ blkAddr) (hin : InRow p base blkAddr) :
    ∃ i ∈ forLoop 0 rowSize p.blkSize, base + i = blkAddr := by
  have hpos : 0 < p.blkSize := Nat.pos_of_dvd_of_pos hline (by decide)
  obtain ⟨k, rfl⟩ := hbase
  obtain ⟨l, rfl⟩ := hblk
  obtain ⟨hlow, hhigh⟩ := hin
  have hkl : k ≤ l := by
    rw [← Nat.mul_succ] at hlow
    exact Nat.le_of_lt_succ (Nat.lt_of_mul_lt_mul_left hlow)
  have hsplit : p.blkSize * k + p.blkSize * (l - k) = p.blkSize * l := by
    rw [← Nat.mul_add, Nat.add_sub_cancel' hkl]
  refine ⟨p.blkSize * (l - k), (mem_forLoop hpos).mpr ⟨l - k, (Nat.zero_add _).symm, ?_⟩, hsplit⟩
  omega

lemma blockAlign_self (h : p.blkSize ∣ blkAddr) : Cache.blockAlign p blkAddr = blkAddr :=
  Nat.div_mul_cancel h

lemma mem_flushAddrs {pkt : CachePacket} {addrs : RowOpPayload} (hrow : pkt.rowOp = some addrs)
    (hline : p.blkSize ∣ rowSize)
    (haligned : p.blkSize ∣ addrs.dest ∧ p.blkSize ∣ addrs.src1 ∧ p.blkSize ∣ addrs.src2)
    (hblk : IsBlockOf p addrs blkAddr) : blkAddr ∈ Cache.flushAddrs p pkt := by
  have hmem : ∀ i ∈ forLoop 0 rowSize p.blkSize, ∀ a ∈ [addrs.dest + i, addrs.src1 + i, addrs.src2 + i],
      a ∈ Cache.flushAddrs p pkt := by
    intro i hi a ha
    rw [Cache.flushAddrs, hrow]
    exact List.mem_flatMap.mpr ⟨i, hi, ha⟩
  obtain ⟨hdvd, hin | hin | hin⟩ := hblk
  · obtain ⟨i, hi, rfl⟩ := exists_offset hline haligned.1 hdvd hin
    exact hmem i hi _ (by simp)
  · obtain ⟨i, hi, rfl⟩ := exists_offset hline haligned.2.1 hdvd hin
    exact hmem i hi _ (by simp)
  · obtain ⟨i, hi, rfl⟩ := exists_offset hline haligned.2.2 hdvd hin
    exact hmem i hi _ (by simp)

end Flushed

/-! ### Sends through the crossbar -/

/-- Without misses the head of the write buffer is sent. -/
lemma send_head {s t : Cache p} {now : Nat} {m : MSHR} {pkt : CachePacket} (hmiss : s.mshrQueue.readyList = [])
    (h : s.sendDeferredPacket now = .ok (t, m, pkt)) : s.writeBuffer.readyList.head? = some m := by
  rcases send_cases h with ⟨_, hhead | ⟨m', hturn, _⟩⟩ | ⟨hm, _⟩
  · exact hhead
  · have hm' := getNextMSHR_mem hturn.1
    rw [hmiss] at hm'
    cases hm'
  · rw [hmiss] at hm
    cases hm

/-- What holds while `src` sends what a row operation left in its write buffer; `tr` is what has happened at
`src`, and `caches` is how it all began. -/
structure XBarInv (caches : ι → Cache p) (src : ι) (x : CoherentXBar ι p) (tr : CacheTrace p) : Prop where
  cache : x.caches src = tr.cache
  trace : TraceInv tr
  noMiss : tr.cache.mshrQueue.readyList = []
  harmless : ∀ m ∈ tr.cache.writeBuffer.readyList, Harmless m.target
  recorded : ∀ m ∈ tr.cache.writeBuffer.readyList, m.target.rowOp.isSome = true → ∃ f ∈ tr.flushes, f.rowOp = m
  writebacks : ∀ f ∈ tr.flushes, ∀ w ∈ f.writebacks, w.target.cmd = .writeback
  beside : ∀ j, j ≠ src → (x.caches j).tags = (caches j).tags
  passed : ∀ m ∈ tr.sent, m.target.cmd = .writeback → m.target ∈ x.passed
  before : ∀ r ∈ x.passed, r.rowOp.isSome = true →
    ∃ f ∈ tr.flushes, f.rowOp.target.rowOp = r.rowOp ∧ ∀ w ∈ f.writebacks, Precedes x.passed w.target r

section Crossbar

variable {caches : ι → Cache p} {src : ι} {x x' : CoherentXBar ι p} {tr : CacheTrace p}

/-- What the crossbar has passed on after a packet: the packet is last, or it was a `CleanEvict` and is dropped. -/
def PassesOn (pkt pkt' : CachePacket) (before after : List CachePacket) : Prop :=
  after = before ++ [pkt'] ∨ pkt.cmd = .cleanEvict ∧ after = before

lemma PassesOn.sublist {pkt pkt' : CachePacket} {before after : List CachePacket}
    (h : PassesOn pkt pkt' before after) : before.Sublist after := by
  rcases h with h | ⟨_, h⟩
  · rw [h]
    exact List.sublist_append_left _ _
  · rw [h]

lemma PassesOn.last {pkt pkt' : CachePacket} {before after : List CachePacket}
    (h : PassesOn pkt pkt' before after) (hcmd : pkt.cmd ≠ .cleanEvict) : after = before ++ [pkt'] :=
  h.resolve_right fun hdropped => hcmd hdropped.1

/-- A packet that has not been there before is the new one. -/
lemma PassesOn.new {pkt pkt' r : CachePacket} {before after : List CachePacket}
    (h : PassesOn pkt pkt' before after) (hr : r ∈ after) (hnew : r ∉ before) :
    r = pkt' ∧ after = before ++ [pkt'] := by
  rcases h with h | ⟨_, h⟩
  · rw [h] at hr
    exact ⟨by simpa [hnew] using hr, h⟩
  · rw [h] at hr
    exact absurd hr hnew

lemma recvTimingReq_eq {dests : List ι} {pkt : CachePacket} (hpkt : Harmless pkt)
    (h : x.recvTimingReq src dests pkt = .ok x') :
    (∀ j, (x'.caches j).tags = (x.caches j).tags) ∧ ∃ pkt', SameRequest pkt pkt' ∧
      PassesOn pkt pkt' x.passed x'.passed := by
  obtain ⟨⟨caches, pkt', blockCached⟩, hforward, h⟩ := bind_eq_ok.mp h
  cases h
  obtain ⟨htags, _, hsame⟩ := forwardTiming_harmless hpkt hforward
  refine ⟨htags, pkt', hsame, ?_⟩
  dsimp only
  split
  · rename_i hdropped
    exact .inr ⟨hsame.cmd ▸ hdropped.1, rfl⟩
  · exact .inl rfl

omit [DecidableEq ι] in
/-- A row operation at the head of the write buffer is sent after its writebacks. -/
lemma XBarInv.before_head (h : XBarInv caches src x tr) {m : MSHR} {pkt : CachePacket}
    (hhead : tr.cache.writeBuffer.readyList.head? = some m) (hsame : SameRequest m.target pkt)
    (hrow : pkt.rowOp.isSome = true) :
    ∃ f ∈ tr.flushes, f.rowOp.target.rowOp = pkt.rowOp ∧
      ∀ w ∈ f.writebacks, Precedes (x.passed ++ [pkt]) w.target pkt := by
  obtain ⟨rest, hrest⟩ := List.head?_eq_some_iff.mp hhead
  have hm : m ∈ tr.cache.writeBuffer.readyList := List.mem_of_mem_head? hhead
  have hnodup : (m :: rest).Nodup := hrest ▸ h.trace.consistent.nodup_writes
  rw [hsame.rowOp] at hrow
  obtain ⟨f, hf, rfl⟩ := h.recorded m hm hrow
  refine ⟨f, hf, hsame.rowOp.symm, ?_⟩
  intro w hw
  rcases h.trace.before f hf hm w hw with hsent | hpre
  · exact precedes_append (h.passed w hsent (h.writebacks f hf w hw))
  · rw [hrest] at hpre
    exact absurd hpre (not_precedes_head hnodup)

lemma XBarInv.send {now : Nat} {dests : List ι} (h : XBarInv caches src x tr)
    (hsend : x.send src now dests = .ok x') :
    ∃ tr', XBarInv caches src x' tr' ∧ tr'.flushes = tr.flushes := by
  obtain ⟨⟨s, m, pkt⟩, hs, hsend⟩ := bind_eq_ok.mp hsend
  obtain ⟨y, hy, hsend⟩ := bind_eq_ok.mp hsend
  cases hsend
  rw [h.cache] at hs
  have hhead := send_head h.noMiss hs
  have hm : m ∈ tr.cache.writeBuffer.readyList := List.mem_of_mem_head? hhead
  obtain ⟨idx, _, hpkt, _⟩ := sendDeferredPacket_eq hs
  obtain rfl := getTimingPacket_harmless (h.harmless m hm) hpkt
  obtain ⟨htags, pkt', hsame, hpassed⟩ := recvTimingReq_eq (h.harmless m hm) hy
  have hsends := sendDeferredPacket_sends hs
  have hkept : s.writeBuffer.readyList.Sublist tr.cache.writeBuffer.readyList := hsends.kept
  refine ⟨{ tr with cache := s, sent := tr.sent ++ [m] }, ?_, rfl⟩
  constructor
  · exact Function.update_self src s y.caches
  · exact h.trace.send hs
  · cases hsends with
    | write _ _ hmisses => exact hmisses ▸ h.noMiss
    | miss hmiss =>
      rw [h.noMiss] at hmiss
      cases hmiss
  · intro m' hm'
    exact h.harmless m' (hkept.subset hm')
  · intro m' hm'
    exact h.recorded m' (hkept.subset hm')
  · exact h.writebacks
  · intro j hj
    rw [← h.beside j hj, ← htags j]
    exact congrArg Cache.tags (Function.update_of_ne hj s y.caches)
  · intro m' hm' hcmd
    rcases List.mem_append.mp hm' with hm' | hm'
    · exact hpassed.sublist.subset (h.passed m' hm' hcmd)
    · obtain rfl := List.mem_singleton.mp hm'
      have hev : m'.target.evictingBlock = true := by simp [CachePacket.evictingBlock, hcmd]
      rw [hpassed.last (by simp [hcmd]), hsame.ofEviction hev]
      simp
  · intro r hr hrow
    by_cases hold : r ∈ x.passed
    · obtain ⟨f, hf, heq, hpre⟩ := h.before r hold hrow
      exact ⟨f, hf, heq, fun w hw => (hpre w hw).mono hpassed.sublist⟩
    obtain ⟨rfl, happended⟩ := hpassed.new hr hold
    dsimp only
    rw [happended]
    exact h.before_head hhead hsame hrow

/-- The state after a row operation has come to a quiet cache. -/
lemma xbarInv_recv (hquiet : Quiet (caches src)) {env : CacheEnv} {time : Nat} {pkt : CachePacket} {t : Cache p}
    (hrow : pkt.rowOp.isSome = true) (hinhibit : pkt.memInhibit = false)
    (h : (caches src).recvTimingReq env time pkt = .ok t) :
    XBarInv caches src ⟨Function.update caches src t, []⟩ ⟨t, [], newFlushes (caches src) t⟩ := by
  obtain ⟨a, u, ha, hu, ht⟩ := recvTimingReq_rowOp hrow hinhibit h
  have hspec := access_spec ha
  obtain ⟨_, _, hmisses, honly, _⟩ := doWritebacks_spec (fun w hw => (hspec.evictions w hw).1) hu
  obtain ⟨hwrites, htmisses, _, _⟩ := allocateWriteBuffer_eq ht
  constructor
  · simp
  · simpa [start] using (traceInv_start hquiet.consistent).recv h
  · rw [htmisses, hmisses, hspec.misses]
    exact hquiet.2
  · intro m hm
    rw [hwrites] at hm
    rcases mem_addToReadyList.mp hm with rfl | hm
    · right
      rw [MSHR.allocate, promote_rowOp]
      exact hrow
    · rcases honly m hm with hold | htarget
      · rw [hspec.writes, hquiet.1] at hold
        cases hold
      · exact .inl (hspec.evictions _ htarget).1
  · intro m hm hrowm
    refine ⟨⟨m, _⟩, List.mem_map_of_mem ?_, rfl⟩
    have hnew : (caches src).order ≤ m.order := by
      rcases (recvTimingReq_allocates h).added m hm with hold | ⟨hge, _⟩
      · rw [hquiet.1] at hold
        cases hold
      · exact hge
    simp only [newWrites, List.mem_filter, decide_eq_true_eq]
    exact ⟨⟨hm, hnew⟩, hrowm⟩
  · intro f hf w hw
    exact ((mem_newFlushes hf).2 w hw).2.2
  · intro j hj
    simp [Function.update_of_ne hj]
  · simp
  · simp

end Crossbar

/-- A row operation is coherent with the caches: no cache beside holds a block of its rows, and every block of
its rows that was dirty in one of the `caches` was written back ahead of it. -/
structure RowOpCoherent (caches : ι → Cache p) (src : ι) (secure : Bool) (addrs : RowOpPayload)
    (x : CoherentXBar ι p) : Prop where
  beside : ∀ j, j ≠ src → ∀ a, IsBlockOf p addrs a → (x.caches j).tags a secure = none
  writtenBack : ∀ j a blk, IsBlockOf p addrs a → (caches j).tags a secure = some blk → blk.dirty = true →
    ∃ w r, w.cmd = .writeback ∧ w.addr = a ∧ w.secure = secure ∧ r.rowOp = some addrs ∧ Precedes x.passed w r

/-- A row operation that has passed the crossbar is coherent with the caches exactly if no cache beside the one
that it was issued through held a block of its rows. -/
theorem rowOp_coherent_iff (caches : ι → Cache p) (src : ι) (hquiet : Quiet (caches src)) (pkt : CachePacket)
    (addrs : RowOpPayload) (hrow : pkt.rowOp = some addrs) (hinhibit : pkt.memInhibit = false)
    (hline : p.blkSize ∣ rowSize)
    (haligned : p.blkSize ∣ addrs.dest ∧ p.blkSize ∣ addrs.src1 ∧ p.blkSize ∣ addrs.src2)
    (env : CacheEnv) (time : Nat) (sends : List (Nat × List ι)) (x : CoherentXBar ι p)
    (hrun : CoherentXBar.issue ⟨caches, []⟩ src env time pkt sends = .ok x)
    (hpassed : ∃ r ∈ x.passed, r.rowOp = some addrs) :
    RowOpCoherent caches src pkt.secure addrs x ↔
      ∀ j, j ≠ src → ∀ a, IsBlockOf p addrs a → (caches j).tags a pkt.secure = none := by
  obtain ⟨y, hy, hrun⟩ := bind_eq_ok.mp hrun
  obtain ⟨t, ht, hy⟩ := bind_eq_ok.mp hy
  obtain ⟨_, _, ht⟩ := bind_eq_ok.mp ht
  cases hy
  have hrow' : pkt.rowOp.isSome = true := by simp [hrow]
  obtain ⟨tr, hinv, hflushes⟩ : ∃ tr, XBarInv caches src x tr ∧ tr.flushes = newFlushes (caches src) t := by
    refine invariant_of_run _ (fun x => ∃ tr, XBarInv caches src x tr ∧ tr.flushes = _) ?_
      ⟨_, xbarInv_recv hquiet hrow' hinhibit ht, rfl⟩ hrun
    rintro x e x' ⟨tr, h, hflushes⟩ hsend
    obtain ⟨tr', h', hsame⟩ := h.send hsend
    exact ⟨tr', h', hsame.trans hflushes⟩
  constructor
  · intro hcoherent j hj a ha
    rw [← hinv.beside j hj]
    exact hcoherent.beside j hj a ha
  · intro hnone
    constructor
    · intro j hj a ha
      rw [hinv.beside j hj]
      exact hnone j hj a ha
    · intro j a blk ha hblk hdirty
      have hj : j = src := by
        by_contra hj
        rw [hnone j hj a ha] at hblk
        cases hblk
      subst hj
      obtain ⟨acc, f, hacc, hunique, _, hws⟩ := newFlushes_rowOp hquiet.consistent hrow' hinhibit ht
      obtain ⟨r, hr, hraddrs⟩ := hpassed
      obtain ⟨f', hf', _, hpre⟩ := hinv.before r hr (by simp [hraddrs])
      rw [hflushes] at hf'
      obtain rfl := (hunique f').mp hf'
      obtain ⟨hcmd, haddr, hsecure⟩ := evictBlk_dirty p a pkt.secure hdirty
      have hevicted : Cache.evictBlk p a pkt.secure blk ∈ acc.writebacks := by
        have hprow : (Cache.promoteWholeLineWrites p pkt).rowOp = some addrs := promote_rowOp.trans hrow
        rw [access_uncacheable (CachePacket.ofRowOp _ (by simp [hprow])).2.1 hacc, promote_secure]
        exact writebackAddrs_mem hblk (mem_flushAddrs hprow hline haligned ha) (blockAlign_self ha.1)
      obtain ⟨m, hm, hmw⟩ := List.mem_map.mp ((hws _).mpr ⟨hevicted, hcmd⟩)
      exact ⟨_, r, hcmd, haddr, hsecure, hraddrs, hmw ▸ hpre m hm⟩

/-- Of two caches, the second holds a dirty block of the destination row. -/
def besideDirty (i : Bool) : Cache l1 := .idle l1 (if i then dirtyAt 8192 else fun _ _ => none)

/-- The conjunction is issued through the first. -/
def issueRowAnd : Except CacheFailure (CoherentXBar Bool l1) :=
  CoherentXBar.issue ⟨besideDirty, []⟩ false nothingAbove 10 rowAndPacket [(10, [true])]

theorem rowOp_coherent_iff_besideDirty :
    ∃ x, issueRowAnd = .ok x ∧
      (RowOpCoherent besideDirty false false ⟨.rowAnd, 8192, 16384, 24576⟩ x ↔
        ∀ j, j ≠ false → ∀ a, IsBlockOf l1 ⟨.rowAnd, 8192, 16384, 24576⟩ a →
          (besideDirty j).tags a false = none) := by
  obtain ⟨x, hrun, hpassed⟩ := exists_of_okWith (x := issueRowAnd)
    (P := fun x => decide (∃ r ∈ x.passed, r.rowOp = some ⟨.rowAnd, 8192, 16384, 24576⟩)) (by decide +kernel)
  exact ⟨x, hrun, rowOp_coherent_iff besideDirty false (quiet_idle _) rowAndPacket _ rfl rfl (by decide) (by decide)
    nothingAbove 10 _ x hrun (of_decide_eq_true hpassed)⟩

/-- The conjunction has passed the crossbar, and the other cache still holds the dirty block. -/
theorem dirty_block_beside_rowOp :
    ∃ x, issueRowAnd = .ok x ∧ (∃ r ∈ x.passed, r.rowOp = some ⟨.rowAnd, 8192, 16384, 24576⟩) ∧
      ¬ RowOpCoherent besideDirty false false ⟨.rowAnd, 8192, 16384, 24576⟩ x := by
  obtain ⟨x, hrun, hx⟩ := exists_of_okWith (x := issueRowAnd)
    (P := fun x => decide ((∃ r ∈ x.passed, r.rowOp = some ⟨.rowAnd, 8192, 16384, 24576⟩) ∧
      (x.caches true).tags 8192 false ≠ none))
    (by decide +kernel)
  obtain ⟨hpassed, hheld⟩ := of_decide_eq_true hx
  refine ⟨x, hrun, hpassed, ?_⟩
  intro hcoherent
  exact hheld (hcoherent.beside true (by decide) 8192 ⟨by decide, .inl ⟨by decide, by decide⟩⟩)

end MimdramLean.Proofs

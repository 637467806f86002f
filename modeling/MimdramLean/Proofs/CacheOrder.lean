import MimdramLean.Proofs.CacheQueues

/-!
# The order in which a cache sends

The Writebacks that a row operation causes are sent before it unless a miss pulls it out of the write
buffer, and a later miss to the destination row is sent after it unless the arbiter prefers the miss.
-/

namespace MimdramLean.Proofs
open Library

variable {p : CacheParams}

/-! ### Traces -/

/-- A row operation that was accepted, with the Writebacks that `access` made for it. -/
structure Flush where
  rowOp : MSHR
  writebacks : List MSHR

/-- A cache, the entries that it has sent, in order, and the row operations that it has accepted. -/
structure CacheTrace (p : CacheParams) where
  cache : Cache p
  sent : List MSHR
  flushes : List Flush

inductive CacheEvent where
  | recv (env : CacheEnv) (forwardTime : Nat) (pkt : CachePacket)
  | send (now : Nat)

namespace CacheTrace

def start (s : Cache p) : CacheTrace p := ⟨s, [], []⟩

/-- The entries that a request adds to the write buffer. -/
def newWrites (s t : Cache p) : List MSHR := t.writeBuffer.readyList.filter fun m => s.order ≤ m.order

def newFlushes (s t : Cache p) : List Flush :=
  ((newWrites s t).filter fun r => r.target.rowOp.isSome).map fun r =>
    ⟨r, (newWrites s t).filter fun w => w.target.cmd = .writeback⟩

def step (tr : CacheTrace p) : CacheEvent → Except CacheFailure (CacheTrace p)
  | .recv env forwardTime pkt => do
    let s ← tr.cache.recvAtPort env forwardTime pkt
    return { tr with cache := s, flushes := tr.flushes ++ newFlushes tr.cache s }
  | .send now => do
    let (s, m, _) ← tr.cache.sendDeferredPacket now
    return { tr with cache := s, sent := tr.sent ++ [m] }

lemma mem_newFlushes {s t : Cache p} {f : Flush} (h : f ∈ newFlushes s t) :
    (f.rowOp ∈ t.writeBuffer.readyList ∧ s.order ≤ f.rowOp.order ∧ f.rowOp.target.rowOp.isSome = true) ∧
      ∀ w ∈ f.writebacks, w ∈ t.writeBuffer.readyList ∧ s.order ≤ w.order ∧ w.target.cmd = .writeback := by
  obtain ⟨r, hr, rfl⟩ := List.mem_map.mp h
  simp only [newWrites, List.mem_filter, decide_eq_true_eq] at hr ⊢
  exact ⟨⟨hr.1.1, hr.1.2, hr.2⟩, fun w hw => ⟨hw.1.1, hw.1.2, hw.2⟩⟩

lemma rowOp_ne_writeback {r w : MSHR} (hr : r.target.rowOp.isSome = true) (hw : w.target.cmd = .writeback) :
    w ≠ r := by
  rintro rfl
  obtain ⟨_, _, hcmd | hcmd⟩ := w.target.ofRowOp hr <;> rw [hw] at hcmd <;> cases hcmd

section RowOp

variable {s t : Cache p} {env : CacheEnv} {time : Nat} {pkt : CachePacket} (hs : Consistent s)
  (hrow : pkt.rowOp.isSome = true) (hinhibit : pkt.memInhibit = false)
  (h : s.recvTimingReq env time pkt = .ok t)
include hs hrow hinhibit h

/-- What is new in the write buffer besides the request are the evictions, and no Writeback is left out. -/
lemma newWrites_rowOp :
    ∃ a r, s.access env (Cache.promoteWholeLineWrites p pkt) = .ok a ∧
      r.target = Cache.promoteWholeLineWrites p pkt ∧ r ∈ newWrites s t ∧
      (∀ m ∈ newWrites s t, m = r ∨ m.target ∈ a.writebacks) ∧
      ∀ w ∈ a.writebacks, w.cmd = .writeback → ∃ m ∈ newWrites s t, m.target = w := by
  obtain ⟨a, u, ha, hu, ht⟩ := recvTimingReq_rowOp hrow hinhibit h
  have hspec := access_spec ha
  obtain ⟨hdo, _, _, honly, hall⟩ := doWritebacks_spec (fun w hw => (hspec.evictions w hw).1) hu
  rw [hspec.order] at hall
  rw [hspec.writes] at honly
  have hle : s.order ≤ u.order := hspec.order ▸ hdo.order_le
  have hmem : ∀ m, m ∈ newWrites s t ↔ (m = .allocate (Cache.blockAlign p
      (Cache.promoteWholeLineWrites p pkt).addr) (Cache.promoteWholeLineWrites p pkt) time u.order ∨
      m ∈ u.writeBuffer.readyList) ∧ s.order ≤ m.order := by
    intro m
    rw [newWrites, List.mem_filter, (allocateWriteBuffer_eq ht).1, mem_addToReadyList, decide_eq_true_eq]
  refine ⟨a, _, ha, rfl, (hmem _).mpr ⟨.inl rfl, hle⟩, ?_, ?_⟩
  · intro m hm
    obtain ⟨rfl | hm, hge⟩ := (hmem m).mp hm
    · exact .inl rfl
    · rcases honly m hm with hold | htarget
      · exact absurd hge (hs.lt_of_write hold).not_ge
      · exact .inr htarget
  · intro w hw hcmd
    obtain ⟨m, hm, hge, htarget⟩ := hall w hw hcmd
    exact ⟨m, (hmem m).mpr ⟨.inr hm, hge⟩, htarget⟩

/-- The row operation on record is the request, and its Writebacks are those that `access` made for it. -/
theorem newFlushes_rowOp :
    ∃ a f, s.access env (Cache.promoteWholeLineWrites p pkt) = .ok a ∧
      (∀ f', f' ∈ newFlushes s t ↔ f' = f) ∧ f.rowOp.target = Cache.promoteWholeLineWrites p pkt ∧
      ∀ w, w ∈ f.writebacks.map MSHR.target ↔ w ∈ a.writebacks ∧ w.cmd = .writeback := by
  obtain ⟨a, r, ha, htarget, hr, hnew, hall⟩ := newWrites_rowOp hs hrow hinhibit h
  have hrowr : r.target.rowOp.isSome = true := by
    rw [htarget, promote_rowOp]
    exact hrow
  refine ⟨a, ⟨r, (newWrites s t).filter fun w => w.target.cmd = .writeback⟩, ha, ?_, htarget, ?_⟩
  · intro f'
    constructor
    · intro hf'
      obtain ⟨r', hr', rfl⟩ := List.mem_map.mp hf'
      obtain ⟨hr', hrow'⟩ := List.mem_filter.mp hr'
      rcases hnew r' hr' with rfl | hevicted
      · rfl
      · rw [((access_spec ha).evictions _ hevicted).2] at hrow'
        cases hrow'
    · rintro rfl
      exact List.mem_map_of_mem (List.mem_filter.mpr ⟨hr, hrowr⟩)
  · intro w
    simp only [List.mem_map, List.mem_filter, decide_eq_true_eq]
    constructor
    · rintro ⟨m, ⟨hm, hcmd⟩, rfl⟩
      exact ⟨(hnew m hm).resolve_left (rowOp_ne_writeback hrowr hcmd), hcmd⟩
    · rintro ⟨hw, hcmd⟩
      obtain ⟨m, hm, rfl⟩ := hall w hw hcmd
      exact ⟨m, ⟨hm, hcmd⟩, rfl⟩

end RowOp

/-- A step is a request or a send. -/
lemma step_eq_ok {tr tr' : CacheTrace p} {e : CacheEvent} (h : tr.step e = .ok tr') :
    (∃ env forwardTime pkt s, e = .recv env forwardTime pkt ∧
        tr.cache.recvTimingReq env forwardTime pkt = .ok s ∧
        tr' = { tr with cache := s, flushes := tr.flushes ++ newFlushes tr.cache s }) ∨
      ∃ now s m pkt, e = .send now ∧ tr.cache.sendDeferredPacket now = .ok (s, m, pkt) ∧
        tr' = { tr with cache := s, sent := tr.sent ++ [m] } := by
  cases e with
  | recv env forwardTime pkt =>
    obtain ⟨s, hs, h⟩ := bind_eq_ok.mp h
    obtain ⟨_, _, hs⟩ := bind_eq_ok.mp hs
    cases h
    exact .inl ⟨env, forwardTime, pkt, s, rfl, hs, rfl⟩
  | send now =>
    obtain ⟨⟨s, m, pkt⟩, hs, h⟩ := bind_eq_ok.mp h
    cases h
    exact .inr ⟨now, s, m, pkt, rfl, hs, rfl⟩

end CacheTrace

open CacheTrace

/-- What every step keeps. -/
structure TraceInv (tr : CacheTrace p) : Prop where
  consistent : Consistent tr.cache
  unsent : ∀ m ∈ tr.cache.writeBuffer.readyList, m ∉ tr.sent
  fresh : ∀ m ∈ tr.sent, m.order < tr.cache.order
  known : ∀ f ∈ tr.flushes, f.rowOp ∈ tr.cache.writeBuffer.readyList ∨ f.rowOp ∈ tr.sent
  apart : ∀ f ∈ tr.flushes, f.rowOp ∉ f.writebacks
  /-- a Writeback of a row operation that waits has been sent or stands before it -/
  before : ∀ f ∈ tr.flushes, f.rowOp ∈ tr.cache.writeBuffer.readyList → ∀ w ∈ f.writebacks,
    w ∈ tr.sent ∨ Precedes tr.cache.writeBuffer.readyList w f.rowOp

lemma traceInv_start {s : Cache p} (h : Consistent s) : TraceInv (start s) where
  consistent := h
  unsent := by simp [start]
  fresh := by simp [start]
  known := by simp [start]
  apart := by simp [start]
  before := by simp [start]

section Step

variable {tr : CacheTrace p} {s : Cache p} {env : CacheEnv} {time now : Nat} {pkt : CachePacket} {m : MSHR}

lemma TraceInv.recv (h : TraceInv tr) (hs : tr.cache.recvTimingReq env time pkt = .ok s) :
    TraceInv { tr with cache := s, flushes := tr.flushes ++ newFlushes tr.cache s } := by
  have halloc := recvTimingReq_allocates hs
  constructor
  · exact halloc.consistent h.consistent
  · intro m hm hsent
    rcases halloc.added m hm with hm | ⟨hnew, _⟩
    · exact h.unsent m hm hsent
    · exact absurd (h.fresh m hsent) hnew.not_gt
  · intro m hm
    exact (h.fresh m hm).trans_le halloc.order_le
  · intro f hf
    rcases List.mem_append.mp hf with hf | hf
    · exact (h.known f hf).imp_left fun hr => halloc.kept.subset hr
    · exact .inl (mem_newFlushes hf).1.1
  · intro f hf
    rcases List.mem_append.mp hf with hf | hf
    · exact h.apart f hf
    · obtain ⟨⟨_, _, hrow⟩, hws⟩ := mem_newFlushes hf
      intro hin
      exact rowOp_ne_writeback hrow (hws _ hin).2.2 rfl
  · intro f hf hr w hw
    rcases List.mem_append.mp hf with hf | hf
    · rcases h.known f hf with hrold | hrsent
      · exact (h.before f hf hrold w hw).imp_right fun hpre => hpre.mono halloc.kept
      · rcases halloc.added _ hr with hrold | ⟨hnew, _⟩
        · exact absurd hrsent (h.unsent _ hrold)
        · exact absurd (h.fresh _ hrsent) hnew.not_gt
    · obtain ⟨⟨_, hrnew, hrow⟩, hws⟩ := mem_newFlushes hf
      obtain ⟨hwin, hwnew, hcmd⟩ := hws w hw
      exact .inr (recvTimingReq_rowOp_last h.consistent hs hr hrow hrnew hwin hwnew
        (rowOp_ne_writeback hrow hcmd))

lemma TraceInv.send (h : TraceInv tr) (hs : tr.cache.sendDeferredPacket now = .ok (s, m, pkt)) :
    TraceInv { tr with cache := s, sent := tr.sent ++ [m] } := by
  have hsends := sendDeferredPacket_sends hs
  have hcons := hsends.consistent h.consistent
  have hnodup := h.consistent.nodup_writes
  have hfresh : ∀ x ∈ tr.sent ++ [m], x.order < s.order := by
    intro x hx
    rcases List.mem_append.mp hx with hx | hx
    · rw [hsends.order_eq]
      exact h.fresh x hx
    · rw [List.mem_singleton.mp hx]
      exact hsends.order_lt h.consistent
  have hkept : ∀ {x}, x ∈ tr.sent → x ∈ tr.sent ++ [m] := fun hx => List.mem_append_left _ hx
  cases hsends with
  | write hm hwrites hmisses horder =>
    refine ⟨hcons, ?_, hfresh, ?_, h.apart, ?_⟩
    · intro x hx
      rw [hwrites] at hx
      obtain ⟨hne, hx⟩ := hnodup.mem_erase_iff.mp hx
      simpa [hne] using h.unsent x hx
    · intro f hf
      rw [hwrites]
      by_cases hfm : f.rowOp = m
      · exact .inr (by simp [hfm])
      · exact (h.known f hf).imp (fun hr => (List.mem_erase_of_ne hfm).mpr hr) hkept
    · intro f hf hr w hw
      rw [hwrites] at hr ⊢
      obtain ⟨hne, hr⟩ := hnodup.mem_erase_iff.mp hr
      rcases h.before f hf hr w hw with hsent | hpre
      · exact .inl (hkept hsent)
      · by_cases hwm : w = m
        · exact .inl (by simp [hwm])
        · exact .inr (hpre.erase hwm hne)
  | miss hm hwrites hmisses horder =>
    refine ⟨hcons, ?_, hfresh, ?_, h.apart, ?_⟩
    · intro x hx
      rw [hwrites] at hx
      simpa [h.consistent.ne hx hm] using h.unsent x hx
    · intro f hf
      rw [hwrites]
      exact (h.known f hf).imp_right hkept
    · intro f hf hr w hw
      rw [hwrites] at hr ⊢
      exact (h.before f hf hr w hw).imp_left hkept

lemma step_traceInv (tr : CacheTrace p) (e : CacheEvent) (tr' : CacheTrace p) (h : TraceInv tr)
    (hstep : tr.step e = .ok tr') : TraceInv tr' := by
  rcases step_eq_ok hstep with ⟨env, time, pkt, s, rfl, hs, rfl⟩ | ⟨now, s, m, pkt, rfl, hs, rfl⟩
  · exact h.recv hs
  · exact h.send hs

end Step

/-! ### The Writebacks of a row operation -/

/-- Every Writeback of a row operation that was sent was sent before it. -/
def WritebacksFirst (tr : CacheTrace p) : Prop :=
  ∀ f ∈ tr.flushes, f.rowOp ∈ tr.sent → ∀ w ∈ f.writebacks, Precedes tr.sent w f.rowOp

/-- A send does not pull out a row operation while one of its Writebacks waits. -/
def PullsNoRowOp (tr : CacheTrace p) : CacheEvent → Prop
  | .recv _ _ _ => True
  | .send now => ∀ f ∈ tr.flushes, Pulled tr.cache now f.rowOp →
      ∀ w ∈ f.writebacks, w ∉ tr.cache.writeBuffer.readyList

section WritebacksFirst

variable {tr : CacheTrace p} {s : Cache p} {env : CacheEnv} {time now : Nat} {pkt : CachePacket} {m : MSHR}

/-- A row operation that has just been accepted has not been sent. -/
lemma recv_writebacksFirst (h : TraceInv tr) (hfirst : WritebacksFirst tr) :
    WritebacksFirst { tr with cache := s, flushes := tr.flushes ++ newFlushes tr.cache s } := by
  intro f hf hsent w hw
  rcases List.mem_append.mp hf with hf | hf
  · exact hfirst f hf hsent w hw
  · exact absurd (h.fresh _ hsent) (mem_newFlushes hf).1.2.1.not_gt

lemma send_writebacksFirst_iff (h : TraceInv tr) (hfirst : WritebacksFirst tr)
    (hs : tr.cache.sendDeferredPacket now = .ok (s, m, pkt)) :
    WritebacksFirst { tr with cache := s, sent := tr.sent ++ [m] } ↔ PullsNoRowOp tr (.send now) := by
  constructor
  · intro hfirst' f hf hpulled w hw hwaits
    obtain rfl := send_of_pulled hs hpulled
    have hpre : Precedes (tr.sent ++ [f.rowOp]) w f.rowOp := hfirst' f hf (by simp) w hw
    rcases List.mem_append.mp hpre.mem_left with hsent | hsame
    · exact h.unsent w hwaits hsent
    · rw [List.mem_singleton.mp hsame] at hw
      exact h.apart f hf hw
  · intro hguard f hf hsent w hw
    by_cases hold : f.rowOp ∈ tr.sent
    · exact (hfirst f hf hold w hw).mono (List.sublist_append_left _ _)
    have hfm : f.rowOp = m := by simpa [hold] using hsent
    have hr := (h.known f hf).resolve_right hold
    rcases h.before f hf hr w hw with hwsent | hpre
    · rw [hfm]
      exact precedes_append hwsent
    -- the Writeback stands before the row operation, so this is not the head of the write buffer
    exfalso
    rcases send_cases hs with ⟨_, hhead | hpulled⟩ | ⟨hmiss, _⟩
    · obtain ⟨rest, hrest⟩ := List.head?_eq_some_iff.mp hhead
      rw [hrest, hfm] at hpre
      exact not_precedes_head (hrest ▸ h.consistent.nodup_writes) hpre
    · rw [← hfm] at hpulled
      exact hguard f hf hpulled w hw hpre.mem_left
    · exact h.consistent.ne hr hmiss hfm

end WritebacksFirst

lemma step_writebacksFirst_iff (tr : CacheTrace p) (e : CacheEvent) (tr' : CacheTrace p) (h : TraceInv tr)
    (hfirst : WritebacksFirst tr) (hstep : tr.step e = .ok tr') : WritebacksFirst tr' ↔ PullsNoRowOp tr e := by
  rcases step_eq_ok hstep with ⟨env, time, pkt, s, rfl, _, rfl⟩ | ⟨now, s, m, pkt, rfl, hs, rfl⟩
  · exact iff_of_true (recv_writebacksFirst h hfirst) trivial
  · exact send_writebacksFirst_iff h hfirst hs

/-- The Writebacks of every row operation are sent before it, in every state of a run, exactly if no send
pulls out a row operation while one of its Writebacks waits. -/
theorem writebacks_sent_first_iff (s : Cache p) (hs : Consistent s) (es : List CacheEvent) (tr : CacheTrace p)
    (h : runFrom CacheTrace.step (start s) es = .ok tr) :
    Along CacheTrace.step (start s) es WritebacksFirst ↔ Steps CacheTrace.step (start s) es PullsNoRowOp :=
  along_iff_steps_of_invariant CacheTrace.step TraceInv WritebacksFirst PullsNoRowOp step_traceInv
    step_writebacksFirst_iff (traceInv_start hs) (by simp [WritebacksFirst, start]) h

/-! A cache with 64-byte lines that holds one dirty block, in the destination row of a conjunction. -/

def l1 : CacheParams where
  blkSize := 64
  mshrs := 4
  writeBuffers := 8
  tgtsPerMSHR := 20
  isReadOnly := false

def dirtyAt (addr : Nat) : Tags := fun a secure =>
  if a = addr ∧ secure = false then some ⟨true, true, true⟩ else none

/-- Nothing is cached above. -/
def nothingAbove : CacheEnv := ⟨fun _ _ => false, none, false⟩

def rowAndPacket : CachePacket where
  cmd := .writeReq
  addr := 0
  size := RowOpPayload.sizeOf
  secure := false
  uncacheable := true
  rowOp := some ⟨.rowAnd, 8192, 16384, 24576⟩
  shared := false
  memInhibit := false
  ofRowOp := fun _ => ⟨rfl, rfl, .inl rfl⟩

def load (addr : Nat) : CachePacket := .ofBlock .readReq addr 8 false false

/-- A load of address 0 misses, the conjunction is accepted, and both are ready when something is sent. -/
def missThenRowOp : List CacheEvent :=
  [.recv nothingAbove 10 (load 0), .recv nothingAbove 20 rowAndPacket, .send 20]

theorem writebacks_sent_first_iff_missThenRowOp :
    Along CacheTrace.step (start (Cache.idle l1 (dirtyAt 8192))) missThenRowOp WritebacksFirst ↔
      Steps CacheTrace.step (start (Cache.idle l1 (dirtyAt 8192))) missThenRowOp PullsNoRowOp := by
  obtain ⟨tr, hrun, -⟩ := exists_of_okWith
    (x := runFrom CacheTrace.step (start (Cache.idle l1 (dirtyAt 8192))) missThenRowOp) (P := fun _ => true)
    (by decide +kernel)
  exact writebacks_sent_first_iff _ (quiet_idle _).consistent missThenRowOp tr hrun

/-- The conjunction is sent first and alone: its Writeback still waits. -/
theorem rowOp_pulled_before_writeback :
    ∃ tr, runFrom CacheTrace.step (start (Cache.idle l1 (dirtyAt 8192))) missThenRowOp = .ok tr ∧
      ¬ WritebacksFirst tr := by
  obtain ⟨tr, hrun, hbad⟩ := exists_of_okWith
    (x := runFrom CacheTrace.step (start (Cache.idle l1 (dirtyAt 8192))) missThenRowOp)
    (P := fun tr => decide (∃ f ∈ tr.flushes, f.rowOp ∈ tr.sent ∧ ∃ w ∈ f.writebacks, w ∉ tr.sent))
    (by decide +kernel)
  obtain ⟨f, hf, hsent, w, hw, hunsent⟩ := of_decide_eq_true hbad
  refine ⟨tr, hrun, ?_⟩
  intro hfirst
  exact hunsent (hfirst f hf hsent w hw).mem_left

/-! ### Later misses -/

/-- The block has a byte of the row. -/
def InRow (p : CacheParams) (base blkAddr : Nat) : Prop := base < blkAddr + p.blkSize ∧ blkAddr < base + rowSize

/-- `m` is a cacheable miss that was accepted after the row operation `r`, to a block of its destination row. -/
def LaterMiss (p : CacheParams) (r m : MSHR) : Prop :=
  isMiss m = true ∧ r.order < m.order ∧
    ∃ addrs, r.target.rowOp = some addrs ∧ m.isSecure = r.isSecure ∧ InRow p addrs.dest m.blkAddr

/-- Every miss that was accepted after a row operation and goes to its destination row is sent after it. -/
def RowOpsFirst (tr : CacheTrace p) : Prop :=
  ∀ r ∈ tr.cache.writeBuffer.readyList ++ tr.sent, ∀ m ∈ tr.sent, LaterMiss p r m → Precedes tr.sent r m

/-- While a row operation waits, no later miss to its destination row is ready at the head of the miss
queue, and no write to the block of such a miss, younger than the miss, waits with the row operation. -/
def LaterMissesHeld (tr : CacheTrace p) : CacheEvent → Prop
  | .recv _ _ _ => True
  | .send now => ∀ r ∈ tr.cache.writeBuffer.readyList, ∀ m ∈ tr.cache.mshrQueue.readyList, LaterMiss p r m →
      (tr.cache.mshrQueue.readyList.head? = some m → now < m.readyTime) ∧
      ∀ w ∈ tr.cache.writeBuffer.readyList, w.isFor m.blkAddr m.isSecure = true → w.order < m.order

section RowOpsFirst

variable {tr : CacheTrace p} {s : Cache p} {env : CacheEnv} {time now : Nat} {pkt : CachePacket} {m : MSHR}

lemma LaterMiss.notMem_writes {r : MSHR} (h : LaterMiss p r m) (hs : Consistent s) :
    m ∉ s.writeBuffer.readyList := by
  intro hm
  rw [LaterMiss, hs.writes m hm] at h
  cases h.1

lemma LaterMiss.notMem_misses {r : MSHR} (h : LaterMiss p r m) (hs : Consistent s) :
    r ∉ s.mshrQueue.readyList := by
  intro hr
  obtain ⟨_, _, addrs, hrow, _⟩ := h
  rw [hs.misses r hr] at hrow
  cases hrow

lemma recv_rowOpsFirst (h : TraceInv tr) (hfirst : RowOpsFirst tr)
    (hs : tr.cache.recvTimingReq env time pkt = .ok s) {flushes : List Flush} :
    RowOpsFirst { tr with cache := s, flushes := flushes } := by
  intro r hr m hm hlater
  rcases List.mem_append.mp hr with hr | hr
  · rcases (recvTimingReq_allocates hs).added r hr with hr | ⟨hnew, _⟩
    · exact hfirst r (List.mem_append_left _ hr) m hm hlater
    · have hlt := h.fresh m hm
      have hgt := hlater.2.1
      omega
  · exact hfirst r (List.mem_append_right _ hr) m hm hlater

/-- A miss that is next is ready at the head of the miss queue, or a younger write of its block pulls it out. -/
lemma MissNext.head_or_write (h : MissNext tr.cache now m) :
    (tr.cache.mshrQueue.readyList.head? = some m ∧ m.readyTime ≤ now) ∨
      ∃ w ∈ tr.cache.writeBuffer.readyList, w.isFor m.blkAddr m.isSecure = true ∧ m.order < w.order := by
  rcases h with ⟨⟨hhead, _⟩, _⟩ | ⟨w, ⟨hw, _⟩, hfind, horder⟩
  · obtain ⟨hhead, hready⟩ := Option.filter_eq_some_iff.mp hhead
    exact .inl ⟨hhead, of_decide_eq_true hready⟩
  · refine .inr ⟨w, getNextMSHR_mem hw, ?_, horder⟩
    have hfor := List.find?_some hfind
    simp only [MSHR.isFor, Bool.and_eq_true, beq_iff_eq] at hfor ⊢
    exact ⟨hfor.1.symm, hfor.2.symm⟩

lemma send_rowOpsFirst (h : TraceInv tr) (hfirst : RowOpsFirst tr) (hheld : LaterMissesHeld tr (.send now))
    (hs : tr.cache.sendDeferredPacket now = .ok (s, m, pkt)) :
    RowOpsFirst { tr with cache := s, sent := tr.sent ++ [m] } := by
  have hsends := sendDeferredPacket_sends hs
  intro r hr x hx hlater
  -- where the row operation is before the send
  have hr' : r ∈ tr.cache.writeBuffer.readyList ∨ r ∈ tr.sent := by
    rcases List.mem_append.mp hr with hr | hr
    · exact .inl (hsends.kept.subset hr)
    · rcases List.mem_append.mp hr with hr | hr
      · exact .inr hr
      · left
        obtain rfl := List.mem_singleton.mp hr
        cases hsends with
        | write hm => exact hm
        | miss hm => exact absurd hm (hlater.notMem_misses h.consistent)
  rcases List.mem_append.mp hx with hx | hx
  · have hold := hfirst r (List.mem_append.mpr hr') x hx hlater
    exact hold.mono (List.sublist_append_left _ _)
  · obtain rfl := List.mem_singleton.mp hx
    rcases hr' with hr' | hr'
    · exfalso
      rcases send_cases hs with ⟨hm, _⟩ | ⟨hm, hnext⟩
      · exact hlater.notMem_writes h.consistent hm
      · obtain ⟨hnotReady, hyounger⟩ := hheld r hr' x hm hlater
        rcases hnext.head_or_write with ⟨hhead, hready⟩ | ⟨w, hw, hfor, horder⟩
        · exact (hnotReady hhead).not_ge hready
        · exact (hyounger w hw hfor).not_gt horder
    · exact precedes_append hr'

/-- A later miss that is sent while its row operation waits is out of order. -/
lemma send_not_rowOpsFirst (h : TraceInv tr) {r : MSHR} (hr : r ∈ tr.cache.writeBuffer.readyList)
    (hlater : LaterMiss p r m) (hs : tr.cache.sendDeferredPacket now = .ok (s, m, pkt)) :
    ¬ RowOpsFirst { tr with cache := s, sent := tr.sent ++ [m] } := by
  intro hfirst
  cases sendDeferredPacket_sends hs with
  | write hm => exact hlater.notMem_writes h.consistent hm
  | miss hm hwrites =>
    have hrs : r ∈ s.writeBuffer.readyList ++ (tr.sent ++ [m]) := by
      rw [hwrites]
      exact List.mem_append_left _ hr
    have hpre : Precedes (tr.sent ++ [m]) r m := hfirst r hrs m (by simp) hlater
    rcases List.mem_append.mp hpre.mem_left with hsent | hsame
    · exact h.unsent r hr hsent
    · exact h.consistent.ne hr hm (List.mem_singleton.mp hsame)

end RowOpsFirst

lemma step_rowOpsFirst (tr : CacheTrace p) (e : CacheEvent) (tr' : CacheTrace p)
    (h : TraceInv tr ∧ RowOpsFirst tr) (hheld : LaterMissesHeld tr e) (hstep : tr.step e = .ok tr') :
    TraceInv tr' ∧ RowOpsFirst tr' := by
  refine ⟨step_traceInv tr e tr' h.1 hstep, ?_⟩
  rcases step_eq_ok hstep with ⟨env, time, pkt, s, rfl, hs, rfl⟩ | ⟨now, s, m, pkt, rfl, hs, rfl⟩
  · exact recv_rowOpsFirst h.1 h.2 hs
  · exact send_rowOpsFirst h.1 h.2 hheld hs

/-- In every run whose sends all find the later misses held back, no later miss to the destination row of a
row operation is sent before it. Where such a miss stands ready at the head of its queue, the next send breaks
this, unless the write buffer is full or has a write to the block of the miss. -/
theorem later_misses_sent_after_rowOp (s : Cache p) (hs : Consistent s) (es : List CacheEvent) :
    (Steps CacheTrace.step (start s) es LaterMissesHeld → Along CacheTrace.step (start s) es RowOpsFirst) ∧
    ∀ tr tr' now r m, runFrom CacheTrace.step (start s) es = .ok tr → r ∈ tr.cache.writeBuffer.readyList →
      LaterMiss p r m → tr.cache.mshrQueue.readyList.head? = some m → m.readyTime ≤ now →
      tr.cache.writeBuffer.isFull = false → tr.cache.writeBuffer.findPending m.blkAddr m.isSecure = none →
      tr.step (.send now) = .ok tr' → ¬ RowOpsFirst tr' := by
  constructor
  · intro hsteps pre u hpre hu
    have hstart : TraceInv (start s) ∧ RowOpsFirst (start s) :=
      ⟨traceInv_start hs, by simp [RowOpsFirst, start]⟩
    exact (along_of_steps CacheTrace.step step_rowOpsFirst hstart hsteps pre u hpre hu).2
  · intro tr tr' now r m hrun hr hlater hhead hready hfull hfind hstep
    have hinv := invariant_of_run CacheTrace.step TraceInv step_traceInv (traceInv_start hs) hrun
    have hnext : MissNext tr.cache now m := by
      refine .inl ⟨⟨Option.filter_eq_some_iff.mpr ⟨hhead, decide_eq_true hready⟩, fun _ => ?_⟩, hfind⟩
      rw [Cache.writesFirst, hfull, Bool.false_and]
    rcases step_eq_ok hstep with ⟨_, _, _, _, hrecv, _⟩ | ⟨_, t, x, pkt, hsend, ht, rfl⟩
    · cases hrecv
    · cases hsend
      obtain rfl := send_of_missNext ht hnext
      exact send_not_rowOpsFirst hinv hr hlater ht

/-- A load of the destination row misses after the conjunction was accepted. -/
def rowOpThenMiss : List CacheEvent :=
  [.recv nothingAbove 10 rowAndPacket, .recv nothingAbove 20 (load 8192), .send 20]

/-- The same requests, but the conjunction is sent before the load is ready. -/
def rowOpThenMissInTurn : List CacheEvent :=
  [.recv nothingAbove 10 rowAndPacket, .recv nothingAbove 20 (load 8192), .send 15, .send 20]

/-- No miss at the head of its queue is ready while a write waits, and no write is to the block of a miss. -/
def missesHeld (tr : CacheTrace p) : CacheEvent → Bool
  | .recv _ _ _ => true
  | .send now => tr.cache.writeBuffer.readyList.all fun w => tr.cache.mshrQueue.readyList.all fun m =>
      decide (now < m.readyTime) && !w.isFor m.blkAddr m.isSecure

lemma laterMissesHeld_of_missesHeld (tr : CacheTrace p) (e : CacheEvent) (h : missesHeld tr e = true) :
    LaterMissesHeld tr e := by
  cases e with
  | recv env time pkt => trivial
  | send now =>
    simp only [missesHeld, List.all_eq_true, Bool.and_eq_true, decide_eq_true_eq, Bool.not_eq_true'] at h
    intro r hr m hm _
    refine ⟨fun _ => (h r hr m hm).1, ?_⟩
    intro w hw hfor
    rw [(h w hw m hm).2] at hfor
    cases hfor

theorem later_misses_sent_after_rowOp_inTurn :
    (∃ tr, runFrom CacheTrace.step (start (Cache.idle l1 fun _ _ => none)) rowOpThenMissInTurn = .ok tr ∧
      tr.sent.map (fun m => m.blkAddr) = [0, 8192]) ∧
      Along CacheTrace.step (start (Cache.idle l1 fun _ _ => none)) rowOpThenMissInTurn RowOpsFirst := by
  constructor
  · obtain ⟨tr, hrun, hsent⟩ := exists_of_okWith
      (x := runFrom CacheTrace.step (start (Cache.idle l1 fun _ _ => none)) rowOpThenMissInTurn)
      (P := fun tr => decide (tr.sent.map (fun m => m.blkAddr) = [0, 8192])) (by decide +kernel)
    exact ⟨tr, hrun, of_decide_eq_true hsent⟩
  · refine (later_misses_sent_after_rowOp _ (quiet_idle _).consistent rowOpThenMissInTurn).1 ?_
    exact steps_of_passesSteps CacheTrace.step laterMissesHeld_of_missesHeld (by decide +kernel)

/-- The load is sent first, although the conjunction has been ready for longer. -/
theorem later_miss_overtakes_rowOp :
    ∃ tr, runFrom CacheTrace.step (start (Cache.idle l1 fun _ _ => none)) rowOpThenMiss = .ok tr ∧
      ¬ RowOpsFirst tr := by
  obtain ⟨tr, hrun, hbad⟩ := exists_of_okWith
    (x := runFrom CacheTrace.step (start (Cache.idle l1 fun _ _ => none)) rowOpThenMiss)
    (P := fun tr => decide (∃ r ∈ tr.cache.writeBuffer.readyList, ∃ m ∈ tr.sent, r ∉ tr.sent ∧ isMiss m = true ∧
      r.order < m.order ∧ m.isSecure = r.isSecure ∧ r.target.rowOp = some ⟨.rowAnd, 8192, 16384, 24576⟩ ∧
      m.blkAddr = 8192))
    (by decide +kernel)
  obtain ⟨r, hr, m, hm, hunsent, hmiss, horder, hsecure, hrow, hblk⟩ := of_decide_eq_true hbad
  refine ⟨tr, hrun, ?_⟩
  intro hfirst
  have hin : InRow l1 8192 m.blkAddr := by
    rw [hblk]
    exact ⟨by decide, by decide⟩
  exact hunsent (hfirst r (List.mem_append_left _ hr) m hm ⟨hmiss, horder, _, hrow, hsecure, hin⟩).mem_left

end MimdramLean.Proofs

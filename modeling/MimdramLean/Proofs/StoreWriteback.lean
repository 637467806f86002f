import MimdramLean.Proofs.StoreFlight

/-!
# Sending stores

`writebackStores` and `recvRetry` with their split packets: whatever the cache accepts and however many
ports there are, they end and keep the invariant. They fail no assertion, but for the one that reads `pendingPkt`,
which no constructor sets.
-/

namespace MimdramLean.Proofs

open Library LSQStores

variable {n : Nat} {p : LSQParams} {g : Ghost} {s : LSQStores n} {init : Option StorePacket}

/-! ### Packets -/

lemma StoreWrite.length_bytes {w : StoreWrite} (h : w.wellFormed = true) :
    (ProgramStore.bytes w).length = w.req.size := by
  simp only [StoreWrite.wellFormed, Bool.and_eq_true, Bool.or_eq_true, beq_iff_eq, decide_eq_true_eq] at h
  unfold ProgramStore.bytes
  split
  · exact List.length_replicate
  · rename_i hz
    rcases h.1 with h | h
    · exact h.1
    · exact absurd h hz

/-- The data that a store's entry keeps are those that it writes. -/
lemma fresh_memBytes {x : ProgramStore} {w : StoreWrite} (hw : x.written = some w) (h : w.wellFormed = true) :
    x.fresh.memBytes w.req = ProgramStore.bytes w := by
  have hlen := StoreWrite.length_bytes h
  have hslot : x.fresh = { (StoreSlot.ofInst (x.inst none)).fill w with canWB := x.canWB } := by
    rw [ProgramStore.fresh, hw]
    rfl
  rw [hslot]
  unfold StoreSlot.memBytes ProgramStore.bytes at *
  simp only [StoreSlot.fill, StoreSlot.ofInst]
  split
  · rfl
  · rename_i hz
    rw [if_neg hz] at hlen
    rw [List.take_append_of_le_length (by rw [List.length_take]; omega), List.take_take, Nat.min_self,
      ← hlen, List.take_length]

/-- The packets that `writebackStores` makes are those of the store. -/
lemma packets_fresh {x : ProgramStore} {w : StoreWrite} (hw : x.written = some w) (h : w.wellFormed = true) :
    ∃ pkt snd, LSQStores.packets (x.inst none) x.fresh w.req (ProgramStore.bytes w) = .ok (pkt, snd) ∧
      ProgramStore.packets x.seqNum w = pkt :: snd.toList ∧ x.fresh.isSplit = snd.isSome ∧
      (∀ q, snd = some q → q.req.isMmappedIpr = pkt.req.isMmappedIpr ∧ q ≠ pkt) ∧
      (w.sreqs = none → snd = none ∧ pkt.req = w.req) := by
  have hslot : x.fresh = { (StoreSlot.ofInst (x.inst none)).fill w with canWB := x.canWB } := by
    rw [ProgramStore.fresh, hw]
    rfl
  have hlen := StoreWrite.length_bytes h
  rw [hslot]
  cases hs : w.sreqs with
  | none =>
    refine ⟨.createWrite x.seqNum .whole w.req (ProgramStore.bytes w), none, ?_, ?_, ?_, ?_, fun _ => ⟨rfl, rfl⟩⟩
    · simp [LSQStores.packets, StoreSlot.fill, StoreSlot.ofInst, hs, ProgramStore.inst]
    · simp [ProgramStore.packets, hs]
    · simp [StoreSlot.fill, StoreSlot.ofInst, hs]
    · intro q hq
      exact absurd hq.symm (Option.some_ne_none q)
  | some halves =>
    obtain ⟨low, high⟩ := halves
    have hform := h
    simp only [StoreWrite.wellFormed, hs, Option.all_some, Bool.and_eq_true, beq_iff_eq] at hform
    obtain ⟨-, hsum, hipr⟩ := hform
    refine ⟨.createWrite x.seqNum .low low ((ProgramStore.bytes w).take low.size),
      some (.createWrite x.seqNum .high high ((ProgramStore.bytes w).drop low.size)), ?_, ?_, ?_, ?_, ?_⟩
    · have htake : ((ProgramStore.bytes w).drop low.size).take high.size = (ProgramStore.bytes w).drop low.size := by
        refine List.take_of_length_le ?_
        rw [List.length_drop]
        omega
      simp [LSQStores.packets, StoreSlot.fill, StoreSlot.ofInst, hs, ProgramStore.inst, htake]
    · simp [ProgramStore.packets, hs]
    · simp [StoreSlot.fill, StoreSlot.ofInst, hs]
    · intro q hq
      obtain rfl := Option.some.inj hq
      exact ⟨hipr.symm, by simp [StorePacket.createWrite]⟩
    · intro hnone
      exact absurd hnone (Option.some_ne_none _)

/-! ### Sending -/

lemma Ghost.program_done {x : ProgramStore} {xs : List ProgramStore} (hactive : g.active = x :: xs)
    (effects : List StoreEffect) : (⟨g.done ++ [(x, effects)], none, xs⟩ : Ghost).program = g.program := by
  simp [Ghost.program, Ghost.active, ← hactive]

/-- Only the flags change that say which packet waits. -/
lemma Core.flags (h : Core p g s) (retry : Option StorePacket) (blocked : Bool) (pending : Option StorePacket)
    (hasPending : Bool) (ports : Nat) :
    Core p g { s with
      retryPkt := retry, isStoreBlocked := blocked, pendingPkt := pending, hasPendingPkt := hasPending
      usedPorts := ports } :=
  ⟨h.queue.of_eq rfl rfl rfl rfl rfl rfl rfl rfl, ⟨h.flight.opened, h.flight.current, h.flight.owned,
    h.flight.single, h.flight.clear, h.flight.free⟩, h.busy, h.performed, h.done, h.stalled, h.formed⟩

/-- The sender state of the store under way learns which packet is to be sent. -/
lemma Core.setState (h : Core p g s) {b : Busy} (hcur : g.cur = some b) {st : LSQSenderState n}
    (st' : LSQSenderState n) (hst : s.senderStates b.store.seqNum = some st) (hidx : st'.idx = st.idx)
    (hout : st'.outstanding = st.outstanding) : Core p g (s.setState b.store.seqNum st') := by
  have hmem := Ghost.store_mem_active hcur
  refine ⟨h.queue.of_eq rfl rfl rfl rfl rfl rfl rfl rfl, ⟨?_, ?_, h.flight.owned, h.flight.single, h.flight.clear,
    h.flight.free⟩, h.busy, h.performed, h.done, h.stalled, h.formed⟩
  · intro i hi
    obtain ⟨sn, sti, hsn, hsti, hrest⟩ := h.flight.opened i hi
    obtain ⟨sn', hsn', -, hlt⟩ := h.queue.seqNum_lt_of_sent hi.1
    have hne : sn ≠ b.store.seqNum := by
      rw [Option.some.inj (hsn.symm.trans hsn')]
      exact (hlt b.store hmem).ne
    refine ⟨sn, sti, hsn, ?_, hrest⟩
    change Function.update s.senderStates b.store.seqNum _ sn = _
    rwa [Function.update_of_ne hne]
  · intro b' hb'
    obtain rfl := Option.some.inj (hcur.symm.trans hb')
    obtain ⟨st₀, hst₀, hidx₀, hout₀, hle₀⟩ := h.flight.current b hcur
    obtain rfl := Option.some.inj (hst.symm.trans hst₀)
    exact ⟨st', Function.update_self .., hidx.trans hidx₀, hout.trans hout₀, hout.symm ▸ hle₀⟩

/-- The last packet of a store is sent, and the store with it. -/
lemma Core.sendLast (h : Core p g s) {b : Busy} (hcur : g.cur = some b) {pkt : StorePacket} (hus : b.unsent = [pkt])
    (hretry : s.retryPkt = none) (env : StoreEnv) :
    ∃ t, s.sendLast p env pkt = .ok t ∧ t.pendingPkt = s.pendingPkt ∧ t.hasPendingPkt = s.hasPendingPkt ∧
      t.usedPorts = s.usedPorts ∧
      ((∃ effects, Core p ⟨g.done ++ [(b.store, effects)], none, g.rest⟩ t ∧ t.retryPkt = none ∧
          t.isStoreBlocked = s.isStoreBlocked) ∨
        Core p g t ∧ t.retryPkt = some pkt ∧ t.isStoreBlocked = true ∧ t.senderStates = s.senderStates) := by
  by_cases hsend : env.sendTimingReq pkt = true
  · obtain ⟨hcore, hpos⟩ := h.accept hcur hus
    obtain ⟨t, hrun, hcore', h1, h2, h3, h4, h5⟩ := hcore.storePostSend rfl rfl hpos
    refine ⟨t, ?_, h3, h4, h5, .inl ⟨_, hcore', h1.trans hretry, h2⟩⟩
    simp only [LSQStores.sendLast, sendStore, if_pos hsend, ok_bind]
    exact hrun
  · refine ⟨{ s with isStoreBlocked := true, retryPkt := some pkt }, ?_, rfl, rfl, rfl,
      .inr ⟨h.flags (some pkt) true s.pendingPkt s.hasPendingPkt s.usedPorts, rfl, rfl, rfl⟩⟩
    simp only [LSQStores.sendLast, sendStore, if_neg hsend, hretry, ensure, if_true, ok_bind]
    rfl

/-- What `pendingPkt` may be when no packet waits for a port: null, or what memory held there when the unit was
made. -/
def NoPending (init pending : Option StorePacket) : Prop := pending = none ∨ pending = init

lemma NoPending.of_eq {init a b : Option StorePacket} (h : NoPending init a) (heq : b = a) : NoPending init b := heq ▸ h

/-- The computation returns, or meets a `pendingPkt` that was not null when the unit was made. -/
def Ends {α : Type} (init : Option StorePacket) (x : Except StoreFailure α) (Q : α → Prop) : Prop :=
  init ≠ none ∧ x = .error .pendingPending ∨ ∃ a, x = .ok a ∧ Q a

lemma Ends.mono {α : Type} {x : Except StoreFailure α} {Q Q' : α → Prop} (h : Ends init x Q) (hQ : ∀ a, Q a → Q' a) :
    Ends init x Q' :=
  h.imp_right fun ⟨a, ha, hq⟩ => ⟨a, ha, hQ a hq⟩

lemma Ends.bind {α β : Type} {x : Except StoreFailure α} {f : α → Except StoreFailure β} {Q : α → Prop} {R : β → Prop}
    (h : Ends init x Q) (hf : ∀ a, Q a → Ends init (f a) R) : Ends init (x >>= f) R := by
  rcases h with ⟨hinit, rfl⟩ | ⟨a, rfl, ha⟩
  · exact .inl ⟨hinit, rfl⟩
  · exact hf a ha

/-- No packet waits. -/
def Idle (init : Option StorePacket) (s : LSQStores n) : Prop :=
  s.retryPkt = none ∧ s.isStoreBlocked = false ∧ NoPending init s.pendingPkt ∧ s.hasPendingPkt = false

/-- Which packet waits between two calls: none, one for a port, or one for the cache. -/
inductive Control (init : Option StorePacket) (g : Ghost) (s : LSQStores n) : Prop
  | idle : g.cur = none → Idle init s → Control init g s
  | waits {b : Busy} {pkt : StorePacket} {st : LSQSenderState n} : g.cur = some b → b.unsent = [pkt] →
    s.pendingPkt = some pkt → s.hasPendingPkt = true → s.retryPkt = none → s.isStoreBlocked = false →
    s.senderStates b.store.seqNum = some st → st.pktToSend = false → Control init g s
  | blocked {b : Busy} {pkt : StorePacket} {us : List StorePacket} {st : LSQSenderState n} : g.cur = some b →
    b.unsent = pkt :: us → s.retryPkt = some pkt → s.isStoreBlocked = true →
    NoPending init s.pendingPkt → s.hasPendingPkt = false → s.senderStates b.store.seqNum = some st →
    (us = [] ∧ (st.pktToSend = false ∨ st.pendingPacket = some pkt) ∨
      ∃ snd, us = [snd] ∧ st.pktToSend = true ∧ st.pendingPacket = some snd ∧ snd ≠ pkt) → Control init g s

/-- The state after something was sent, or tried to: at least `ports` ports are used, and at most `left`
stores are not done. -/
def Wrote (p : LSQParams) (init : Option StorePacket) (prog : List ProgramStore) (ports left : Nat)
    (t : LSQStores n) : Prop :=
  ∃ g : Ghost, g.program = prog ∧ Core p g t ∧ Control init g t ∧ ports ≤ t.usedPorts ∧ g.active.length ≤ left ∧
    (t.hasPendingPkt = true → p.cachePorts ≤ t.usedPorts)

/-- What `writebackStores` does with the packets of a store. -/
lemma Core.sendPackets (h : Core p g s) {b : Busy} (hcur : g.cur = some b) (hacc : b.accepted = [])
    {pkt : StorePacket} {snd : Option StorePacket} (hus : b.unsent = pkt :: snd.toList)
    (hsnd : ∀ q, snd = some q → q.req.isMmappedIpr = pkt.req.isMmappedIpr ∧ q ≠ pkt) (hidle : Idle init s)
    (hsc : b.store.isStoreConditional = true → pkt.req.isMmappedIpr = false)
    (hzero : inFlightOf s b.store.seqNum = 0) {st : LSQSenderState n}
    (hst : s.senderStates b.store.seqNum = some st) (hsend : st.pktToSend = false) (env : StoreEnv) (m) :
    Ends init (s.sendPackets p env (b.store.inst m) pkt snd)
      (Wrote p init g.program s.usedPorts g.active.length) := by
  have hb := h.busy b hcur
  have hactive := Ghost.active_of_cur hcur
  have hlen : g.rest.length ≤ g.active.length := by
    rw [hactive]
    exact Nat.le_succ _
  obtain ⟨hi1, hi2, hi3, hi4⟩ := hidle
  have hnoPending : ∀ {t : LSQStores n},
      t.hasPendingPkt = false → t.hasPendingPkt = true → p.cachePorts ≤ t.usedPorts :=
    fun h1 h2 => absurd (h1.symm.trans h2) Bool.false_ne_true
  unfold LSQStores.sendPackets
  by_cases hipr : pkt.req.isMmappedIpr = true
  · -- the registers are written at once
    have hnsc : (b.store.inst m).isStoreConditional = false := by
      cases hc : b.store.isStoreConditional with
      | false => exact hc
      | true => exact absurd (hipr.symm.trans (hsc hc)) Bool.false_ne_true.symm
    obtain ⟨w, hw, hpk⟩ := hb.packets
    rw [hacc, List.nil_append, hus] at hpk
    have heff : b.store.Performs ((pkt :: snd.toList).map .iprWrite) := by
      rw [← hpk]
      refine .iprWrites hb.size hw ?_
      rw [hpk]
      intro q hq
      rcases List.mem_cons.mp hq with rfl | hq
      · exact hipr
      · exact ((hsnd q (Option.mem_toList.mp hq)).1).trans hipr
    obtain ⟨t, hrun, hcore, h1, h2, h3, h4, h5⟩ := h.skipStore hactive (by rw [Ghost.slots, hcur]; rfl) hb.canWB
      (fun b' hb' => by rw [← Option.some.inj (hcur.symm.trans hb')]; exact hacc) hzero
      (fun htso => h.flight.free htso (by rw [hcur]; rfl)) heff
    refine .inr ⟨t, ?_, ⟨_, Ghost.program_done hactive _, hcore, .idle rfl ⟨h1.trans hi1, h2.trans hi2, hi3.of_eq h3,
      h4.trans hi4⟩, h5.ge, hlen, hnoPending (h4.trans hi4)⟩⟩
    rw [if_pos hipr]
    simp only [hnsc, ensure, if_true, ok_bind]
    cases snd with
    | none => exact hrun
    | some q =>
      have hq := (hsnd q rfl).1.trans hipr
      simp only [hq, if_true, ok_bind]
      simp only [Option.toList_some, List.map_cons, List.map_nil] at hrun
      simp only [perform, List.append_assoc, List.singleton_append]
      exact hrun
  · rw [if_neg hipr]
    by_cases hsent : env.sendTimingReq pkt = true
    · simp only [sendStore, if_pos hsent, ok_bind]
      obtain ⟨hcore, hpos⟩ := h.accept hcur hus
      cases snd with
      | none =>
        obtain ⟨t, hrun, hcore', h1, h2, h3, h4, h5⟩ := hcore.storePostSend rfl rfl hpos
        exact .inr ⟨t, hrun, _, Ghost.program_done hactive _, hcore', .idle rfl ⟨h1.trans hi1, h2.trans hi2,
          hi3.of_eq h3, h4.trans hi4⟩, h5.ge, hlen, hnoPending (h4.trans hi4)⟩
      | some q =>
        have hactive' := Ghost.active_update hcur { b with accepted := b.accepted ++ [pkt], unsent := [q] } rfl
        have hprog := Ghost.program_update hcur { b with accepted := b.accepted ++ [pkt], unsent := [q] } rfl
        by_cases hports : (s.accept pkt).usedPorts < p.cachePorts
        · simp only [if_true, if_pos hports]
          obtain ⟨t, hrun, h1, h2, h3, hcases⟩ := (hcore.flags none false s.pendingPkt false
            ((s.accept pkt).usedPorts + 1)).sendLast rfl rfl rfl env
          have hsame : ({ s.accept pkt with
              retryPkt := none, isStoreBlocked := false, pendingPkt := s.pendingPkt, hasPendingPkt := false
              usedPorts := (s.accept pkt).usedPorts + 1 } : LSQStores n) =
              { s.accept pkt with usedPorts := (s.accept pkt).usedPorts + 1 } := by
            simp only [LSQStores.accept, perform, hi1, hi2, hi4]
          have hports' : s.usedPorts ≤ t.usedPorts := by
            rw [h3]
            exact Nat.le_succ _
          rw [hsame] at hrun
          refine .inr ⟨t, hrun, ?_⟩
          rcases hcases with ⟨effects, hc, hr, hbk⟩ | ⟨hc, hr, hbk, hss⟩
          · exact ⟨_, (Ghost.program_done (hactive'.trans hactive) effects).trans hprog, hc,
              .idle rfl ⟨hr, hbk, hi3.of_eq h1, h2⟩, hports', hlen, hnoPending h2⟩
          · have hst' : t.senderStates b.store.seqNum = some st := by
              rw [hss]
              exact hst
            refine ⟨_, hprog, hc, .blocked rfl rfl hr hbk (hi3.of_eq h1) h2 hst' (.inl ⟨rfl, .inl hsend⟩), hports',
              ?_, hnoPending h2⟩
            rw [hactive', hactive]
        · simp only [if_true, if_neg hports]
          -- the only place where the value of `pendingPkt` matters while no packet waits
          by_cases hpend : (s.accept pkt).pendingPkt = none
          · refine .inr ⟨_, ?_, _, hprog, hcore.flags none false (some q) true s.usedPorts,
              .waits rfl rfl rfl rfl rfl rfl hst hsend, le_rfl, ?_, fun _ => not_lt.mp hports⟩
            · simp only [hpend, ensure, if_true, ok_bind]
              simp only [LSQStores.accept, perform, hi1, hi2]
            · rw [hactive', hactive]
          · have hinit : s.pendingPkt = init := hi3.resolve_left hpend
            refine .inl ⟨hinit ▸ hpend, ?_⟩
            simp only [ensure, if_neg hpend]
            rfl
    · simp only [sendStore, if_neg hsent, hi1, ensure, if_true, ok_bind]
      have hcore := h.flags (some pkt) true s.pendingPkt s.hasPendingPkt s.usedPorts
      cases snd with
      | none =>
        exact .inr ⟨_, rfl, g, rfl, hcore, .blocked hcur hus rfl rfl hi3 hi4 hst (.inl ⟨rfl, .inl hsend⟩), le_rfl,
          le_rfl, hnoPending hi4⟩
      | some q =>
        obtain ⟨w, hw, hpk⟩ := hb.packets
        have hqsn : q.seqNum = b.store.seqNum := by
          refine hb.seqNum ?_
          rw [hus]
          exact List.mem_cons_of_mem _ (List.mem_singleton_self q)
        have hstate : stateOf { s with isStoreBlocked := true, retryPkt := some pkt } q = .ok st := by
          rw [stateOf, hqsn, hst]
        simp only [Bool.false_eq_true, if_false, hstate, ok_bind]
        refine .inr ⟨_, rfl, g, rfl, hcore.setState hcur _ hst rfl rfl, .blocked hcur hus rfl rfl hi3 hi4
          (Function.update_self ..) (.inr ⟨q, rfl, rfl, rfl, (hsnd q rfl).2⟩), le_rfl, le_rfl, hnoPending hi4⟩

/-- The packets of the first store that is not done are made. -/
lemma Core.issue (h : Core p g s) (hcur : g.cur = none) {x : ProgramStore} {xs : List ProgramStore}
    (hrest : g.rest = x :: xs) (hcan : x.canWB = true) (hsize : x.size ≠ 0) (hprefetch : x.isDataPrefetch = false)
    {w : StoreWrite} (hw : x.written = some w) {pkts : List StorePacket}
    (hpkts : ProgramStore.packets x.seqNum w = pkts) (hlen : pkts.length ≤ 2)
    (htso : p.needsTSO = true → s.storeInFlight = false) (noWB isSplit : Bool) :
    Core p ⟨g.done, some ⟨x, [], pkts⟩, xs⟩ ((s.setSlot s.storeWBIdx x.issued).setState x.seqNum
      ⟨s.storeWBIdx, pkts.length, noWB, isSplit, false, none⟩) ∧ inFlightOf s x.seqNum = 0 := by
  have hactive : g.active = x :: xs := (Ghost.active_of_idle hcur).trans hrest
  have hslots : g.slots = x.fresh :: xs.map ProgramStore.fresh := by
    rw [Ghost.slots_of_idle hcur, hrest, List.map_cons]
  have hmem : x ∈ g.active := by
    rw [hactive]
    exact List.mem_cons_self
  have hzero := h.inFlightOf_eq_zero hmem (fun b hb => absurd (hcur.symm.trans hb).symm (Option.some_ne_none b))
  have hw' := h.queue.waiting
  have hne := h.queue.ne_tail hmem
  have hwait : s.waiting = s.storeWBIdx :: Ring.window (Ring.next s.storeWBIdx) s.storeTail := Ring.window_pop hne
  rw [hwait, List.map_cons, hslots, List.cons.injEq] at hw'
  have hnd := Ring.nodup_window s.storeWBIdx s.storeTail
  have hnotMem : s.storeWBIdx ∉ Ring.window (Ring.next s.storeWBIdx) s.storeTail := by
    rw [Ring.window_pop hne, List.nodup_cons] at hnd
    exact hnd.1
  have hqueue : QueueOk ⟨g.done, some ⟨x, [], pkts⟩, xs⟩
      { s with storeQueue := Function.update s.storeQueue s.storeWBIdx x.issued, storesToWB := s.storesToWB } := by
    refine h.queue.update ?_ ?_ rfl ?_ ?_
    · intro i hi
      refine Function.update_of_ne ?_ _ _
      rintro rfl
      refine hi ?_
      rw [hwait]
      exact List.mem_cons_self
    · rw [hwait, List.map_cons, Function.update_self, Ring.map_update_of_notMem hnotMem, hw'.2]
      rfl
    · rw [hactive]
      rfl
    · rw [hwait, List.countP_cons, List.countP_cons, Ring.countP_update_of_notMem hnotMem, Function.update_self,
        hw'.1]
      simp [pend]
  have hopen : ∀ i, Open ((s.setSlot s.storeWBIdx x.issued).setState x.seqNum
      ⟨s.storeWBIdx, pkts.length, noWB, isSplit, false, none⟩) i ↔ Open s i := by
    intro i
    refine and_congr_right fun hi => ?_
    have hne' : i ≠ s.storeWBIdx := ne_of_mem_of_not_mem hi (Ring.not_mem_window_right s.storeHead s.storeWBIdx)
    change opens (Function.update s.storeQueue s.storeWBIdx x.issued i) = true ↔ _
    rw [Function.update_of_ne hne']
  have hseq : ∀ i ∈ Ring.window s.storeHead s.storeWBIdx,
      seqNumAt ((s.setSlot s.storeWBIdx x.issued).setState x.seqNum
        ⟨s.storeWBIdx, pkts.length, noWB, isSplit, false, none⟩) i = s.seqNumAt i := by
    intro i hi
    change (Function.update s.storeQueue s.storeWBIdx x.issued i).inst.map _ = _
    rw [Function.update_of_ne (ne_of_mem_of_not_mem hi (Ring.not_mem_window_right _ _))]
    rfl
  refine ⟨⟨hqueue.of_eq rfl rfl rfl rfl rfl rfl rfl rfl, FlightOk.of_iff (O := Open s) ⟨?_, ?_, ?_, h.flight.single,
    h.flight.clear, fun h1 _ => htso h1⟩ hopen, ?_, ?_, h.done, ?_, ?_⟩, hzero⟩
  · intro i hi
    obtain ⟨sn, st, hsn, hst, hrest'⟩ := h.flight.opened i hi
    obtain ⟨sn', hsn', -, hlt⟩ := h.queue.seqNum_lt_of_sent hi.1
    have hne' : sn ≠ x.seqNum := by
      rw [Option.some.inj (hsn.symm.trans hsn')]
      exact (hlt x hmem).ne
    refine ⟨sn, st, (hseq i hi.1).trans hsn, ?_, hrest'⟩
    change Function.update s.senderStates x.seqNum _ sn = _
    rwa [Function.update_of_ne hne']
  · intro b hb
    obtain rfl := Option.some.inj hb
    refine ⟨_, Function.update_self .., rfl, ?_, hlen⟩
    change pkts.length = inFlightOf s x.seqNum + pkts.length
    rw [hzero, Nat.zero_add]
  · intro pkt hpkt
    rcases h.flight.owned pkt hpkt with ⟨i, hi, hsn⟩ | ⟨b, hb, -⟩
    · exact .inl ⟨i, hi, (hseq i hi.1).trans hsn⟩
    · exact absurd (hcur.symm.trans hb).symm (Option.some_ne_none b)
  · intro b hb
    obtain rfl := Option.some.inj hb
    exact ⟨hcan, hsize, hprefetch, w, hw, hpkts⟩
  · change s.performed = _
    rw [h.performed, hcur]
    rfl
  · intro st hst
    have hok := h.stalled st hst
    rw [StallOk, hactive] at hok
    exact hok
  · have hformed := h.formed
    rw [hactive] at hformed
    exact hformed

/-- The first store that is not done, neither empty nor a prefetch, is sent. -/
lemma Core.issueStore (h : Core p g s) (hcur : g.cur = none) {x : ProgramStore} {xs : List ProgramStore}
    (hrest : g.rest = x :: xs) (hcan : x.canWB = true) (hsize : x.size ≠ 0) (hprefetch : x.isDataPrefetch = false)
    (hidle : Idle init s) (htso : p.needsTSO = true → s.storeInFlight = false) (env : StoreEnv) :
    Ends init (s.issueStore p env (x.inst none)) (Wrote p init g.program s.usedPorts g.active.length) := by
  have hactive : g.active = x :: xs := (Ghost.active_of_idle hcur).trans hrest
  have hmem : x ∈ g.active := by
    rw [hactive]
    exact List.mem_cons_self
  have hslot := h.queue.slot_fresh hcur hrest
  obtain ⟨w, hw⟩ : ∃ w, x.written = some w := by
    cases hw : x.written with
    | none => exact absurd (by rw [ProgramStore.size, hw]; rfl) hsize
    | some w => exact ⟨w, rfl⟩
  obtain ⟨hform, hsc⟩ := h.formed x hmem w hw
  obtain ⟨pkt, snd, hpackets, hpkts, hsplit, hsnd, hwhole⟩ := packets_fresh hw hform
  have hlen : (pkt :: snd.toList).length = if x.fresh.isSplit then 2 else 1 := by
    rw [hsplit]
    cases snd <;> rfl
  obtain ⟨hcore, hzero⟩ := h.issue hcur hrest hcan hsize hprefetch hw hpkts (by rw [hlen]; split <;> omega) htso
    (!x.isStoreConditional) x.fresh.isSplit
  have hissued : s.markCommitted (x.inst none) (ProgramStore.bytes w) = s.setSlot s.storeWBIdx x.issued := by
    rw [markCommitted, hslot, ProgramStore.issued, hw]
    rfl
  have hprog : (⟨g.done, some ⟨x, [], pkt :: snd.toList⟩, xs⟩ : Ghost).program = g.program := by
    rw [Ghost.program, Ghost.program, hactive]
    rfl
  have hsend := hcore.sendPackets rfl rfl rfl hsnd hidle
    (fun hc => by
      obtain ⟨hnone, hnipr⟩ := hsc hc
      rw [(hwhole hnone).2]
      exact hnipr)
    hzero (Function.update_self ..) rfl env none
  have hleft : (⟨g.done, some ⟨x, [], pkt :: snd.toList⟩, xs⟩ : Ghost).active.length = g.active.length := by
    rw [hactive]
    rfl
  rw [hprog, hleft] at hsend
  have hunfold : s.issueStore p env (x.inst none) =
      if x.isStoreConditional then do
        ensure (x.fresh.isSplit = false) .splitConditional
        if env.handleLockedWrite x.seqNum then
          (((s.setSlot s.storeWBIdx x.issued).setState x.seqNum ⟨s.storeWBIdx, (pkt :: snd.toList).length,
            !x.isStoreConditional, x.fresh.isSplit, false, none⟩).sendPackets p env (x.inst none) pkt snd)
        else (((s.setSlot s.storeWBIdx x.issued).setState x.seqNum ⟨s.storeWBIdx, (pkt :: snd.toList).length,
            !x.isStoreConditional, x.fresh.isSplit, false, none⟩).perform (.failed x.seqNum)).skipStore p
      else (((s.setSlot s.storeWBIdx x.issued).setState x.seqNum ⟨s.storeWBIdx, (pkt :: snd.toList).length,
            !x.isStoreConditional, x.fresh.isSplit, false, none⟩).sendPackets p env (x.inst none) pkt snd) := by
    have hreq : x.fresh.req = some w.req := by
      rw [x.fresh_req, hw]
      rfl
    unfold LSQStores.issueStore
    simp only [hslot, hreq, x.fresh_committed, fresh_memBytes hw hform, hpackets, hissued, ok_bind, ensure, if_true,
      x.inst_seqNum, x.inst_isStoreConditional, x.inst_memData, hlen]
  rw [hunfold]
  by_cases hc : x.isStoreConditional = true
  · have hns : x.fresh.isSplit = false := by
      rw [hsplit, (hwhole (hsc hc).1).1]
      rfl
    rw [if_pos hc]
    simp only [hns, ensure, if_true, ok_bind] at hsend ⊢
    split
    · exact hsend
    · -- the store conditional fails
      rw [hns] at hcore
      obtain ⟨t, hrun, hcore', h1, h2, h3, h4, h5⟩ := hcore.skipStore (x := x) rfl rfl hcan
        (fun b hb => by rw [← Option.some.inj hb]) hzero htso (.failed hsize hc)
      obtain ⟨hi1, hi2, hi3, hi4⟩ := hidle
      refine .inr ⟨t, hrun, _, Ghost.program_done hactive _, hcore', .idle rfl ⟨h1.trans hi1, h2.trans hi2,
        hi3.of_eq h3, h4.trans hi4⟩, h5.ge, ?_, fun hp => absurd ((h4.trans hi4).symm.trans hp) Bool.false_ne_true⟩
      rw [hactive]
      exact Nat.le_succ _
  · rw [if_neg hc]
    exact hsend

/-- A data prefetch is passed over, and stays in the queue. -/
lemma Core.skipPrefetch (h : Core p g s) {x : ProgramStore} {xs : List ProgramStore} (hactive : g.active = x :: xs)
    (hslots : g.slots.tail = xs.map ProgramStore.fresh) (hcur : g.cur = none) (hcan : x.canWB = true)
    (hprefetch : x.isDataPrefetch = true) (ports : Nat) :
    Core p ⟨g.done ++ [(x, [])], none, xs⟩ { s with
      usedPorts := ports, storeWBIdx := incrStIdx s.storeWBIdx } := by
  have hne : s.storeWBIdx ≠ s.storeTail := h.queue.ne_tail (hactive ▸ List.mem_cons_self)
  have hrest : g.rest = x :: xs := (Ghost.active_of_idle hcur).symm.trans hactive
  have hslot := h.queue.slot_fresh hcur hrest
  have hpush := Ring.window_push (Ring.next_ne_of_mem (Ring.mem_of_between h.queue.between hne))
  have hopen : ∀ i, Open { s with usedPorts := ports, storeWBIdx := incrStIdx s.storeWBIdx } i ↔ Open s i := by
    intro i
    change i ∈ Ring.window s.storeHead (Ring.next s.storeWBIdx) ∧ opens (s.storeQueue i) = true ↔ _
    rw [hpush, List.mem_append, List.mem_singleton]
    constructor
    · rintro ⟨hi | rfl, ho⟩
      · exact ⟨hi, ho⟩
      · rw [hslot] at ho
        simp [opens, hprefetch] at ho
    · rintro ⟨hi, ho⟩
      exact ⟨.inl hi, ho⟩
  refine ⟨(h.queue.advance hactive hslots hcan []).of_eq rfl rfl rfl rfl rfl rfl rfl rfl,
    FlightOk.of_iff (O := Open s) ⟨h.flight.opened, fun b hb => absurd hb.symm (Option.some_ne_none b), ?_,
      h.flight.single, h.flight.clear, fun _ hb => absurd hb Bool.false_ne_true⟩ hopen,
    fun b hb => absurd hb.symm (Option.some_ne_none b), ?_, ?_, ?_, ?_⟩
  · intro pkt hpkt
    rcases h.flight.owned pkt hpkt with hown | ⟨b, hb, -⟩
    · exact .inl hown
    · exact absurd (hcur.symm.trans hb).symm (Option.some_ne_none b)
  · change s.performed = _
    rw [h.performed, hcur]
    simp
  · intro d hd
    rcases List.mem_append.mp hd with hd | hd
    · exact h.done d hd
    · rw [List.mem_singleton.mp hd]
      exact ⟨hcan, .nothing (.inr hprefetch)⟩
  · intro st hst
    exact (h.stalled st hst).done hactive (.inr hprefetch) _
  · intro z hz
    refine h.formed z ?_
    rw [hactive]
    exact List.mem_cons_of_mem _ hz

/-- One store is taken from the queue, or none of its packets can be sent now. -/
lemma Core.writebackStore (h : Core p g s) (hcur : g.cur = none) (hidle : Idle init s) (hcan : s.canWriteback p = true)
    (env : StoreEnv) :
    Ends init (s.writebackStore p env) fun t => ∃ ports left, Wrote p init g.program ports left t ∧
      p.cachePorts - ports + left < p.cachePorts - s.usedPorts + g.active.length := by
  simp only [canWriteback, Bool.and_eq_true, decide_eq_true_eq, Bool.or_eq_true, Bool.not_eq_true'] at hcan
  obtain ⟨⟨⟨⟨⟨-, hne⟩, -⟩, hwb⟩, htso⟩, hports⟩ := hcan
  have htso' : p.needsTSO = true → s.storeInFlight = false := by
    intro h1
    rcases htso with h2 | h2
    · exact absurd (h2.symm.trans h1) Bool.false_ne_true
    · exact h2
  obtain ⟨x, xs, hactive, hseq, hxcan⟩ := h.queue.active_cons hne
  have hrest : g.rest = x :: xs := (Ghost.active_of_idle hcur).symm.trans hactive
  have hslot := h.queue.slot_fresh hcur hrest
  have hslots : g.slots.tail = xs.map ProgramStore.fresh := by
    rw [Ghost.slots_of_idle hcur, hrest]
    rfl
  have hcanWB : x.canWB = true := hxcan.symm.trans hwb
  have hinst : s.instAt s.storeWBIdx = .ok (x.inst none) := by
    rw [instAt, hslot, x.fresh_inst]
  have hmem : x ∈ g.active := by
    rw [hactive]
    exact List.mem_cons_self
  have hlen : g.active.length = xs.length + 1 := by
    rw [hactive]
    rfl
  have hnone : ∀ b, g.cur = some b → b.accepted = [] := by
    intro b hb
    exact absurd (hcur.symm.trans hb).symm (Option.some_ne_none b)
  have hzero := h.inFlightOf_eq_zero hmem (fun b hb => absurd (hcur.symm.trans hb).symm (Option.some_ne_none b))
  obtain ⟨hi1, hi2, hi3, hi4⟩ := hidle
  unfold LSQStores.writebackStore
  simp only [hinst, ok_bind, hslot, x.fresh_size]
  by_cases hsize : x.size = 0
  · rw [if_pos hsize]
    obtain ⟨t, hrun, hcore, h1, h2, h3, h4, h5⟩ := h.skipStore hactive hslots hcanWB hnone hzero htso'
      (.nothing (.inl hsize))
    rw [List.append_nil] at hrun
    refine .inr ⟨t, hrun, s.usedPorts, xs.length, ⟨_, Ghost.program_done hactive _, hcore,
      .idle rfl ⟨h1.trans hi1, h2.trans hi2, hi3.of_eq h3, h4.trans hi4⟩, h5.ge, le_rfl,
      fun hp => absurd ((h4.trans hi4).symm.trans hp) Bool.false_ne_true⟩, ?_⟩
    omega
  · rw [if_neg hsize]
    by_cases hprefetch : (x.inst none).isDataPrefetch = true
    · rw [if_pos hprefetch]
      refine .inr ⟨_, rfl, s.usedPorts + 1, xs.length, ⟨_, Ghost.program_done hactive [], ?_,
        .idle rfl ⟨hi1, hi2, hi3, hi4⟩, le_rfl, le_rfl, fun hp => absurd (hi4.symm.trans hp) Bool.false_ne_true⟩, ?_⟩
      · exact h.skipPrefetch hactive hslots hcur hcanWB hprefetch _
      · omega
    · rw [if_neg hprefetch]
      have hports' := h.flags s.retryPkt s.isStoreBlocked s.pendingPkt s.hasPendingPkt (s.usedPorts + 1)
      refine (hports'.issueStore hcur hrest hcanWB hsize (Bool.eq_false_iff.mpr hprefetch) ⟨hi1, hi2, hi3, hi4⟩
        htso' env).mono fun t hwrote => ⟨s.usedPorts + 1, g.active.length, hwrote, ?_⟩
      omega

/-! ### The calls that send -/

/-- The invariant between two calls: `prog` are the stores of the program. -/
def StoresInv (p : LSQParams) (init : Option StorePacket) (prog : List ProgramStore) (s : LSQStores n) : Prop :=
  ∃ g : Ghost, g.program = prog ∧ Core p g s ∧ Control init g s

lemma Control.usedPorts (h : Control init g s) (ports : Nat) : Control init g { s with usedPorts := ports } := by
  cases h with
  | idle hcur hidle => exact .idle hcur hidle
  | waits h1 h2 h3 h4 h5 h6 h7 h8 => exact .waits h1 h2 h3 h4 h5 h6 h7 h8
  | blocked h1 h2 h3 h4 h5 h6 h7 h8 => exact .blocked h1 h2 h3 h4 h5 h6 h7 h8

/-- The loop of `writebackStores` ends, and a packet that waits for a port ends it. -/
lemma Core.writebackLoop (env : StoreEnv) (fuel : Nat) (h : Core p g s) (hctl : Control init g s)
    (hpend : s.hasPendingPkt = true → p.cachePorts ≤ s.usedPorts)
    (hfuel : p.cachePorts - s.usedPorts + g.active.length < fuel) :
    Ends init (LSQStores.writebackLoop p env fuel s) (StoresInv p init g.program) := by
  induction fuel generalizing g s with
  | zero => exact absurd hfuel (Nat.not_lt_zero _)
  | succ fuel ih =>
    simp only [LSQStores.writebackLoop]
    split
    · rename_i hcond
      have hports : s.usedPorts < p.cachePorts := by
        have hc := hcond.1
        simp only [canWriteback, Bool.and_eq_true, decide_eq_true_eq] at hc
        exact hc.2
      cases hctl with
      | idle hcur hidle =>
        refine (h.writebackStore hcur hidle hcond.1 env).bind ?_
        rintro t ⟨ports, left, ⟨g', hprog, hcore, hctl', hp, hl, hpend'⟩, hlt⟩
        rw [← hprog]
        exact ih hcore hctl' hpend' (by omega)
      | waits _ _ _ hhas => exact absurd (hpend hhas) (not_le.mpr hports)
      | blocked _ _ _ hblocked => exact absurd (hcond.2.symm.trans hblocked) Bool.false_ne_true
    · exact .inr ⟨s, rfl, g, rfl, h, hctl⟩

/-- The second packet of a store, which had no port, is sent before everything else. -/
lemma Core.writebackPendingStore (h : Core p g s) (hctl : Control init g s) (env : StoreEnv) :
    ∃ t g', s.writebackPendingStore p env = .ok t ∧ g'.program = g.program ∧ Core p g' t ∧ Control init g' t ∧
      t.hasPendingPkt = false := by
  unfold LSQStores.writebackPendingStore
  cases hctl with
  | idle hcur hidle =>
    refine ⟨s, g, ?_, rfl, h, .idle hcur hidle, hidle.2.2.2⟩
    rw [if_neg (Bool.eq_false_iff.mp hidle.2.2.2)]
  | @waits b pkt st hcur hus hpending hhas hretry hblocked hst hsend =>
    have hactive := Ghost.active_of_cur hcur
    obtain ⟨t, hrun, h1, h2, h3, hcases⟩ := h.sendLast hcur hus hretry env
    rw [if_pos hhas]
    simp only [hpending, hrun, ok_bind]
    rcases hcases with ⟨effects, hc, hr, hbk⟩ | ⟨hc, hr, hbk, hss⟩
    · exact ⟨_, _, rfl, Ghost.program_done hactive effects,
        hc.flags t.retryPkt t.isStoreBlocked none false t.usedPorts, .idle rfl ⟨hr, hbk.trans hblocked, .inl rfl, rfl⟩,
        rfl⟩
    · have hst' : t.senderStates b.store.seqNum = some st := by rw [← hst, ← hss]
      exact ⟨_, g, rfl, rfl, hc.flags t.retryPkt t.isStoreBlocked none false t.usedPorts,
        .blocked hcur hus hr hbk (.inl rfl) rfl hst' (.inl ⟨rfl, .inl hsend⟩), rfl⟩
  | blocked hcur hus hretry hblocked hpending hhas hst hsends =>
    refine ⟨s, g, ?_, rfl, h, .blocked hcur hus hretry hblocked hpending hhas hst hsends, hhas⟩
    rw [if_neg (Bool.eq_false_iff.mp hhas)]

lemma QueueOk.active_length_lt (h : QueueOk g s) : g.active.length < n := by
  have hlen := congrArg List.length h.seqNumAt_waiting
  rw [List.length_map, List.length_map, LSQStores.waiting, Ring.length_window] at hlen
  rw [← hlen]
  exact Ring.dist_lt _ _

lemma StoresInv.writebackStores {prog : List ProgramStore} (h : StoresInv p init prog s) (env : StoreEnv) :
    Ends init (s.writebackStores p env) (StoresInv p init prog) := by
  obtain ⟨g, rfl, hcore, hctl⟩ := h
  obtain ⟨t, g', hrun, hprog, hcore', hctl', hnone⟩ := hcore.writebackPendingStore hctl env
  have hlt := hcore'.queue.active_length_lt
  have hloop := hcore'.writebackLoop env (p.cachePorts + n + 1) hctl'
    (fun hp => absurd (hnone.symm.trans hp) Bool.false_ne_true) (by omega)
  rw [LSQStores.writebackStores, hrun, ok_bind]
  refine hloop.bind ?_
  rintro u ⟨g'', hprog', hcore'', hctl''⟩
  have hcounts : 0 ≤ u.stores ∧ 0 ≤ u.storesToWB := by
    rw [hcore''.queue.stores, hcore''.queue.toWB]
    omega
  refine .inr ⟨{ u with usedPorts := 0 }, ?_, g'', hprog'.trans hprog,
    hcore''.flags u.retryPkt u.isStoreBlocked u.pendingPkt u.hasPendingPkt 0, hctl''.usedPorts 0⟩
  simp only [ensure, if_pos hcounts, ok_bind]

lemma StoresInv.recvRetry {prog : List ProgramStore} (h : StoresInv p init prog s) (env : StoreEnv) :
    ∃ t, s.recvRetry p env = .ok t ∧ StoresInv p init prog t := by
  obtain ⟨g, rfl, hcore, hctl⟩ := h
  unfold LSQStores.recvRetry
  cases hctl with
  | idle hcur hidle =>
    refine ⟨s, ?_, g, rfl, hcore, .idle hcur hidle⟩
    rw [if_neg (Bool.eq_false_iff.mp hidle.2.1)]
  | waits h1 h2 h3 h4 h5 h6 h7 h8 =>
    refine ⟨s, ?_, g, rfl, hcore, .waits h1 h2 h3 h4 h5 h6 h7 h8⟩
    rw [if_neg (Bool.eq_false_iff.mp h6)]
  | @blocked b pkt us st hcur hus hretry hblocked hpending hhas hst hsends =>
    have hactive := Ghost.active_of_cur hcur
    have hpktsn : pkt.seqNum = b.store.seqNum := (hcore.busy b hcur).seqNum (hus ▸ List.mem_cons_self)
    have hstate : s.stateOf pkt = .ok st := by
      rw [stateOf, hpktsn, hst]
    rw [if_pos hblocked]
    simp only [hretry, hstate, ok_bind]
    by_cases hsend : env.sendTimingReq pkt = true
    · rw [if_pos hsend]
      obtain ⟨hacc, hpos⟩ := hcore.accept hcur hus
      rcases hsends with ⟨rfl, hlast⟩ | ⟨snd, rfl, hto, hpend, hne⟩
      · -- the last packet: the store has been sent
        rw [if_pos hlast]
        have hacc' := hacc.setState rfl { st with pktToSend := false } hst rfl rfl
        obtain ⟨t, hrun, hcore', h1, h2, h3, h4, h5⟩ := hacc'.storePostSend rfl rfl hpos
        rw [hpktsn, hrun, ok_bind]
        exact ⟨_, rfl, _, Ghost.program_done hactive _,
          hcore'.flags none false t.pendingPkt t.hasPendingPkt t.usedPorts,
          .idle rfl ⟨rfl, rfl, hpending.of_eq h3, h4.trans hhas⟩⟩
      · -- the first half of a split store: the second follows at once
        have hnot : ¬(st.pktToSend = false ∨ st.pendingPacket = some pkt) := by
          rintro (hf | hp)
          · exact absurd (hf.symm.trans hto) Bool.false_ne_true
          · exact hne (Option.some.inj (hpend.symm.trans hp))
        rw [if_neg hnot]
        simp only [hpend]
        have hactive' := Ghost.active_update hcur { b with accepted := b.accepted ++ [pkt], unsent := [snd] } rfl
        have hprog := Ghost.program_update hcur { b with accepted := b.accepted ++ [pkt], unsent := [snd] } rfl
        have hfree := hacc.flags none false s.pendingPkt s.hasPendingPkt s.usedPorts
        obtain ⟨t, hrun, h1, h2, h3, hcases⟩ := hfree.sendLast rfl rfl rfl env
        refine ⟨t, hrun, ?_⟩
        rcases hcases with ⟨effects, hc, hr, hbk⟩ | ⟨hc, hr, hbk, hss⟩
        · exact ⟨_, (Ghost.program_done (hactive'.trans hactive) effects).trans hprog, hc,
            .idle rfl ⟨hr, hbk, hpending.of_eq h1, h2.trans hhas⟩⟩
        · have hst' : t.senderStates b.store.seqNum = some st := by
            rw [hss]
            exact hst
          exact ⟨_, hprog, hc, .blocked rfl rfl hr hbk (hpending.of_eq h1) (h2.trans hhas) hst'
            (.inl ⟨rfl, .inr hpend⟩)⟩
    · rw [if_neg hsend]
      exact ⟨s, rfl, g, rfl, hcore, .blocked hcur hus hretry hblocked hpending hhas hst hsends⟩

end MimdramLean.Proofs

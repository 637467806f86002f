import MimdramLean.Proofs.StoreBuffer

/-!
# The packets of stores in flight

The invariant of the write-back: what is in flight belongs to stores that were sent and are not completed,
or to the one that is under way. The cache accepts a packet, a store has been sent, an answer arrives, a
store is passed over without being sent: each keeps the invariant, and none fails an assertion.
-/

namespace MimdramLean.Proofs

open Library LSQStores

variable {n : Nat}

/-! ### What is in flight -/

/-- The entry of a store that waits for an answer once it has been sent. -/
def opens (e : StoreSlot) : Bool := !e.completed && e.inst.all fun inst => !inst.isDataPrefetch

/-- A place whose store has been sent and not completed. -/
def Open (s : LSQStores n) (i : Fin n) : Prop :=
  i ∈ Ring.window s.storeHead s.storeWBIdx ∧ opens (s.storeQueue i) = true

/-- How many packets of a store the cache has not answered. -/
def inFlightOf (s : LSQStores n) (sn : Nat) : Nat := s.inFlight.countP fun pkt => pkt.seqNum == sn

/-- The packets in flight and the sender states, where `O` are the places of the stores that wait. -/
structure FlightOk (p : LSQParams) (g : Ghost) (s : LSQStores n) (O : Fin n → Prop) : Prop where
  opened : ∀ i, O i → ∃ sn st, s.seqNumAt i = some sn ∧ s.senderStates sn = some st ∧ st.idx = i ∧
    st.outstanding = inFlightOf s sn ∧ 0 < inFlightOf s sn ∧ inFlightOf s sn ≤ 2
  current : ∀ b, g.cur = some b → ∃ st, s.senderStates b.store.seqNum = some st ∧ st.idx = s.storeWBIdx ∧
    st.outstanding = inFlightOf s b.store.seqNum + b.unsent.length ∧ st.outstanding ≤ 2
  owned : ∀ pkt ∈ s.inFlight, (∃ i, O i ∧ s.seqNumAt i = some pkt.seqNum) ∨
    ∃ b, g.cur = some b ∧ b.store.seqNum = pkt.seqNum
  single : p.needsTSO = true → ∀ i j, O i → O j → i = j
  clear : p.needsTSO = true → s.storeInFlight = false → ∀ i, ¬O i
  free : p.needsTSO = true → g.cur.isSome = true → s.storeInFlight = false

/-- The store under way: some of its packets have been accepted, the others not. -/
structure BusyOk (b : Busy) : Prop where
  canWB : b.store.canWB = true
  size : b.store.size ≠ 0
  noPrefetch : b.store.isDataPrefetch = false
  packets : ∃ w, b.store.written = some w ∧ ProgramStore.packets b.store.seqNum w = b.accepted ++ b.unsent

/-- A load is stalled on an older store that has not been sent. A data prefetch is never sent, and passed over. -/
def StallOk (g : Ghost) (st : Stall) : Prop :=
  st.storeIsn < st.loadSeqNum ∧ ((∃ x ∈ g.active, x.seqNum = st.storeIsn) ∨
    ∃ d ∈ g.done, d.1.seqNum = st.storeIsn ∧ d.1.isDataPrefetch = true)

lemma StallOk.done {g : Ghost} {st : Stall} (h : StallOk g st) {x : ProgramStore} {xs : List ProgramStore}
    (hactive : g.active = x :: xs) (hx : st.storeIsn ≠ x.seqNum ∨ x.isDataPrefetch = true)
    (effects : List StoreEffect) : StallOk ⟨g.done ++ [(x, effects)], none, xs⟩ st := by
  obtain ⟨hlt, ⟨y, hy, hys⟩ | ⟨d, hd, hds⟩⟩ := h
  · rw [hactive] at hy
    rcases List.mem_cons.mp hy with rfl | hy
    · refine ⟨hlt, .inr ⟨(y, effects), List.mem_append_right _ (List.mem_singleton_self _), hys, ?_⟩⟩
      exact hx.resolve_left (not_not_intro hys.symm)
    · exact ⟨hlt, .inl ⟨y, hy, hys⟩⟩
  · exact ⟨hlt, .inr ⟨d, List.mem_append_left _ hd, hds⟩⟩

structure Core (p : LSQParams) (g : Ghost) (s : LSQStores n) : Prop where
  queue : QueueOk g s
  flight : FlightOk p g s (Open s)
  busy : ∀ b, g.cur = some b → BusyOk b
  performed : s.performed = g.done.flatMap Prod.snd ++ g.cur.elim [] fun b => b.accepted.map .accepted
  done : ∀ d ∈ g.done, d.1.canWB = true ∧ d.1.Performs d.2
  stalled : ∀ st, s.stall = some st → StallOk g st
  formed : ∀ x ∈ g.active, x.WellFormed

lemma packets_seqNum {sn : Nat} {w : StoreWrite} {pkt : StorePacket} (h : pkt ∈ ProgramStore.packets sn w) :
    pkt.seqNum = sn := by
  unfold ProgramStore.packets at h
  split at h
  · rw [List.mem_singleton.mp h]
    rfl
  · simp only [List.mem_cons, List.not_mem_nil, or_false] at h
    obtain rfl | rfl := h <;> rfl

lemma BusyOk.seqNum {b : Busy} (h : BusyOk b) {pkt : StorePacket} (hp : pkt ∈ b.unsent) :
    pkt.seqNum = b.store.seqNum := by
  obtain ⟨w, -, hw⟩ := h.packets
  refine packets_seqNum (w := w) ?_
  rw [hw]
  exact List.mem_append_right _ hp

/-- The ghost's lists stay, and what a busy store has sent may change. -/
lemma QueueOk.ghost {g : Ghost} {s : LSQStores n} (h : QueueOk g s) (g' : Ghost) (hdone : g'.done = g.done)
    (hactive : g'.active = g.active) (hslots : g'.slots = g.slots) : QueueOk g' s := by
  have hprog : g'.program = g.program := by rw [Ghost.program, Ghost.program, hdone, hactive]
  exact ⟨h.between, h.stores, h.toWB, hslots ▸ h.waiting, hdone ▸ h.sent, h.sentWB, h.head, hprog ▸ h.sorted,
    hprog ▸ h.last, hprog ▸ h.squashed⟩

lemma unstall_eq (s : LSQStores n) (sn : Nat) : ∃ st r, s.unstall sn = { s with stall := st, replayed := r } ∧
    ∀ x, st = some x → s.stall = some x ∧ x.storeIsn ≠ sn := by
  unfold unstall
  split
  · rename_i st hst
    by_cases heq : sn = st.storeIsn
    · refine ⟨none, s.replayed ++ [st.loadIdx], if_pos heq, ?_⟩
      intro x hx
      exact absurd hx.symm (Option.some_ne_none x)
    · refine ⟨s.stall, s.replayed, if_neg heq, ?_⟩
      intro x hx
      obtain rfl := Option.some.inj (hst.symm.trans hx)
      exact ⟨hst, Ne.symm heq⟩
  · rename_i hst
    refine ⟨s.stall, s.replayed, rfl, ?_⟩
    intro x hx
    exact absurd (hx.symm.trans hst) (Option.some_ne_none x)

section Sending

variable {p : LSQParams} {g : Ghost} {s : LSQStores n}

/-- A store that is not done has none of its packets in flight unless it is under way. -/
lemma Core.inFlightOf_eq_zero (h : Core p g s) {x : ProgramStore} (hx : x ∈ g.active)
    (hcur : ∀ b, g.cur = some b → b.store.seqNum ≠ x.seqNum) : inFlightOf s x.seqNum = 0 := by
  rw [inFlightOf, List.countP_eq_zero]
  intro pkt hpkt
  rw [beq_iff_eq]
  intro heq
  rcases h.flight.owned pkt hpkt with ⟨i, hi, hsn⟩ | ⟨b, hb, hsn⟩
  · obtain ⟨sn, hsn', -, hlt⟩ := h.queue.seqNum_lt_of_sent hi.1
    have : sn = x.seqNum := by rw [← heq]; exact Option.some.inj (hsn'.symm.trans hsn)
    exact (hlt x hx).ne this
  · exact hcur b hb (hsn.trans heq)

/-- The cache accepts the next packet of the store under way. -/
lemma Core.accept (h : Core p g s) {b : Busy} (hcur : g.cur = some b) {pkt : StorePacket} {us : List StorePacket}
    (hus : b.unsent = pkt :: us) :
    Core p { g with cur := some { b with accepted := b.accepted ++ [pkt], unsent := us } } (s.accept pkt) ∧
      0 < inFlightOf (s.accept pkt) b.store.seqNum := by
  have hb := h.busy b hcur
  have hpkt : pkt.seqNum = b.store.seqNum := hb.seqNum (hus ▸ List.mem_cons_self)
  have hactive := Ghost.active_update hcur { b with accepted := b.accepted ++ [pkt], unsent := us } rfl
  have hmem := Ghost.store_mem_active hcur
  have hcount : inFlightOf (s.accept pkt) b.store.seqNum = inFlightOf s b.store.seqNum + 1 := by
    simp [inFlightOf, LSQStores.accept, perform, List.countP_append, hpkt]
  have hother : ∀ sn, sn ≠ b.store.seqNum → inFlightOf (s.accept pkt) sn = inFlightOf s sn := by
    intro sn hsn
    simp [inFlightOf, LSQStores.accept, perform, List.countP_append, hpkt, Ne.symm hsn]
  have hqueue := h.queue.ghost { g with cur := some { b with accepted := b.accepted ++ [pkt], unsent := us } }
    rfl hactive (by rw [Ghost.slots, Ghost.slots, hcur]; rfl)
  refine ⟨⟨hqueue.of_eq rfl rfl rfl rfl rfl rfl rfl rfl, ⟨?_, ?_, ?_, h.flight.single, h.flight.clear, ?_⟩, ?_, ?_,
    h.done, ?_, ?_⟩, ?_⟩
  · intro i hi
    obtain ⟨sn, st, hsn, hst, hidx, hout, hpos, hle⟩ := h.flight.opened i hi
    obtain ⟨sn', hsn', -, hlt⟩ := h.queue.seqNum_lt_of_sent hi.1
    have hne : sn ≠ b.store.seqNum := by
      rw [Option.some.inj (hsn.symm.trans hsn')]
      exact (hlt b.store hmem).ne
    exact ⟨sn, st, hsn, hst, hidx, by rw [hother sn hne, hout], by rwa [hother sn hne], by rwa [hother sn hne]⟩
  · intro b' hb'
    obtain ⟨st, hst, hidx, hout, hle⟩ := h.flight.current b hcur
    obtain rfl := Option.some.inj hb'
    refine ⟨st, hst, hidx, ?_, hle⟩
    rw [hus, List.length_cons] at hout
    change st.outstanding = inFlightOf (s.accept pkt) b.store.seqNum + us.length
    rw [hcount]
    omega
  · intro q hq
    rcases List.mem_append.mp hq with hq | hq
    · rcases h.flight.owned q hq with hown | ⟨b', hb', hsn⟩
      · exact .inl hown
      · obtain rfl := Option.some.inj (hcur.symm.trans hb')
        exact .inr ⟨_, rfl, hsn⟩
    · rw [List.mem_singleton.mp hq]
      exact .inr ⟨_, rfl, hpkt.symm⟩
  · intro htso _
    refine h.flight.free htso ?_
    rw [hcur]
    rfl
  · intro b' hb'
    obtain rfl := Option.some.inj hb'
    obtain ⟨w, hw, hpk⟩ := hb.packets
    refine ⟨hb.canWB, hb.size, hb.noPrefetch, w, hw, ?_⟩
    rw [hpk, hus, List.append_assoc]
    rfl
  · change s.performed ++ [.accepted pkt] = _
    rw [h.performed, hcur]
    simp
  · intro st hst
    have hok := h.stalled st hst
    rw [StallOk, ← hactive] at hok
    exact hok
  · rw [hactive]
    exact h.formed
  · rw [hcount]
    exact Nat.succ_pos _

lemma instAt_of_seqNumAt {i : Fin n} {sn : Nat} (h : s.seqNumAt i = some sn) :
    ∃ inst, s.instAt i = .ok inst ∧ (s.storeQueue i).inst = some inst ∧ inst.seqNum = sn := by
  obtain ⟨inst, hinst, hsn⟩ := Option.map_eq_some_iff.mp h
  exact ⟨inst, by rw [instAt, hinst], hinst, hsn⟩

/-- All packets of the store under way have been accepted. -/
lemma Core.storePostSend (h : Core p g s) {b : Busy} (hcur : g.cur = some b) (hus : b.unsent = [])
    (hpos : 0 < inFlightOf s b.store.seqNum) :
    ∃ t, s.storePostSend p = .ok t ∧
      Core p ⟨g.done ++ [(b.store, b.accepted.map .accepted)], none, g.rest⟩ t ∧
      t.retryPkt = s.retryPkt ∧ t.isStoreBlocked = s.isStoreBlocked ∧ t.pendingPkt = s.pendingPkt ∧
      t.hasPendingPkt = s.hasPendingPkt ∧ t.usedPorts = s.usedPorts := by
  have hb := h.busy b hcur
  have hactive := Ghost.active_of_cur hcur
  have hslots := Ghost.slots_of_cur hcur
  have hslot := h.queue.slot_head hslots
  have hne := h.queue.ne_tail (Ghost.store_mem_active hcur)
  have hinst : s.instAt s.storeWBIdx = .ok (b.store.inst (some (b.store.written.elim [] ProgramStore.bytes))) := by
    rw [instAt, hslot]
    rfl
  obtain ⟨stall', replayed', hun, hstall⟩ := unstall_eq s b.store.seqNum
  have hq := h.queue.advance hactive (congrArg List.tail hslots) hb.canWB (b.accepted.map .accepted)
  have hmem := Ring.mem_of_between h.queue.between hne
  have hpush := Ring.window_push (Ring.next_ne_of_mem hmem)
  refine ⟨{ s with
    stall := stall', replayed := replayed', storeInFlight := if p.needsTSO then true else s.storeInFlight
    storeWBIdx := incrStIdx s.storeWBIdx }, ?_, ⟨?_, ?_, ?_, ?_, ?_, ?_, ?_⟩, rfl, rfl, rfl, rfl, rfl⟩
  · simp only [LSQStores.storePostSend, hinst, ok_bind, ProgramStore.inst, hun]
    split <;> rfl
  · exact hq.of_eq rfl rfl rfl rfl rfl rfl rfl rfl
  · have hopen : ∀ i, Open { s with
        stall := stall', replayed := replayed', storeInFlight := if p.needsTSO then true else s.storeInFlight
        storeWBIdx := incrStIdx s.storeWBIdx } i → Open s i ∨ i = s.storeWBIdx := by
      intro i hi
      have hw : i ∈ Ring.window s.storeHead (Ring.next s.storeWBIdx) := hi.1
      rw [hpush] at hw
      rcases List.mem_append.mp hw with hw | hw
      · exact .inl ⟨hw, hi.2⟩
      · exact .inr (List.mem_singleton.mp hw)
    have hopenWB : Open { s with
        stall := stall', replayed := replayed', storeInFlight := if p.needsTSO then true else s.storeInFlight
        storeWBIdx := incrStIdx s.storeWBIdx } s.storeWBIdx := by
      refine ⟨?_, ?_⟩
      · change s.storeWBIdx ∈ Ring.window s.storeHead (Ring.next s.storeWBIdx)
        rw [hpush]
        exact List.mem_append_right _ (List.mem_singleton_self _)
      · change opens (s.storeQueue s.storeWBIdx) = true
        rw [hslot]
        simp [opens, ProgramStore.inst, hb.noPrefetch]
    have hkeep : ∀ i, Open s i → Open { s with
        stall := stall', replayed := replayed', storeInFlight := if p.needsTSO then true else s.storeInFlight
        storeWBIdx := incrStIdx s.storeWBIdx } i := by
      intro i hi
      refine ⟨?_, hi.2⟩
      change i ∈ Ring.window s.storeHead (Ring.next s.storeWBIdx)
      rw [hpush]
      exact List.mem_append_left _ hi.1
    have hseqWB : s.seqNumAt s.storeWBIdx = some b.store.seqNum := by
      rw [seqNumAt, hslot]
      rfl
    refine ⟨?_, fun b' hb' => absurd hb' (Option.some_ne_none b').symm, ?_, ?_, ?_,
      fun _ hcur' => absurd hcur' Bool.false_ne_true⟩
    · intro i hi
      rcases hopen i hi with hi | rfl
      · exact h.flight.opened i hi
      · obtain ⟨st, hst, hidx, hout, hle⟩ := h.flight.current b hcur
        rw [hus, List.length_nil, Nat.add_zero] at hout
        exact ⟨b.store.seqNum, st, hseqWB, hst, hidx, hout, hpos, hout ▸ hle⟩
    · intro pkt hpkt
      left
      rcases h.flight.owned pkt hpkt with ⟨i, hi, hsn⟩ | ⟨b', hb', hsn⟩
      · exact ⟨i, hkeep i hi, hsn⟩
      · obtain rfl := Option.some.inj (hcur.symm.trans hb')
        exact ⟨s.storeWBIdx, hopenWB, hseqWB.trans (congrArg some hsn)⟩
    · intro htso i j hi hj
      have hnone := h.flight.clear htso (h.flight.free htso (by rw [hcur]; rfl))
      rw [(hopen i hi).resolve_left (hnone i), (hopen j hj).resolve_left (hnone j)]
    · intro htso hfalse
      change (if p.needsTSO then true else s.storeInFlight) = false at hfalse
      rw [htso] at hfalse
      exact absurd hfalse.symm Bool.false_ne_true
  · intro b' hb'
    exact absurd hb'.symm (Option.some_ne_none b')
  · change s.performed = _
    rw [h.performed, hcur]
    simp
  · intro d hd
    rcases List.mem_append.mp hd with hd | hd
    · exact h.done d hd
    · obtain ⟨w, hw, hpk⟩ := hb.packets
      rw [List.mem_singleton.mp hd]
      rw [hus, List.append_nil] at hpk
      rw [← hpk]
      exact ⟨hb.canWB, .sent hb.size hw⟩
  · intro st hst
    obtain ⟨hst, hneq⟩ := hstall st hst
    exact (h.stalled st hst).done hactive (.inl hneq) _
  · intro x hx
    refine h.formed x ?_
    rw [hactive]
    exact List.mem_cons_of_mem _ hx

end Sending

/-! ### Completion -/

section Completing

variable {p : LSQParams} {g : Ghost} {s : LSQStores n} {i : Fin n}

lemma FlightOk.of_iff {O O' : Fin n → Prop} (h : FlightOk p g s O) (hO : ∀ j, O' j ↔ O j) : FlightOk p g s O' := by
  have : O' = O := funext fun j => propext (hO j)
  rwa [this]

/-- What `completeStore` does to a store that has been sent. -/
lemma completeStore_eq (h : QueueOk g s) (hi : i ∈ Ring.window s.storeHead s.storeWBIdx)
    (hc : (s.storeQueue i).completed = false) :
    ∃ head stall' replayed' sn, s.seqNumAt i = some sn ∧
      s.completeStore p i = .ok { completedAt s i head with
        stall := stall', replayed := replayed', storeInFlight := if p.needsTSO then false else s.storeInFlight } ∧
      QueueOk g (completedAt s i head) ∧
      (∀ x, stall' = some x → s.stall = some x ∧ x.storeIsn ≠ sn) ∧
      ∀ j, Open (completedAt s i head) j ↔ Open s j ∧ j ≠ i := by
  obtain ⟨head, hrun, hbetween, hq, hfreed⟩ := h.complete hi hc
  obtain ⟨sn, hsn, -⟩ := h.seqNum_lt_of_sent hi
  obtain ⟨inst, hinst, -, hinstSn⟩ := instAt_of_seqNumAt hsn
  obtain ⟨stall', replayed', hun, hstall⟩ := unstall_eq (completedAt s i head) sn
  refine ⟨head, stall', replayed', sn, hsn, ?_, hq, hstall, ?_⟩
  · simp only [LSQStores.completeStore, hinst, ok_bind, hrun, hinstSn, hun]
    split <;> rfl
  · have hsplit := Ring.window_append hbetween
    intro j
    constructor
    · intro hj
      have hne : j ≠ i := by
        rintro rfl
        have ho := hj.2
        change opens (Function.update s.storeQueue j _ j) = true at ho
        rw [Function.update_self] at ho
        simp [opens, completeSlot] at ho
      refine ⟨⟨?_, ?_⟩, hne⟩
      · rw [hsplit]
        exact List.mem_append_right _ hj.1
      · have ho := hj.2
        change opens (Function.update s.storeQueue i _ j) = true at ho
        rwa [Function.update_of_ne hne] at ho
    · rintro ⟨hj, hne⟩
      have hslot : (completedAt s i head).storeQueue j = s.storeQueue j := Function.update_of_ne hne _ _
      refine ⟨?_, by rw [hslot]; exact hj.2⟩
      have hmem := hj.1
      rw [hsplit] at hmem
      rcases List.mem_append.mp hmem with hmem | hmem
      · have hdone := hfreed j hmem
        have ho := hj.2
        rw [hslot] at hdone
        simp [opens, hdone] at ho
      · exact hmem

/-- The invariant after `completeStore`, from what is in flight for the other stores. -/
lemma Core.completeStore (hqueue : QueueOk g s) (hi : i ∈ Ring.window s.storeHead s.storeWBIdx)
    (hc : (s.storeQueue i).completed = false) (hflight : FlightOk p g s fun j => Open s j ∧ j ≠ i)
    (hsingle : p.needsTSO = true → ∀ j, Open s j → j = i) (hbusy : ∀ b, g.cur = some b → BusyOk b)
    (hperformed : s.performed = g.done.flatMap Prod.snd ++ g.cur.elim [] fun b => b.accepted.map .accepted)
    (hdone : ∀ d ∈ g.done, d.1.canWB = true ∧ d.1.Performs d.2)
    (hstalled : ∀ st sn, s.stall = some st → s.seqNumAt i = some sn → st.storeIsn ≠ sn → StallOk g st)
    (hformed : ∀ x ∈ g.active, x.WellFormed) :
    ∃ t, s.completeStore p i = .ok t ∧ Core p g t ∧ t.retryPkt = s.retryPkt ∧
      t.isStoreBlocked = s.isStoreBlocked ∧ t.pendingPkt = s.pendingPkt ∧ t.hasPendingPkt = s.hasPendingPkt ∧
      t.usedPorts = s.usedPorts ∧ t.senderStates = s.senderStates ∧ t.storeWBIdx = s.storeWBIdx := by
  obtain ⟨head, stall', replayed', sn, hsn, hrun, hq, hstall, hopen⟩ := completeStore_eq (p := p) hqueue hi hc
  refine ⟨_, hrun, ⟨hq.of_eq rfl rfl rfl rfl rfl rfl rfl rfl, ?_, hbusy, hperformed, hdone, ?_, hformed⟩,
    rfl, rfl, rfl, rfl, rfl, rfl, rfl⟩
  · have hnone : p.needsTSO = true → ∀ j, ¬(Open s j ∧ j ≠ i) := fun htso j hj => hj.2 (hsingle htso j hj.1)
    refine FlightOk.of_iff (O := fun j => Open s j ∧ j ≠ i) ?_ fun j => hopen j
    have hseq : (completedAt s i head).seqNumAt = s.seqNumAt := completedAt_seqNumAt s i head
    refine ⟨?_, hflight.current, ?_, hflight.single, fun htso _ => hnone htso, ?_⟩
    · intro j hj
      obtain ⟨sn', st, hsn', hrest⟩ := hflight.opened j hj
      exact ⟨sn', st, (congrFun hseq j).trans hsn', hrest⟩
    · intro pkt hpkt
      rcases hflight.owned pkt hpkt with ⟨j, hj, hsn'⟩ | hown
      · exact .inl ⟨j, hj, (congrFun hseq j).trans hsn'⟩
      · exact .inr hown
    · intro htso _
      change (if p.needsTSO then false else s.storeInFlight) = false
      rw [htso]
      rfl
  · intro st hst
    obtain ⟨hst, hne⟩ := hstall st hst
    exact hstalled st sn hst hsn hne

lemma inFlightOf_erase (s : LSQStores n) {pkt : StorePacket} (hpkt : pkt ∈ s.inFlight) (sn : Nat) :
    inFlightOf { s with inFlight := s.inFlight.erase pkt } sn + (if pkt.seqNum = sn then 1 else 0) =
      inFlightOf s sn := by
  have hperm := List.perm_cons_erase hpkt
  have hcount := hperm.countP_eq fun q => q.seqNum == sn
  rw [List.countP_cons] at hcount
  simp only [inFlightOf, hcount, beq_iff_eq]

/-- The sender states keep what they know of packets that have not been sent. -/
def SameSends (s t : LSQStores n) : Prop :=
  ∀ sn st, s.senderStates sn = some st → ∃ st', t.senderStates sn = some st' ∧
    st'.pktToSend = st.pktToSend ∧ st'.pendingPacket = st.pendingPacket

lemma sameSends_update {t : LSQStores n} {sn : Nat} {st st' : LSQSenderState n} (hst : s.senderStates sn = some st)
    (ht : t.senderStates = Function.update s.senderStates sn (some st')) (hsend : st'.pktToSend = st.pktToSend)
    (hpend : st'.pendingPacket = st.pendingPacket) : SameSends s t := by
  intro sn' x hx
  rw [ht]
  by_cases heq : sn' = sn
  · rw [heq] at hx ⊢
    obtain rfl := Option.some.inj (hst.symm.trans hx)
    exact ⟨st', Function.update_self .., hsend, hpend⟩
  · exact ⟨x, by rw [Function.update_of_ne heq, hx], rfl, rfl⟩

/-- The state when the answer to a packet has been counted. -/
def answered (s : LSQStores n) (pkt : StorePacket) (st : LSQSenderState n) : LSQStores n :=
  { s with
    inFlight := s.inFlight.erase pkt
    senderStates := Function.update s.senderStates pkt.seqNum (some st.complete) }

lemma inFlightOf_answered {pkt : StorePacket} (hpkt : pkt ∈ s.inFlight) (st : LSQSenderState n) :
    inFlightOf (answered s pkt st) pkt.seqNum + 1 = inFlightOf s pkt.seqNum := by
  have hcount := inFlightOf_erase s hpkt pkt.seqNum
  rwa [if_pos rfl] at hcount

lemma inFlightOf_answered_of_ne {pkt : StorePacket} (hpkt : pkt ∈ s.inFlight) (st : LSQSenderState n) {sn : Nat}
    (hne : sn ≠ pkt.seqNum) : inFlightOf (answered s pkt st) sn = inFlightOf s sn := by
  have hcount := inFlightOf_erase s hpkt sn
  rwa [if_neg hne.symm, Nat.add_zero] at hcount

lemma answered_of_ne {pkt : StorePacket} (st : LSQSenderState n) {sn : Nat} (hne : sn ≠ pkt.seqNum) :
    (answered s pkt st).senderStates sn = s.senderStates sn := Function.update_of_ne hne _ _

/-- The other stores that have been sent still wait for their answers. -/
lemma FlightOk.opened_answered {O : Fin n → Prop} (h : FlightOk p g s O) {pkt : StorePacket}
    (hpkt : pkt ∈ s.inFlight) (st : LSQSenderState n) {j : Fin n} (hj : O j) (hne : s.seqNumAt j ≠ some pkt.seqNum) :
    ∃ sn st', (answered s pkt st).seqNumAt j = some sn ∧ (answered s pkt st).senderStates sn = some st' ∧
      st'.idx = j ∧ st'.outstanding = inFlightOf (answered s pkt st) sn ∧
      0 < inFlightOf (answered s pkt st) sn ∧ inFlightOf (answered s pkt st) sn ≤ 2 := by
  obtain ⟨sn, st', hsn, hst', hidx, hout, hpos, hle⟩ := h.opened j hj
  have hne' : sn ≠ pkt.seqNum := by
    rintro rfl
    exact hne hsn
  refine ⟨sn, st', hsn, (answered_of_ne st hne').trans hst', hidx, ?_, ?_, ?_⟩
  · rw [inFlightOf_answered_of_ne hpkt st hne', hout]
  · rwa [inFlightOf_answered_of_ne hpkt st hne']
  · rwa [inFlightOf_answered_of_ne hpkt st hne']

/-- A packet of a store that has been sent is answered: the store is open while packets are in flight. -/
lemma Core.flight_answered (h : Core p g s) {pkt : StorePacket} (hpkt : pkt ∈ s.inFlight) {i : Fin n} (hi : Open s i)
    (hsn : s.seqNumAt i = some pkt.seqNum) {st : LSQSenderState n} (hidx : st.idx = i)
    (hout : st.complete.outstanding = inFlightOf (answered s pkt st) pkt.seqNum)
    (hle : inFlightOf (answered s pkt st) pkt.seqNum ≤ 2) :
    FlightOk p g (answered s pkt st) fun j =>
      Open s j ∧ (j = i → 0 < inFlightOf (answered s pkt st) pkt.seqNum) := by
  refine ⟨?_, ?_, ?_, fun htso j k hj hk => h.flight.single htso j k hj.1 hk.1,
    fun htso hfalse j hj => h.flight.clear htso hfalse j hj.1, h.flight.free⟩
  · rintro j ⟨hj, hji⟩
    by_cases heq : j = i
    · subst heq
      exact ⟨pkt.seqNum, st.complete, hsn, Function.update_self .., hidx, hout, hji rfl, hle⟩
    · refine h.flight.opened_answered hpkt st hj fun hsnj => heq ?_
      exact h.queue.sent_injective hj.1 hi.1 (hsnj.trans hsn.symm)
  · intro b hb
    obtain ⟨sn, hsn', -, hlt⟩ := h.queue.seqNum_lt_of_sent hi.1
    obtain rfl := Option.some.inj (hsn.symm.trans hsn')
    obtain ⟨stb, hstb, hidxb, houtb, hleb⟩ := h.flight.current b hb
    have hne : b.store.seqNum ≠ pkt.seqNum := (hlt b.store (Ghost.store_mem_active hb)).ne'
    refine ⟨stb, (answered_of_ne st hne).trans hstb, hidxb, ?_, hleb⟩
    rw [inFlightOf_answered_of_ne hpkt st hne, houtb]
  · intro q hq
    rcases h.flight.owned q (List.mem_of_mem_erase hq) with ⟨j, hj, hsnj⟩ | hown
    · refine .inl ⟨j, ⟨hj, ?_⟩, hsnj⟩
      rintro rfl
      rw [inFlightOf, List.countP_pos_iff]
      exact ⟨q, hq, beq_iff_eq.mpr (Option.some.inj (hsnj.symm.trans hsn))⟩
    · exact .inr hown

/-- What the answer to a packet leads to: no store is done or begun, and the flags stay. -/
def Answers (p : LSQParams) (g : Ghost) (s : LSQStores n) (pkt : StorePacket) : Prop :=
  ∃ t, LSQStores.completeDataAccess p { s with inFlight := s.inFlight.erase pkt } pkt = .ok t ∧ Core p g t ∧
    t.retryPkt = s.retryPkt ∧ t.isStoreBlocked = s.isStoreBlocked ∧ t.pendingPkt = s.pendingPkt ∧
    t.hasPendingPkt = s.hasPendingPkt ∧ SameSends s t

/-- `completeDataAccess` while other packets of the store are missing. -/
lemma completeDataAccess_more {pkt : StorePacket} {st : LSQSenderState n} (hst : s.senderStates pkt.seqNum = some st)
    (hmore : st.complete.outstanding ≠ 0) :
    LSQStores.completeDataAccess p { s with inFlight := s.inFlight.erase pkt } pkt = .ok (answered s pkt st) := by
  have hstate : stateOf { s with inFlight := s.inFlight.erase pkt } pkt = .ok st := by
    rw [stateOf, hst]
  simp only [LSQStores.completeDataAccess, hstate, ok_bind]
  rw [if_pos hmore]
  rfl

/-- The last packet of a store that has been sent is answered. -/
lemma Core.answers_last (h : Core p g s) {pkt : StorePacket} {i : Fin n} (hi : Open s i)
    (hsn : s.seqNumAt i = some pkt.seqNum) {st : LSQSenderState n} (hst : s.senderStates pkt.seqNum = some st)
    (hidx : st.idx = i) (hlast : st.complete.outstanding = 0)
    (hflight : FlightOk p g (answered s pkt st) fun j => Open s j ∧ j ≠ i) : Answers p g s pkt := by
  have hqueue : QueueOk g (answered s pkt st) := h.queue.of_eq rfl rfl rfl rfl rfl rfl rfl rfl
  have hnot : pkt.seqNum ∉ (answered s pkt st).squashed := by
    obtain ⟨sn, hsn', ⟨d, hd, hdsn⟩, -⟩ := h.queue.seqNum_lt_of_sent hi.1
    obtain rfl := Option.some.inj (hsn.symm.trans hsn')
    intro hsq
    refine (h.queue.squashed _ hsq).2 d.1 ?_ hdsn
    exact List.mem_append_left _ (List.mem_map_of_mem hd)
  have hc : (s.storeQueue i).completed = false := by
    have ho := hi.2
    rw [opens, Bool.and_eq_true, Bool.not_eq_true'] at ho
    exact ho.1
  -- a store conditional is written back first
  obtain ⟨w, hwritten⟩ : ∃ w, (if st.complete.noWB then answered s pkt st else
      { answered s pkt st with writtenBack := (answered s pkt st).writtenBack ++ [pkt.seqNum] }) =
      { answered s pkt st with writtenBack := w } := by
    split
    · exact ⟨_, rfl⟩
    · exact ⟨_, rfl⟩
  obtain ⟨t, hrun, hcore, h1, h2, h3, h4, -, h5, -⟩ := Core.completeStore (p := p)
    (s := { answered s pkt st with writtenBack := w }) (g := g) (i := i)
    (hqueue.of_eq rfl rfl rfl rfl rfl rfl rfl rfl) hi.1 hc
    ⟨hflight.opened, hflight.current, hflight.owned, hflight.single, hflight.clear, hflight.free⟩
    (fun htso j hj => h.flight.single htso j i hj hi) h.busy h.performed h.done
    (fun x sn hx _ _ => h.stalled x hx) h.formed
  refine ⟨t, ?_, hcore, h1, h2, h3, h4, ?_⟩
  · have hstate : stateOf { s with inFlight := s.inFlight.erase pkt } pkt = .ok st := by
      rw [stateOf, hst]
    have hidx' : st.complete.idx = i := hidx
    simp only [LSQStores.completeDataAccess, hstate, ok_bind, hlast]
    change (if (0 : Nat) ≠ 0 then _ else if pkt.seqNum ∈ (answered s pkt st).squashed then _ else
      LSQStores.completeStore p (if st.complete.noWB then answered s pkt st else
        { answered s pkt st with writtenBack := (answered s pkt st).writtenBack ++ [pkt.seqNum] }) _) = _
    rw [if_neg (not_not_intro rfl), if_neg hnot, hwritten, hidx']
    exact hrun
  · exact sameSends_update hst h5 rfl rfl

/-- The cache answers a packet. -/
lemma Core.completeDataAccess (h : Core p g s) {pkt : StorePacket} (hpkt : pkt ∈ s.inFlight)
    (hunsent : ∀ b, g.cur = some b → b.unsent ≠ []) : Answers p g s pkt := by
  rcases h.flight.owned pkt hpkt with ⟨i, hi, hsn⟩ | ⟨b, hb, hsn⟩
  · obtain ⟨sn, st, hsn', hst, hidx, hout, hpos, hle⟩ := h.flight.opened i hi
    obtain rfl := Option.some.inj (hsn.symm.trans hsn')
    have hself := inFlightOf_answered hpkt st
    have houts : st.complete.outstanding = inFlightOf (answered s pkt st) pkt.seqNum := by
      change (st.outstanding + 255) % 256 = _
      omega
    have hflight := h.flight_answered hpkt hi hsn hidx houts (by omega)
    by_cases hzero : inFlightOf (answered s pkt st) pkt.seqNum = 0
    · refine h.answers_last hi hsn hst hidx (houts.trans hzero) (hflight.of_iff fun j => and_congr_right fun _ => ?_)
      rw [hzero]
      exact ⟨fun hne heq => absurd heq hne, fun hji heq => Nat.lt_irrefl 0 (hji heq)⟩
    · refine ⟨answered s pkt st, completeDataAccess_more hst (houts.trans_ne hzero),
        ⟨h.queue.of_eq rfl rfl rfl rfl rfl rfl rfl rfl, ?_, h.busy, h.performed, h.done, h.stalled, h.formed⟩,
        rfl, rfl, rfl, rfl, sameSends_update hst rfl rfl rfl⟩
      exact hflight.of_iff fun j => ⟨fun hj => ⟨hj, fun _ => Nat.pos_of_ne_zero hzero⟩, fun hj => hj.1⟩
  · obtain ⟨st, hst, hidx, hout, hle⟩ := h.flight.current b hb
    rw [hsn] at hst hout
    have hself := inFlightOf_answered hpkt st
    have hlen : 0 < b.unsent.length := List.length_pos_of_ne_nil (hunsent b hb)
    have houts : st.complete.outstanding = inFlightOf (answered s pkt st) pkt.seqNum + b.unsent.length := by
      change (st.outstanding + 255) % 256 = _
      omega
    refine ⟨answered s pkt st, completeDataAccess_more hst (by omega),
      ⟨h.queue.of_eq rfl rfl rfl rfl rfl rfl rfl rfl, ⟨?_, ?_,
        fun q hq => h.flight.owned q (List.mem_of_mem_erase hq), h.flight.single, h.flight.clear, h.flight.free⟩,
        h.busy, h.performed, h.done, h.stalled, h.formed⟩,
      rfl, rfl, rfl, rfl, sameSends_update hst rfl rfl rfl⟩
    · intro j hj
      refine h.flight.opened_answered hpkt st hj ?_
      obtain ⟨sn, hsn', -, hlt⟩ := h.queue.seqNum_lt_of_sent hj.1
      rw [hsn', ← hsn]
      exact fun heq => (hlt b.store (Ghost.store_mem_active hb)).ne (Option.some.inj heq)
    · intro b' hb'
      obtain rfl := Option.some.inj (hb.symm.trans hb')
      rw [hsn]
      exact ⟨st.complete, Function.update_self .., hidx, houts, by omega⟩

/-! ### A store that is not sent -/

lemma freeHead_storeWBIdx {fuel : Nat} {t : LSQStores n} (h : freeHead fuel s = .ok t) (w : Fin n) :
    freeHead fuel { s with storeWBIdx := w } = .ok { t with storeWBIdx := w } := by
  induction fuel generalizing s with
  | zero => exact absurd h (by simp [freeHead])
  | succ fuel ih =>
    simp only [freeHead] at h ⊢
    split at h
    · rename_i hc
      rw [if_pos hc]
      exact ih h
    · rename_i hc
      rw [if_neg hc]
      obtain rfl := Except.ok.inj h
      rfl

lemma unstall_storeWBIdx (u : LSQStores n) (sn : Nat) (w : Fin n) :
    unstall { u with storeWBIdx := w } sn = { unstall u sn with storeWBIdx := w } := by
  unfold unstall
  split
  · rename_i st hst
    have hst' : u.stall = some st := hst
    by_cases heq : sn = st.storeIsn
    · simp only [hst', if_pos heq]
    · simp only [hst', if_neg heq]
  · rename_i hst
    have hst' : u.stall = none := hst
    simp only [hst']

lemma completeStore_storeWBIdx {t : LSQStores n} (h : s.completeStore p i = .ok t) (w : Fin n) :
    ({ s with storeWBIdx := w } : LSQStores n).completeStore p i = .ok { t with storeWBIdx := w } := by
  simp only [LSQStores.completeStore, bind_eq_ok] at h ⊢
  obtain ⟨inst, hinst, u, hfree, ht⟩ := h
  refine ⟨inst, hinst, { u with storeWBIdx := w }, ?_, ?_⟩
  · unfold freeCompleted at hfree ⊢
    split at hfree
    · rename_i hc
      exact (if_pos hc).trans (freeHead_storeWBIdx hfree w)
    · rename_i hc
      obtain rfl := Except.ok.inj hfree
      exact if_neg hc
  · obtain rfl := Except.ok.inj ht
    rw [unstall_storeWBIdx]
    split <;> rfl

/-- The first store that is not done does `effects` and is completed at once. -/
lemma Core.skipStore (h : Core p g s) {x : ProgramStore} {xs : List ProgramStore} (hactive : g.active = x :: xs)
    (hslots : g.slots.tail = xs.map ProgramStore.fresh) (hcan : x.canWB = true)
    (hcur : ∀ b, g.cur = some b → b.accepted = []) (hzero : inFlightOf s x.seqNum = 0)
    (htso : p.needsTSO = true → s.storeInFlight = false) {effects : List StoreEffect} (heff : x.Performs effects) :
    ∃ t, ({ s with performed := s.performed ++ effects } : LSQStores n).skipStore p = .ok t ∧
      Core p ⟨g.done ++ [(x, effects)], none, xs⟩ t ∧ t.retryPkt = s.retryPkt ∧
      t.isStoreBlocked = s.isStoreBlocked ∧ t.pendingPkt = s.pendingPkt ∧ t.hasPendingPkt = s.hasPendingPkt ∧
      t.usedPorts = s.usedPorts := by
  have hne : s.storeWBIdx ≠ s.storeTail := h.queue.ne_tail (hactive ▸ List.mem_cons_self)
  obtain ⟨y, ys, hy, hseq, -⟩ := h.queue.active_cons hne
  obtain ⟨rfl, rfl⟩ := List.cons.inj (hactive.symm.trans hy)
  have hpush := Ring.window_push (Ring.next_ne_of_mem (Ring.mem_of_between h.queue.between hne))
  have hwbNot : s.storeWBIdx ∉ Ring.window s.storeHead s.storeWBIdx := Ring.not_mem_window_right _ _
  have hc : (s.storeQueue s.storeWBIdx).completed = false := by
    have hmem : s.storeWBIdx ∈ s.waiting := by
      rw [LSQStores.waiting, Ring.window_pop hne]
      exact List.mem_cons_self
    have hslot := List.mem_map_of_mem (f := s.storeQueue) hmem
    rw [h.queue.waiting] at hslot
    exact Ghost.completed_slots hslot
  have hclear : p.needsTSO = true → ∀ j, ¬Open s j := fun h1 => h.flight.clear h1 (htso h1)
  set s' : LSQStores n := { s with
    performed := s.performed ++ effects, storeWBIdx := incrStIdx s.storeWBIdx } with hs'
  have hopen : ∀ j, Open s' j → j ≠ s.storeWBIdx → Open s j := by
    intro j hj hjne
    have hw : j ∈ Ring.window s.storeHead (Ring.next s.storeWBIdx) := hj.1
    rw [hpush] at hw
    rcases List.mem_append.mp hw with hw | hw
    · exact ⟨hw, hj.2⟩
    · exact absurd (List.mem_singleton.mp hw) hjne
  have hkeep : ∀ j, Open s j → Open s' j ∧ j ≠ s.storeWBIdx := by
    intro j hj
    refine ⟨⟨?_, hj.2⟩, ne_of_mem_of_not_mem hj.1 hwbNot⟩
    change j ∈ Ring.window s.storeHead (Ring.next s.storeWBIdx)
    rw [hpush]
    exact List.mem_append_left _ hj.1
  obtain ⟨t, hrun, hcore, h1, h2, h3, h4, h5, -, h6⟩ := Core.completeStore (p := p) (s := s')
    (g := ⟨g.done ++ [(x, effects)], none, xs⟩) (i := s.storeWBIdx)
    ((h.queue.advance hactive hslots hcan effects).of_eq rfl rfl rfl rfl rfl rfl rfl rfl)
    (by
      change s.storeWBIdx ∈ Ring.window s.storeHead (Ring.next s.storeWBIdx)
      rw [hpush]
      exact List.mem_append_right _ (List.mem_singleton_self _))
    hc
    (by
      refine FlightOk.of_iff (O := Open s) ⟨h.flight.opened, fun b hb => absurd hb.symm (Option.some_ne_none b), ?_,
        h.flight.single, h.flight.clear, fun _ hb => absurd hb Bool.false_ne_true⟩
        fun j => ⟨fun hj => hopen j hj.1 hj.2, hkeep j⟩
      intro pkt hpkt
      rcases h.flight.owned pkt hpkt with hown | ⟨b, hb, hsn⟩
      · exact .inl hown
      · have hbx : b.store = x := by
          rw [Ghost.active_of_cur hb] at hactive
          exact (List.cons.inj hactive).1
        rw [inFlightOf, List.countP_eq_zero] at hzero
        exact absurd (beq_iff_eq.mpr (hsn.symm.trans (congrArg _ hbx))) (hzero pkt hpkt))
    (by
      intro h1 j hj
      by_contra hjne
      exact hclear h1 j (hopen j hj hjne))
    (fun b hb => absurd hb.symm (Option.some_ne_none b))
    (by
      change s.performed ++ effects = _
      rw [h.performed]
      cases hb : g.cur with
      | none => simp
      | some b => simp [hcur b hb])
    (by
      intro d hd
      rcases List.mem_append.mp hd with hd | hd
      · exact h.done d hd
      · rw [List.mem_singleton.mp hd]
        exact ⟨hcan, heff⟩)
    (by
      intro st sn hst hsn hstne
      obtain rfl := Option.some.inj (hseq.symm.trans hsn)
      exact (h.stalled st hst).done hactive (.inl hstne) _)
    (by
      intro z hz
      refine h.formed z ?_
      rw [hactive]
      exact List.mem_cons_of_mem _ hz)
  refine ⟨t, ?_, hcore, h1, h2, h3, h4, h5⟩
  have hback := completeStore_storeWBIdx hrun s.storeWBIdx
  rw [LSQStores.skipStore]
  change (LSQStores.completeStore p { s' with storeWBIdx := s.storeWBIdx } s.storeWBIdx >>= _) = _
  rw [hback, ok_bind]
  change Except.ok { t with storeWBIdx := incrStIdx s.storeWBIdx } = _
  have h6' : t.storeWBIdx = incrStIdx s.storeWBIdx := h6
  rw [← h6']

end Completing

end MimdramLean.Proofs

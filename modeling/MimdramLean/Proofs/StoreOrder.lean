import MimdramLean.Proofs.StoreWriteback

/-!
# Stores reach the cache in program order

Every call of the store queue keeps the invariant and fails no assertion. So every run does what a
first-in first-out store buffer does: stores are performed in program order, once, after they committed,
and under total store order one at a time.
-/

namespace MimdramLean.Proofs

open Library LSQStores

variable {n : Nat} {p : LSQParams} {g : Ghost} {s : LSQStores n} {init : Option StorePacket}

/-! ### The calls that change the queue -/

/-- Only stores change that have not been sent. -/
lemma Core.requeue (h : Core p g s) {g' : Ghost} {t : LSQStores n} (hq : QueueOk g' t) (hdone : g'.done = g.done)
    (hcur : g'.cur = g.cur) (hslots : ∀ i ∈ Ring.window s.storeHead s.storeWBIdx, t.storeQueue i = s.storeQueue i)
    (hhead : t.storeHead = s.storeHead) (hwb : t.storeWBIdx = s.storeWBIdx)
    (hstates : t.senderStates = s.senderStates) (hflight : t.inFlight = s.inFlight) (hinFlight : t.storeInFlight = s.storeInFlight)
    (hperformed : t.performed = s.performed) (hstall : ∀ st, t.stall = some st → StallOk g' st)
    (hformed : ∀ x ∈ g'.active, x.WellFormed) : Core p g' t := by
  have hopen : ∀ i, Open t i ↔ Open s i := by
    intro i
    rw [Open, Open, hhead, hwb]
    refine and_congr_right fun hi => ?_
    rw [hslots i hi]
  have hseq : ∀ i, Open s i → t.seqNumAt i = s.seqNumAt i := by
    intro i hi
    rw [seqNumAt, seqNumAt, hslots i hi.1]
  have hcount : ∀ sn, inFlightOf t sn = inFlightOf s sn := by
    intro sn
    rw [inFlightOf, inFlightOf, hflight]
  refine ⟨hq, FlightOk.of_iff (O := Open s) ⟨?_, ?_, ?_, h.flight.single, ?_, ?_⟩ hopen, ?_, ?_, ?_, hstall, hformed⟩
  · intro i hi
    obtain ⟨sn, st, hsn, hst, hidx, hout, hpos, hle⟩ := h.flight.opened i hi
    exact ⟨sn, st, (hseq i hi).trans hsn, hstates ▸ hst, hidx, by rw [hcount, hout], by rwa [hcount],
      by rwa [hcount]⟩
  · intro b hb
    obtain ⟨st, hst, hidx, hout, hle⟩ := h.flight.current b (hcur ▸ hb)
    exact ⟨st, hstates ▸ hst, hwb ▸ hidx, by rw [hcount, hout], hle⟩
  · intro pkt hpkt
    rw [hflight] at hpkt
    rw [hcur]
    rcases h.flight.owned pkt hpkt with ⟨i, hi, hsn⟩ | hown
    · exact .inl ⟨i, hi, (hseq i hi).trans hsn⟩
    · exact .inr hown
  · rw [hinFlight]
    exact h.flight.clear
  · rw [hinFlight, hcur]
    exact h.flight.free
  · rw [hcur]
    exact h.busy
  · rw [hperformed, h.performed, hdone, hcur]
  · rw [hdone]
    exact h.done

/-- The flags say the same of a store under way, whatever happens to the others. -/
lemma Control.of_eq (h : Control init g s) {g' : Ghost} {t : LSQStores n} (hcur : g'.cur = g.cur)
    (hretry : t.retryPkt = s.retryPkt) (hblocked : t.isStoreBlocked = s.isStoreBlocked)
    (hpending : t.pendingPkt = s.pendingPkt) (hhas : t.hasPendingPkt = s.hasPendingPkt) (hsends : SameSends s t) :
    Control init g' t := by
  cases h with
  | idle h1 h2 =>
    obtain ⟨h3, h4, h5, h6⟩ := h2
    exact .idle (hcur.trans h1) ⟨hretry.trans h3, hblocked.trans h4, h5.of_eq hpending, hhas.trans h6⟩
  | waits h1 h2 h3 h4 h5 h6 h7 h8 =>
    obtain ⟨st', hst', hto, -⟩ := hsends _ _ h7
    exact .waits (hcur.trans h1) h2 (hpending.trans h3) (hhas.trans h4) (hretry.trans h5) (hblocked.trans h6) hst'
      (hto.trans h8)
  | blocked h1 h2 h3 h4 h5 h6 h7 h8 =>
    obtain ⟨st', hst', hto, hpend⟩ := hsends _ _ h7
    refine .blocked (hcur.trans h1) h2 (hretry.trans h3) (hblocked.trans h4) (h5.of_eq hpending) (hhas.trans h6)
      hst' ?_
    rw [hto, hpend]
    exact h8

lemma sameSends_of_eq {t : LSQStores n} (h : t.senderStates = s.senderStates) : SameSends s t := by
  intro sn st hst
  exact ⟨st, by rw [h, hst], rfl, rfl⟩

/-- The stores that are not done keep their numbers. -/
lemma StallOk.of_seqNum {st : Stall} (h : StallOk g st) {g' : Ghost} (hdone : g'.done = g.done)
    (hactive : g.active.map ProgramStore.seqNum ⊆ g'.active.map ProgramStore.seqNum) : StallOk g' st := by
  obtain ⟨hlt, ⟨x, hx, hxs⟩ | hd⟩ := h
  · obtain ⟨y, hy, hys⟩ := List.mem_map.mp (hactive (List.mem_map_of_mem hx))
    exact ⟨hlt, .inl ⟨y, hy, hys.trans hxs⟩⟩
  · exact ⟨hlt, .inr (hdone ▸ hd)⟩

/-- The place of the store under way, and those of the stores that have not been touched. -/
lemma QueueOk.waiting_split (h : QueueOk g s) : ∃ front l, s.waiting = front ++ l ∧
    front.map s.storeQueue = (g.cur.map fun b => b.store.issued).toList ∧
    l.map s.storeQueue = g.rest.map ProgramStore.fresh ∧ l.Nodup ∧ ∀ i ∈ front, i ∉ l := by
  obtain ⟨front, l, hwait, hcurs, hmap⟩ := List.map_eq_append_iff.mp h.waiting
  have hnd : s.waiting.Nodup := Ring.nodup_window _ _
  rw [hwait, List.nodup_append] at hnd
  exact ⟨front, l, hwait, hcurs, hmap, hnd.2.1, fun i hi hl => hnd.2.2 i hi i hl rfl⟩

lemma Core.front_committed (h : Core p g s) {front : List (Fin n)}
    (hcurs : front.map s.storeQueue = (g.cur.map fun b => b.store.issued).toList) {i : Fin n} (hi : i ∈ front) :
    (s.storeQueue i).canWB = true ∧ (s.storeQueue i).inst.isSome = true := by
  have hmem := List.mem_map_of_mem (f := s.storeQueue) hi
  rw [hcurs, Option.mem_toList, Option.map_eq_some_iff] at hmem
  obtain ⟨b, hcur, hslot⟩ := hmem
  rw [← hslot]
  exact ⟨(h.busy b hcur).canWB, rfl⟩

lemma StoresInv.insertStore {prog : List ProgramStore} (h : StoresInv p init prog s) {seqNum : Nat} (sc pf : Bool)
    (hlt : s.lastSeqNum < seqNum) (hroom : s.stores + 1 < n) :
    ∃ t, s.insertStore ⟨seqNum, sc, pf, none⟩ = .ok t ∧ StoresInv p init (prog ++ [⟨seqNum, sc, pf, none, false⟩]) t := by
  obtain ⟨g, rfl, hcore, hctl⟩ := h
  have hq := hcore.queue.insert (x := ⟨seqNum, sc, pf, none, false⟩) hlt hroom rfl rfl
  have hnext : incrStIdx s.storeTail ≠ s.storeHead := by
    refine Ring.next_ne_of_dist ?_
    have := hcore.queue.stores
    omega
  have hnot : s.storeTail ∉ Ring.window s.storeHead s.storeWBIdx := by
    intro hmem
    refine Ring.not_mem_window_right s.storeHead s.storeTail ?_
    rw [hcore.queue.window_eq]
    exact List.mem_append_left _ hmem
  have hactive : ({ g with rest := g.rest ++ [⟨seqNum, sc, pf, none, false⟩] } : Ghost).active =
      g.active ++ [⟨seqNum, sc, pf, none, false⟩] := by
    simp [Ghost.active]
  refine ⟨_, ?_, _, ?_, hcore.requeue hq rfl rfl ?_ rfl rfl rfl rfl rfl rfl ?_ ?_,
    hctl.of_eq rfl rfl rfl rfl rfl (sameSends_of_eq rfl)⟩
  · have hstores : s.stores < n := by omega
    simp only [LSQStores.insertStore, ensure, if_pos hnext, if_pos hstores, ok_bind]
    rfl
  · simp [Ghost.program, Ghost.active]
  · intro i hi
    exact Function.update_of_ne (ne_of_mem_of_not_mem hi hnot) _ _
  · intro st hst
    refine (hcore.stalled st hst).of_seqNum rfl ?_
    rw [hactive, List.map_append]
    exact List.subset_append_left _ _
  · rw [hactive]
    intro x hx
    rcases List.mem_append.mp hx with hx | hx
    · exact hcore.formed x hx
    · rw [List.mem_singleton.mp hx]
      intro w hw
      exact absurd hw.symm (Option.some_ne_none w)

/-! ### Commit -/

/-- The loop of `commitStores` over stores that have committed before. -/
lemma commitLoop_skip {youngest : Nat} {l l' : List (Fin n)}
    (h : ∀ i ∈ l, (s.storeQueue i).canWB = true ∧ (s.storeQueue i).inst.isSome = true) :
    commitLoop youngest s (l ++ l') = commitLoop youngest s l' := by
  induction l with
  | nil => rfl
  | cons i l ih =>
    rw [List.forall_mem_cons] at h
    obtain ⟨inst, hinst⟩ := Option.isSome_iff_exists.mp h.1.2
    rw [List.cons_append, commitLoop, instAt, hinst]
    simp only [ok_bind, if_pos h.1.1]
    exact ih h.2

lemma commit_fresh {youngest : Nat} {x : ProgramStore} (h : x.seqNum ≤ youngest) :
    { x.fresh with canWB := true } = (x.commit youngest).fresh := by
  rw [ProgramStore.commit, if_pos h]
  rfl

/-- The loop over stores that have not been sent. -/
lemma commitLoop_fresh (youngest : Nat) {l : List (Fin n)} {xs : List ProgramStore} (hl : l.Nodup)
    (hmap : l.map s.storeQueue = xs.map ProgramStore.fresh)
    (hsorted : xs.Pairwise fun x y => x.seqNum < y.seqNum) :
    ∃ q k, commitLoop youngest s l = .ok { s with storeQueue := q, storesToWB := k } ∧
      (∀ i ∉ l, q i = s.storeQueue i) ∧ l.map q = (xs.map (ProgramStore.commit youngest)).map ProgramStore.fresh ∧
      k + (l.countP fun i => pend (s.storeQueue i) : Nat) = s.storesToWB + (l.countP fun i => pend (q i) : Nat) := by
  induction l generalizing s xs with
  | nil =>
    cases xs with
    | nil => exact ⟨s.storeQueue, s.storesToWB, rfl, fun _ _ => rfl, rfl, rfl⟩
    | cons x xs => exact absurd hmap.symm (List.cons_ne_nil _ _)
  | cons i l ih =>
    cases xs with
    | nil => exact absurd hmap (List.cons_ne_nil _ _)
    | cons x xs =>
      rw [List.nodup_cons] at hl
      rw [List.map_cons, List.map_cons, List.cons.injEq] at hmap
      rw [List.pairwise_cons] at hsorted
      obtain ⟨hslot, hmap⟩ := hmap
      have hinst : s.instAt i = .ok (x.inst none) := by
        rw [instAt, hslot, x.fresh_inst]
      simp only [commitLoop, hinst, ok_bind, hslot, x.fresh_canWB]
      by_cases hcan : x.canWB = true
      · rw [if_pos hcan]
        obtain ⟨q, k, hrun, hout, hq, hk⟩ := ih hl.2 hmap hsorted.2
        have hx : x.commit youngest = x := by
          rw [ProgramStore.commit]
          split
          · rw [← hcan]
          · rfl
        have hqi : q i = s.storeQueue i := hout i hl.1
        refine ⟨q, k, hrun, fun j hj => hout j (fun hm => hj (List.mem_cons_of_mem _ hm)), ?_, ?_⟩
        · rw [List.map_cons, List.map_cons, List.map_cons, hq, hqi, hslot, hx]
        · rw [List.countP_cons, List.countP_cons, hqi]
          omega
      · rw [if_neg hcan]
        by_cases hy : youngest < (x.inst none).seqNum
        · rw [if_pos hy]
          refine ⟨s.storeQueue, s.storesToWB, rfl, fun _ _ => rfl, ?_, rfl⟩
          have hid : (x :: xs).map (ProgramStore.commit youngest) = x :: xs := by
            refine (List.map_congr_left ?_).trans (List.map_id _)
            intro y hmem
            have hlt : youngest < y.seqNum := by
              rcases List.mem_cons.mp hmem with rfl | hmem
              · exact hy
              · exact hy.trans (hsorted.1 y hmem)
            rw [ProgramStore.commit, if_neg (not_le.mpr hlt)]
            rfl
          rw [hid, List.map_cons, List.map_cons, hslot, hmap]
        · rw [if_neg hy]
          have hmarked : l.map (s.markCanWB i).storeQueue = xs.map ProgramStore.fresh := by
            rw [← hmap]
            exact Ring.map_update_of_notMem hl.1
          obtain ⟨q, k, hrun, hout, hq, hk⟩ := ih (s := s.markCanWB i) hl.2 hmarked hsorted.2
          have hqi : q i = (x.commit youngest).fresh := by
            rw [hout i hl.1]
            change Function.update s.storeQueue i { s.storeQueue i with canWB := true } i = _
            rw [Function.update_self, hslot, commit_fresh (not_lt.mp hy)]
          refine ⟨q, k, hrun, ?_, ?_, ?_⟩
          · intro j hj
            rw [List.mem_cons, not_or] at hj
            rw [hout j hj.2]
            exact Function.update_of_ne hj.1 _ _
          · rw [List.map_cons, hq, hqi]
            rfl
          · have hkeep : l.countP (fun j => pend ((s.markCanWB i).storeQueue j)) =
                l.countP fun j => pend (s.storeQueue j) := Ring.countP_update_of_notMem hl.1 pend
            rw [hkeep] at hk
            change k + _ = s.storesToWB + 1 + _ at hk
            have hle : x.seqNum ≤ youngest := not_lt.mp hy
            have hpend : pend (x.commit youngest).fresh = true := by
              simp [pend, ProgramStore.commit, hle]
            have hnot : pend x.fresh = false := by
              simp [pend, hcan]
            rw [List.countP_cons, List.countP_cons, hqi, hslot, hpend, hnot]
            simp only [if_true, Bool.false_eq_true, if_false]
            omega

/-- A committed store stays as it is. -/
lemma commit_of_canWB {youngest : Nat} {x : ProgramStore} (h : x.canWB = true) : x.commit youngest = x := by
  rw [ProgramStore.commit]
  split
  · rw [← h]
  · rfl

lemma seqNum_commit (youngest : Nat) (xs : List ProgramStore) :
    (xs.map (ProgramStore.commit youngest)).map ProgramStore.seqNum = xs.map ProgramStore.seqNum := by
  rw [List.map_map]
  refine List.map_congr_left ?_
  intro x _
  simp only [Function.comp_apply, ProgramStore.commit]
  split <;> rfl

/-- The stores that are done, and the one under way, had committed. -/
lemma Core.program_commit (h : Core p g s) (youngest : Nat) :
    ({ g with rest := g.rest.map (ProgramStore.commit youngest) } : Ghost).program =
      g.program.map (ProgramStore.commit youngest) := by
  have hdone : (g.done.map Prod.fst).map (ProgramStore.commit youngest) = g.done.map Prod.fst := by
    rw [List.map_map]
    refine List.map_congr_left ?_
    intro d hd
    exact commit_of_canWB (h.done d hd).1
  have hbusy : (g.cur.map Busy.store).toList.map (ProgramStore.commit youngest) = (g.cur.map Busy.store).toList := by
    cases hcur : g.cur with
    | none => rfl
    | some b => exact congrArg (fun x => [x]) (commit_of_canWB (h.busy b hcur).canWB)
  simp only [Ghost.program, Ghost.active, List.map_append, hdone, hbusy]

lemma QueueOk.head_isSome (h : QueueOk g s) :
    s.stores = 0 ∨ (s.storeQueue s.storeHead).inst.isSome = true := by
  by_cases hne : s.storeHead = s.storeTail
  · left
    rw [h.stores, hne, Ring.dist_self]
    rfl
  · right
    have hmem : s.seqNumAt s.storeHead ∈ (Ring.window s.storeHead s.storeTail).map s.seqNumAt := by
      rw [Ring.window_pop hne]
      exact List.mem_cons_self
    rw [h.window_eq, List.map_append, h.seqNumAt_waiting] at hmem
    rcases List.mem_append.mp hmem with hmem | hmem
    · obtain ⟨i, hi, hsn⟩ := List.mem_map.mp hmem
      obtain ⟨sn, hsn', -⟩ := h.seqNum_lt_of_sent hi
      obtain ⟨inst, -, hinst, -⟩ := instAt_of_seqNumAt (hsn.symm.trans hsn')
      rw [hinst]
      rfl
    · obtain ⟨x, -, hsn⟩ := List.mem_map.mp hmem
      obtain ⟨inst, -, hinst, -⟩ := instAt_of_seqNumAt hsn.symm
      rw [hinst]
      rfl

lemma StoresInv.commitStores {prog : List ProgramStore} (h : StoresInv p init prog s) (youngest : Nat) :
    ∃ t, s.commitStores youngest = .ok t ∧ StoresInv p init (prog.map (ProgramStore.commit youngest)) t := by
  obtain ⟨g, rfl, hcore, hctl⟩ := h
  have hqueue := hcore.queue
  -- the stores at the front have committed: those that were sent, and the one that is under way
  obtain ⟨front, l, hwait, hcurs, hmap, hndl, hdisj⟩ := hqueue.waiting_split
  have hsent : ∀ i ∈ Ring.window s.storeHead s.storeWBIdx ++ front,
      (s.storeQueue i).canWB = true ∧ (s.storeQueue i).inst.isSome = true := by
    intro i hi
    rcases List.mem_append.mp hi with hi | hi
    · obtain ⟨sn, hsn, -⟩ := hqueue.seqNum_lt_of_sent hi
      obtain ⟨inst, -, hinst, -⟩ := instAt_of_seqNumAt hsn
      exact ⟨hqueue.sentWB i hi, by rw [hinst]; rfl⟩
    · exact hcore.front_committed hcurs hi
  have hsorted : g.rest.Pairwise fun x y => x.seqNum < y.seqNum := by
    have hs := hqueue.sorted
    rw [Ghost.program, Ghost.active, List.pairwise_append, List.pairwise_append] at hs
    exact hs.2.1.2.1
  obtain ⟨q, k, hrun, hout, hq, hk⟩ := commitLoop_fresh youngest hndl hmap hsorted
  have hactive :
      ({ g with rest := g.rest.map (ProgramStore.commit youngest) } : Ghost).active.map ProgramStore.seqNum =
        g.active.map ProgramStore.seqNum := by
    simp only [Ghost.active, List.map_append, seqNum_commit]
  have hq' : QueueOk { g with rest := g.rest.map (ProgramStore.commit youngest) }
      { s with storeQueue := q, storesToWB := k } := by
    refine hqueue.update ?_ ?_ rfl ?_ ?_
    · intro i hi
      refine hout i fun hl => hi ?_
      rw [hwait]
      exact List.mem_append_right _ hl
    · have hfirst : front.map q = front.map s.storeQueue := List.map_congr_left fun i hi => hout i (hdisj i hi)
      rw [hwait, List.map_append, hfirst, hcurs, hq]
      rfl
    · exact hactive
    · have hcount : front.countP (fun i => pend (q i)) = front.countP fun i => pend (s.storeQueue i) := by
        refine List.countP_congr ?_
        intro i hi
        rw [hout i (hdisj i hi)]
      rw [hwait, List.countP_append, List.countP_append, hcount]
      omega
  refine ⟨_, ?_, _, hcore.program_commit youngest, hcore.requeue hq' rfl rfl ?_ rfl rfl rfl rfl rfl rfl ?_ ?_,
    hctl.of_eq rfl rfl rfl rfl rfl (sameSends_of_eq rfl)⟩
  · simp only [LSQStores.commitStores, ensure, if_pos hqueue.head_isSome, ok_bind]
    rw [hqueue.window_eq, hwait, ← List.append_assoc, commitLoop_skip hsent]
    exact hrun
  · intro i hi
    refine hout i fun hl => hqueue.notMem_waiting hi ?_
    rw [hwait]
    exact List.mem_append_right _ hl
  · intro st hst
    exact (hcore.stalled st hst).of_seqNum rfl (hactive ▸ List.Subset.refl _)
  · intro x hx
    rcases List.mem_append.mp hx with hx | hx
    · exact hcore.formed x (List.mem_append_left _ hx)
    · obtain ⟨y, hy, rfl⟩ := List.mem_map.mp hx
      have hf := hcore.formed y (List.mem_append_right _ hy)
      unfold ProgramStore.commit
      split
      · exact hf
      · exact hf

/-! ### Squash -/

/-- What a squash leaves. -/
def survives (num : Nat) (x : ProgramStore) : Bool := x.canWB || decide (x.seqNum ≤ num)

/-- The youngest store is squashed. -/
lemma Core.pop (h : Core p g s) {x : ProgramStore} {xs : List ProgramStore} (hrest : g.rest = xs ++ [x])
    (hwb : x.canWB = false) (hstall : ∀ st, s.stall = some st → st.storeIsn ≠ x.seqNum) (e : StoreSlot) :
    Core p { g with rest := xs } { s.setSlot (decrStIdx s.storeTail) e with
      squashed := x.seqNum :: s.squashed, stores := s.stores - 1, storeTail := decrStIdx s.storeTail } := by
  have hq := h.queue.pop hrest hwb e
  have hactive : g.active = ({ g with rest := xs } : Ghost).active ++ [x] := by
    simp [Ghost.active, hrest]
  have hnot : decrStIdx s.storeTail ∉ Ring.window s.storeHead s.storeWBIdx := by
    intro hmem
    have hw := hq.window_eq
    refine Ring.not_mem_window_right s.storeHead (decrStIdx s.storeTail) ?_
    change Ring.window s.storeHead (decrStIdx s.storeTail) = Ring.window s.storeHead s.storeWBIdx ++ _ at hw
    rw [hw]
    exact List.mem_append_left _ hmem
  refine h.requeue hq rfl rfl ?_ rfl rfl rfl rfl rfl rfl ?_ ?_
  · intro i hi
    exact Function.update_of_ne (ne_of_mem_of_not_mem hi hnot) _ _
  · intro st hst
    obtain ⟨hlt, ⟨y, hy, hys⟩ | hd⟩ := h.stalled st hst
    · rw [hactive] at hy
      rcases List.mem_append.mp hy with hy | hy
      · exact ⟨hlt, .inl ⟨y, hy, hys⟩⟩
      · rw [List.mem_singleton.mp hy] at hys
        exact absurd hys.symm (hstall st hst)
    · exact ⟨hlt, .inr hd⟩
  · intro y hy
    refine h.formed y ?_
    rw [hactive]
    exact List.mem_append_left _ hy

/-- The store before the tail. -/
lemma QueueOk.last_slot (h : QueueOk g s) {x : ProgramStore} {xs : List ProgramStore} (hrest : g.rest = xs ++ [x]) :
    s.storeQueue (decrStIdx s.storeTail) = x.fresh := by
  have hslots : g.slots =
      ((g.cur.map fun b => b.store.issued).toList ++ xs.map ProgramStore.fresh) ++ [x.fresh] := by
    simp [Ghost.slots, hrest]
  have hw := h.waiting
  have hne : s.storeWBIdx ≠ s.storeTail := by
    intro heq
    rw [LSQStores.waiting, heq, Ring.window_self, hslots] at hw
    exact absurd hw.symm (List.append_ne_nil_of_right_ne_nil _ (List.cons_ne_nil _ _))
  have hnext : Ring.next (decrStIdx s.storeTail) = s.storeTail := Ring.next_prev s.storeTail
  rw [LSQStores.waiting, ← hnext, Ring.window_push (by rw [hnext]; exact hne.symm), List.map_append, hslots] at hw
  exact List.head_eq_of_cons_eq (List.append_inj' hw rfl).2

/-- When no store waits behind the one under way, the store before the tail has committed. -/
lemma Core.last_committed (h : Core p g s) (hrest : g.rest = []) (hzero : s.stores ≠ 0) :
    ∃ inst, s.instAt (decrStIdx s.storeTail) = .ok inst ∧ (s.storeQueue (decrStIdx s.storeTail)).canWB = true := by
  have hnext : Ring.next (decrStIdx s.storeTail) = s.storeTail := Ring.next_prev s.storeTail
  have hne : s.storeTail ≠ s.storeHead := by
    intro heq
    refine hzero ?_
    rw [h.queue.stores, heq, Ring.dist_self]
    rfl
  have hmem : decrStIdx s.storeTail ∈ Ring.window s.storeHead s.storeTail := by
    have hne' : Ring.next (decrStIdx s.storeTail) ≠ s.storeHead := hnext.trans_ne hne
    have hpush := Ring.window_push hne'
    rw [hnext] at hpush
    rw [hpush]
    exact List.mem_append_right _ (List.mem_singleton_self _)
  rw [h.queue.window_eq] at hmem
  rcases List.mem_append.mp hmem with hmem | hmem
  · obtain ⟨sn, hsn, -⟩ := h.queue.seqNum_lt_of_sent hmem
    obtain ⟨inst, hinst, -⟩ := instAt_of_seqNumAt hsn
    exact ⟨inst, hinst, h.queue.sentWB _ hmem⟩
  · have hslot := List.mem_map_of_mem (f := s.storeQueue) hmem
    rw [h.queue.waiting, Ghost.slots, hrest, List.map_nil, List.append_nil, Option.mem_toList,
      Option.map_eq_some_iff] at hslot
    obtain ⟨b, hcur, hslot⟩ := hslot
    refine ⟨b.store.inst (some (b.store.written.elim [] ProgramStore.bytes)), ?_, ?_⟩
    · rw [instAt, ← hslot, b.store.issued_inst]
    · rw [← hslot]
      exact (h.busy b hcur).canWB

/-- The loop of `squash` over the stores. -/
lemma Core.squashStores {num : Nat} (fuel : Nat) (h : Core p g s) (hctl : Control init g s)
    (hguard : ∀ x ∈ g.rest, x.canWB = true → x.seqNum ≤ num)
    (hstall : ∀ st, s.stall = some st → st.loadSeqNum ≤ num) (hfuel : Ring.dist s.storeHead s.storeTail ≤ fuel) :
    ∃ t, LSQStores.squashStores num fuel s = .ok t ∧ Core p { g with rest := g.rest.filter (survives num) } t ∧
      Control init { g with rest := g.rest.filter (survives num) } t := by
  induction fuel generalizing g s with
  | zero =>
    have hzero : s.stores = 0 := by
      rw [h.queue.stores, Nat.le_zero.mp hfuel]
      rfl
    have hrest := h.queue.rest_eq_nil hzero
    refine ⟨s, by rw [LSQStores.squashStores, if_pos hzero], ?_⟩
    rw [hrest, List.filter_nil, ← hrest]
    exact ⟨h, hctl⟩
  | succ fuel ih =>
    rw [LSQStores.squashStores]
    by_cases hzero : s.stores = 0
    · rw [if_pos hzero]
      have hrest := h.queue.rest_eq_nil hzero
      refine ⟨s, rfl, ?_⟩
      rw [hrest, List.filter_nil, ← hrest]
      exact ⟨h, hctl⟩
    · rw [if_neg hzero]
      rcases List.eq_nil_or_concat g.rest with hrest | ⟨xs, x, hrest⟩
      · -- nothing but committed stores is left
        obtain ⟨inst, hinst, hcan⟩ := h.last_committed hrest hzero
        refine ⟨s, ?_, ?_⟩
        · simp only [hinst, ok_bind]
          rw [if_neg]
          rintro ⟨-, hf⟩
          exact Bool.false_ne_true (hf.symm.trans hcan)
        · rw [hrest, List.filter_nil, ← hrest]
          exact ⟨h, hctl⟩
      · rw [List.concat_eq_append] at hrest
        have hslot := h.queue.last_slot hrest
        have hinst : s.instAt (decrStIdx s.storeTail) = .ok (x.inst none) := by
          rw [instAt, hslot, x.fresh_inst]
        have hmemx : x ∈ g.rest := by
          rw [hrest]
          exact List.mem_append_right _ (List.mem_singleton_self _)
        simp only [hinst, ok_bind]
        by_cases hlt : num < x.seqNum
        · have hwb : x.canWB = false := by
            cases hcan : x.canWB with
            | false => rfl
            | true => exact absurd (hguard x hmemx hcan) (not_le.mpr hlt)
          have hstallne : ∀ st, s.stall = some st → st.storeIsn ≠ x.seqNum := by
            intro st hst
            exact ((h.stalled st hst).1.trans_le ((hstall st hst).trans hlt.le)).ne
          have hcond : num < (x.inst none).seqNum ∧ (s.storeQueue (decrStIdx s.storeTail)).canWB = false := by
            refine ⟨hlt, ?_⟩
            rw [hslot]
            exact hwb
          have hensure : (s.stall.all fun st => decide (st.storeIsn ≠ (x.inst none).seqNum)) = true := by
            cases hst : s.stall with
            | none => rfl
            | some st => exact decide_eq_true (hstallne st hst)
          have hpop := h.pop hrest hwb hstallne
            { s.storeQueue (decrStIdx s.storeTail) with
              inst := none, canWB := false, req := none
              sreqs := if (s.storeQueue (decrStIdx s.storeTail)).isSplit then none
                else (s.storeQueue (decrStIdx s.storeTail)).sreqs }
          obtain ⟨t, hrun, hcore, hctl'⟩ := ih hpop (hctl.of_eq rfl rfl rfl rfl rfl (sameSends_of_eq rfl))
            (fun y hy => hguard y (by rw [hrest]; exact List.mem_append_left _ hy)) hstall
            (by
              have hs := hpop.queue.stores
              change s.stores - 1 = _ at hs
              have hs' := h.queue.stores
              omega)
          have hfilter : g.rest.filter (survives num) = xs.filter (survives num) := by
            have hx : survives num x = false := by
              rw [survives, hwb, decide_eq_false (not_le.mpr hlt)]
              rfl
            rw [hrest, List.filter_append, List.filter_singleton, hx]
            exact List.append_nil _
          rw [if_pos hcond, hfilter]
          refine ⟨t, ?_, hcore, hctl'⟩
          simp only [ensure, if_pos hensure, ok_bind]
          exact hrun
        · have hall : g.rest.filter (survives num) = g.rest := by
            rw [List.filter_eq_self]
            intro y hy
            have hsorted := h.queue.sorted
            rw [Ghost.program, Ghost.active, List.pairwise_append, List.pairwise_append, hrest,
              List.pairwise_append] at hsorted
            have hle : y.seqNum ≤ num := by
              rw [hrest] at hy
              rcases List.mem_append.mp hy with hy | hy
              · exact ((hsorted.2.1.2.1.2.2 y hy x (List.mem_singleton_self _)).le).trans (not_lt.mp hlt)
              · rw [List.mem_singleton.mp hy]
                exact not_lt.mp hlt
            rw [survives, decide_eq_true hle, Bool.or_true]
          refine ⟨s, ?_, ?_⟩
          · rw [if_neg]
            rintro ⟨hlt', -⟩
            exact hlt hlt'
          · rw [hall]
            exact ⟨h, hctl⟩

lemma squashLoads_eq (s : LSQStores n) (num : Nat) : ∃ st, s.squashLoads num = { s with stall := st } ∧
    ∀ x, st = some x → s.stall = some x ∧ x.loadSeqNum ≤ num := by
  unfold squashLoads
  split
  · rename_i st hst
    by_cases hlt : num < st.loadSeqNum
    · refine ⟨none, if_pos hlt, ?_⟩
      intro x hx
      exact absurd hx.symm (Option.some_ne_none x)
    · refine ⟨s.stall, if_neg hlt, ?_⟩
      intro x hx
      obtain rfl := Option.some.inj (hst.symm.trans hx)
      exact ⟨hst, not_lt.mp hlt⟩
  · rename_i hst
    refine ⟨s.stall, rfl, ?_⟩
    intro x hx
    exact absurd (hx.symm.trans hst) (Option.some_ne_none x)

lemma StoresInv.squash {prog : List ProgramStore} (h : StoresInv p init prog s) {num : Nat}
    (hguard : ∀ i ∈ Ring.window s.storeHead s.storeTail, (s.storeQueue i).canWB = true →
      ∀ sn, s.seqNumAt i = some sn → sn ≤ num) :
    ∃ t, s.squash num = .ok t ∧ StoresInv p init (prog.filter (survives num)) t := by
  obtain ⟨g, rfl, hcore, hctl⟩ := h
  obtain ⟨st, hsquash, hst⟩ := squashLoads_eq s num
  have hcore' : Core p g { s with stall := st } :=
    hcore.requeue (hcore.queue.of_eq rfl rfl rfl rfl rfl rfl rfl rfl) rfl rfl (fun _ _ => rfl) rfl rfl rfl rfl rfl rfl
      (fun x hx => hcore.stalled x (hst x hx).1) hcore.formed
  have hguard' : ∀ x ∈ g.rest, x.canWB = true → x.seqNum ≤ num := by
    intro x hx hcan
    have hslot : x.fresh ∈ s.waiting.map s.storeQueue := by
      rw [hcore.queue.waiting]
      exact List.mem_append_right _ (List.mem_map_of_mem hx)
    obtain ⟨i, hi, hfresh⟩ := List.mem_map.mp hslot
    refine hguard i ?_ ?_ x.seqNum ?_
    · rw [hcore.queue.window_eq]
      exact List.mem_append_right _ hi
    · rw [hfresh]
      exact hcan
    · rw [seqNumAt, hfresh, x.fresh_inst]
      rfl
  obtain ⟨t, hrun, ht, hctl'⟩ := hcore'.squashStores n (hctl.of_eq rfl rfl rfl rfl rfl (sameSends_of_eq rfl))
    hguard' (fun x hx => (hst x hx).2) (Ring.dist_lt _ _).le
  refine ⟨t, by rw [LSQStores.squash, hsquash]; exact hrun, _, ?_, ht, hctl'⟩
  have hdone : (g.done.map Prod.fst).filter (survives num) = g.done.map Prod.fst := by
    rw [List.filter_eq_self]
    intro x hx
    obtain ⟨d, hd, rfl⟩ := List.mem_map.mp hx
    rw [survives, (hcore.done d hd).1, Bool.true_or]
  have hbusy : (g.cur.map Busy.store).toList.filter (survives num) = (g.cur.map Busy.store).toList := by
    rw [List.filter_eq_self]
    intro x hx
    obtain ⟨b, hb, rfl⟩ := Option.map_eq_some_iff.mp (Option.mem_toList.mp hx)
    rw [survives, (hcore.busy b hb).canWB, Bool.true_or]
  simp only [Ghost.program, Ghost.active, List.filter_append, hdone, hbusy]

/-! ### Execution -/

lemma fresh_execute {x : ProgramStore} {w : StoreWrite} (hnone : x.written = none) :
    (x.execute w).fresh = { x.fresh.fill w with
      canWB := x.isStoreConditional && decide (w.req.size % 256 ≠ 0) } := by
  simp [ProgramStore.fresh, ProgramStore.execute, hnone, StoreSlot.fill, StoreSlot.ofInst, ProgramStore.inst]

/-- What `executeStore` does to the entry of a store. -/
lemma executeStore_eq {x : ProgramStore} {w : StoreWrite} {i : Fin n} (hstores : s.stores ≠ 0)
    (hsize : w.req.size ≤ 32 ∨ w.req.isCacheBlockZero = true) (hslot : s.storeQueue i = x.fresh)
    (hnone : x.written = none) (hcan : x.canWB = false) :
    s.executeStore w i = .ok { s with
      storeQueue := Function.update s.storeQueue i (x.execute w).fresh
      storesToWB := s.storesToWB + (pend (x.execute w).fresh).toNat } := by
  have hwrite : s.write w i = .ok (s.setSlot i (x.fresh.fill w)) := by
    simp only [LSQStores.write, instAt, hslot, x.fresh_inst, ensure, if_pos hsize, ok_bind]
  have hat : (s.setSlot i (x.fresh.fill w)).storeQueue i = x.fresh.fill w := Function.update_self ..
  have hinst' : (s.setSlot i (x.fresh.fill w)).instAt i = .ok (x.inst none) := by
    have hfill : (x.fresh.fill w).inst = some (x.inst none) := x.fresh_inst
    rw [instAt, hat, hfill]
  have hsize' : (x.fresh.fill w).size = w.req.size % 256 := rfl
  have hcompleted : (x.execute w).fresh.completed = false := ProgramStore.fresh_completed _
  have hpend : pend (x.execute w).fresh = (x.isStoreConditional && decide (w.req.size % 256 ≠ 0)) := by
    rw [pend, hcompleted, fresh_execute hnone, Bool.not_false, Bool.and_true]
  simp only [LSQStores.executeStore, ensure, if_pos hstores, ok_bind, hwrite, hinst', hat, hsize']
  rw [hpend, fresh_execute hnone]
  have hkeep : { x.fresh.fill w with canWB := false } = x.fresh.fill w := by
    rw [← hcan]
    rfl
  by_cases hzero : w.req.size % 256 = 0
  · rw [if_pos hzero, decide_eq_false (not_not_intro hzero), Bool.and_false, hkeep]
    simp [setSlot]
  · rw [if_neg hzero, decide_eq_true hzero, Bool.and_true]
    cases hsc : x.isStoreConditional with
    | false =>
      have hif : (x.inst none).isStoreConditional = false := hsc
      rw [hif, hkeep]
      simp [setSlot]
    | true =>
      have hif : (x.inst none).isStoreConditional = true := hsc
      rw [hif, if_pos rfl, markCanWB, hat]
      simp [setSlot]

/-- The numbers of the stores differ, so one store is executed. -/
lemma map_execute {x : ProgramStore} {pre post : List ProgramStore} (w : StoreWrite)
    (hsorted : (pre ++ x :: post).Pairwise fun x y => x.seqNum < y.seqNum) :
    ((pre ++ x :: post).map fun y => if y.seqNum = x.seqNum then y.execute w else y) =
      pre ++ x.execute w :: post := by
  rw [List.pairwise_append, List.pairwise_cons] at hsorted
  obtain ⟨-, ⟨hpost, -⟩, hpre⟩ := hsorted
  have hid : ∀ {ys : List ProgramStore}, (∀ y ∈ ys, y.seqNum ≠ x.seqNum) →
      (ys.map fun y => if y.seqNum = x.seqNum then y.execute w else y) = ys := by
    intro ys hys
    refine (List.map_congr_left ?_).trans (List.map_id ys)
    intro y hy
    rw [if_neg (hys y hy)]
    rfl
  rw [List.map_append, List.map_cons, if_pos rfl, hid fun y hy => (hpre y hy x List.mem_cons_self).ne,
    hid fun y hy => (hpost y hy).ne']

lemma StoresInv.executeStore {prog : List ProgramStore} (h : StoresInv p init prog s) {seqNum : Nat} {w : StoreWrite}
    {i : Fin n} (hi : i ∈ s.waiting) (hseq : s.seqNumAt i = some seqNum) (hreq : (s.storeQueue i).req = none)
    (hcan : (s.storeQueue i).canWB = false) (hform : w.wellFormed = true)
    (hsc : ∀ inst, (s.storeQueue i).inst = some inst → inst.isStoreConditional = true →
      w.sreqs = none ∧ w.req.isMmappedIpr = false) :
    ∃ t, s.executeStore w i = .ok t ∧
      StoresInv p init (prog.map fun x => if x.seqNum = seqNum then x.execute w else x) t := by
  obtain ⟨g, rfl, hcore, hctl⟩ := h
  have hqueue := hcore.queue
  -- the place is that of a store that has not been sent
  obtain ⟨front, l, hwait, hcurs, hmap, hndl, -⟩ := hqueue.waiting_split
  have hnotFront : i ∉ front := by
    intro hmem
    exact Bool.false_ne_true (hcan.symm.trans (hcore.front_committed hcurs hmem).1)
  have hil : i ∈ l := by
    rw [hwait] at hi
    exact (List.mem_append.mp hi).resolve_left hnotFront
  obtain ⟨l₁, l₂, rfl⟩ := List.append_of_mem hil
  rw [List.map_append, List.map_cons] at hmap
  obtain ⟨xs₁, ys, hrest, hmap₁, hmap₂⟩ := List.map_eq_append_iff.mp hmap.symm
  obtain ⟨x, xs₂, rfl, hslot, hmap₂⟩ := List.map_eq_cons_iff.mp hmap₂
  have hnone : x.written = none := by
    rw [← hslot, x.fresh_req] at hreq
    exact Option.map_eq_none_iff.mp hreq
  have hxsn : x.seqNum = seqNum := by
    rw [seqNumAt, ← hslot, x.fresh_inst] at hseq
    exact Option.some.inj hseq
  have hxcan : x.canWB = false := by rwa [← hslot] at hcan
  subst hxsn
  have hprogram : g.program = (g.done.map Prod.fst ++ (g.cur.map Busy.store).toList ++ xs₁) ++ x :: xs₂ := by
    simp [Ghost.program, Ghost.active, hrest]
  have hprog : ({ g with rest := xs₁ ++ x.execute w :: xs₂ } : Ghost).program =
      g.program.map fun y => if y.seqNum = x.seqNum then y.execute w else y := by
    rw [hprogram, map_execute w (hprogram ▸ hqueue.sorted)]
    simp [Ghost.program, Ghost.active]
  have hactive : ({ g with rest := xs₁ ++ x.execute w :: xs₂ } : Ghost).active.map ProgramStore.seqNum =
      g.active.map ProgramStore.seqNum := by
    simp [Ghost.active, hrest, ProgramStore.execute]
  have hstores : s.stores ≠ 0 := by
    have hmem : i ∈ Ring.window s.storeHead s.storeTail := by
      rw [hqueue.window_eq]
      exact List.mem_append_right _ hi
    have hpos := (Nat.zero_le _).trans_lt (Ring.mem_window.mp hmem)
    rw [hqueue.stores]
    omega
  have hinst : (s.storeQueue i).inst = some (x.inst none) := by rw [← hslot, x.fresh_inst]
  have hsize : w.req.size ≤ 32 ∨ w.req.isCacheBlockZero = true := by
    simp only [StoreWrite.wellFormed, Bool.and_eq_true, Bool.or_eq_true, decide_eq_true_eq] at hform
    exact hform.1.imp And.right id
  have hq : QueueOk { g with rest := xs₁ ++ x.execute w :: xs₂ } { s with
      storeQueue := Function.update s.storeQueue i (x.execute w).fresh
      storesToWB := s.storesToWB + (pend (x.execute w).fresh).toNat } := by
    refine hqueue.update ?_ ?_ rfl ?_ ?_
    · intro j hj
      refine Function.update_of_ne ?_ _ _
      rintro rfl
      exact hj hi
    · rw [List.nodup_append, List.nodup_cons] at hndl
      have h₁ : i ∉ l₁ := fun hm => hndl.2.2 i hm i List.mem_cons_self rfl
      rw [hwait, List.map_append, List.map_append, List.map_cons, Function.update_self,
        Ring.map_update_of_notMem hnotFront, Ring.map_update_of_notMem h₁,
        Ring.map_update_of_notMem hndl.2.1.1, hcurs, ← hmap₁, ← hmap₂]
      simp [Ghost.slots]
    · exact hactive
    · have hnd : s.waiting.Nodup := Ring.nodup_window _ _
      have hcount := Ring.countP_update (f := s.storeQueue) (v := (x.execute w).fresh) hnd hi pend
      have hzero : pend (s.storeQueue i) = false := by
        rw [pend, hcan]
        rfl
      rw [hzero] at hcount
      simp only [Bool.toNat_false] at hcount
      omega
  refine ⟨{ s with
      storeQueue := Function.update s.storeQueue i (x.execute w).fresh
      storesToWB := s.storesToWB + (pend (x.execute w).fresh).toNat }, ?_, _, hprog,
    hcore.requeue hq rfl rfl ?_ rfl rfl rfl rfl rfl rfl ?_ ?_, hctl.of_eq rfl rfl rfl rfl rfl (sameSends_of_eq rfl)⟩
  · exact executeStore_eq hstores hsize hslot.symm hnone hxcan
  · intro j hj
    refine Function.update_of_ne ?_ _ _
    rintro rfl
    exact hqueue.notMem_waiting hj hi
  · intro st hst
    exact (hcore.stalled st hst).of_seqNum rfl (hactive ▸ List.Subset.refl _)
  · intro y hy
    have hold : ∀ z ∈ g.active, z.WellFormed := hcore.formed
    rw [Ghost.active, hrest] at hold
    rcases List.mem_append.mp hy with hy | hy
    · exact hold y (List.mem_append_left _ hy)
    · rcases List.mem_append.mp hy with hy | hy
      · exact hold y (List.mem_append_right _ (List.mem_append_left _ hy))
      · rcases List.mem_cons.mp hy with rfl | hy
        · intro w' hw'
          obtain rfl := Option.some.inj hw'
          exact ⟨hform, hsc _ hinst⟩
        · exact hold y (List.mem_append_right _ (List.mem_append_right _ (List.mem_cons_of_mem _ hy)))

/-! ### Runs -/

lemma Control.unsent_ne_nil (h : Control init g s) {b : Busy} (hcur : g.cur = some b) : b.unsent ≠ [] := by
  cases h with
  | idle hnone => exact absurd (hnone.symm.trans hcur).symm (Option.some_ne_none b)
  | waits hb hus =>
    rw [← Option.some.inj (hb.symm.trans hcur), hus]
    exact List.cons_ne_nil _ _
  | blocked hb hus =>
    rw [← Option.some.inj (hb.symm.trans hcur), hus]
    exact List.cons_ne_nil _ _

lemma StoresInv.completeDataAccess {prog : List ProgramStore} (h : StoresInv p init prog s) {pkt : StorePacket}
    (hpkt : pkt ∈ s.inFlight) :
    ∃ t, LSQStores.completeDataAccess p { s with inFlight := s.inFlight.erase pkt } pkt = .ok t ∧
      StoresInv p init prog t := by
  obtain ⟨g, rfl, hcore, hctl⟩ := h
  obtain ⟨t, hrun, hcore', h1, h2, h3, h4, hsends⟩ :=
    hcore.completeDataAccess hpkt fun _ hb => hctl.unsent_ne_nil hb
  exact ⟨t, hrun, g, rfl, hcore', hctl.of_eq rfl h1 h2 h3 h4 hsends⟩

lemma StoresInv.stall {prog : List ProgramStore} (h : StoresInv p init prog s) {st : Stall}
    (hmem : ∃ i ∈ s.waiting, s.seqNumAt i = some st.storeIsn) (hlt : st.storeIsn < st.loadSeqNum) :
    StoresInv p init prog { s with stall := some st } := by
  obtain ⟨g, rfl, hcore, hctl⟩ := h
  obtain ⟨i, hi, hsn⟩ := hmem
  refine ⟨g, rfl, hcore.requeue (hcore.queue.of_eq rfl rfl rfl rfl rfl rfl rfl rfl) rfl rfl (fun _ _ => rfl) rfl rfl
    rfl rfl rfl rfl ?_ hcore.formed, hctl.of_eq rfl rfl rfl rfl rfl (sameSends_of_eq rfl)⟩
  intro st' hst'
  obtain rfl := Option.some.inj hst'
  have hseq := List.mem_map_of_mem (f := s.seqNumAt) hi
  rw [hcore.queue.seqNumAt_waiting] at hseq
  obtain ⟨x, hx, hxs⟩ := List.mem_map.mp hseq
  exact ⟨hlt, .inl ⟨x, hx, Option.some.inj (hxs.trans hsn)⟩⟩

/-- Every call keeps the invariant, and fails no assertion but the one that reads `pendingPkt`. -/
lemma StoresInv.call {prog : List ProgramStore} (h : StoresInv p init prog s) {e : StoreEvent n}
    (he : s.enabled e = true) : Ends init (s.call p e) (StoresInv p init (ProgramStore.step prog e)) := by
  cases e with
  | insertStore seqNum sc pf =>
    simp only [enabled, Bool.and_eq_true, decide_eq_true_eq] at he
    exact .inr (h.insertStore sc pf he.1 he.2)
  | executeStore seqNum w i =>
    simp only [enabled, Bool.and_eq_true, List.contains_iff_mem, beq_iff_eq, Option.isNone_iff_eq_none,
      Bool.not_eq_true'] at he
    obtain ⟨⟨⟨⟨⟨hi, hseq⟩, hreq⟩, hcan⟩, hform⟩, hsc⟩ := he
    refine .inr (h.executeStore hi hseq hreq hcan hform ?_)
    intro inst hinst hcond
    rw [hinst] at hsc
    simp only [Option.all_some, hcond, Bool.not_true, Bool.false_or, Bool.and_eq_true, Option.isNone_iff_eq_none,
      Bool.not_eq_true'] at hsc
    exact hsc
  | commitStores youngest => exact .inr (h.commitStores youngest)
  | writebackStores env => exact h.writebackStores env
  | recvRetry env => exact .inr (h.recvRetry env)
  | completeDataAccess pkt =>
    simp only [enabled, List.contains_iff_mem] at he
    exact .inr (h.completeDataAccess he)
  | squash num =>
    simp only [enabled, List.all_eq_true, Bool.or_eq_true, Bool.not_eq_true'] at he
    refine .inr (h.squash ?_)
    intro i hi hcan sn hsn
    have hone := he i hi
    rw [hcan, hsn] at hone
    exact of_decide_eq_true (hone.resolve_left Bool.false_ne_true.symm)
  | usePort =>
    obtain ⟨g, rfl, hcore, hctl⟩ := h
    exact .inr ⟨_, rfl, g, rfl,
      hcore.flags s.retryPkt s.isStoreBlocked s.pendingPkt s.hasPendingPkt (s.usedPorts + 1), hctl.usedPorts _⟩
  | stall st =>
    simp only [enabled, Bool.and_eq_true, List.any_eq_true, beq_iff_eq, decide_eq_true_eq] at he
    exact .inr ⟨_, rfl, h.stall he.1.1 he.1.2⟩

lemma queueOk_reset (n : Nat) (init : Option StorePacket) : QueueOk ⟨[], none, []⟩ (LSQStores.reset n init) := by
  have hempty : Ring.window (LSQStores.reset n init).storeHead (LSQStores.reset n init).storeTail = [] := Ring.window_self _
  refine ⟨Ring.between_left _ _, ?_, ?_, congrArg (List.map _) hempty, ⟨[], (congrArg (List.map _) hempty).symm⟩, ?_,
    fun hne => absurd rfl hne, List.Pairwise.nil, List.forall_mem_nil _, List.forall_mem_nil _⟩
  · change (0 : Int) = (Ring.dist (LSQStores.reset n init).storeHead (LSQStores.reset n init).storeHead : Int)
    rw [Ring.dist_self]
    rfl
  · rw [hempty]
    rfl
  · intro i hi
    change i ∈ Ring.window (LSQStores.reset n init).storeHead (LSQStores.reset n init).storeTail at hi
    rw [hempty] at hi
    exact absurd hi List.not_mem_nil

lemma storesInv_reset (p : LSQParams) (n : Nat) (init : Option StorePacket) :
    StoresInv p init [] (LSQStores.reset n init) := by
  have hclosed : ∀ i, ¬Open (LSQStores.reset n init) i := by
    intro i hi
    have hmem : i ∈ Ring.window (LSQStores.reset n init).storeHead (LSQStores.reset n init).storeHead := hi.1
    rw [Ring.window_self] at hmem
    exact List.not_mem_nil hmem
  refine ⟨⟨[], none, []⟩, rfl, ⟨queueOk_reset n init, ⟨fun i hi => absurd hi (hclosed i), ?_, List.forall_mem_nil _, ?_,
    fun _ _ => hclosed, fun _ hb => absurd hb Bool.false_ne_true⟩, ?_, rfl, List.forall_mem_nil _, ?_,
    List.forall_mem_nil _⟩, .idle rfl ⟨rfl, rfl, .inr rfl, rfl⟩⟩
  · intro b hb
    exact absurd hb.symm (Option.some_ne_none b)
  · intro _ i _ hi
    exact absurd hi (hclosed i)
  · intro b hb
    exact absurd hb.symm (Option.some_ne_none b)
  · intro st hst
    exact absurd hst.symm (Option.some_ne_none st)

/-- Whatever calls are made, the invariant holds with the stores of the program. -/
lemma StoresInv.run {prog : List ProgramStore} {t : LSQStores n} (h : StoresInv p init prog s) {es : List (StoreEvent n)}
    (hrun : runFrom (LSQStores.step p) s es = .ok t) : StoresInv p init (es.foldl ProgramStore.step prog) t := by
  induction es generalizing s prog with
  | nil =>
    obtain rfl := Except.ok.inj hrun
    exact h
  | cons e es ih =>
    obtain ⟨u, hstep, hrest⟩ := bind_eq_ok.mp hrun
    obtain ⟨_, henabled, hcall⟩ := bind_eq_ok.mp hstep
    rcases h.call (ensure_eq_ok.mp henabled) with ⟨-, herror⟩ | ⟨u', hcall', hu⟩
    · exact nomatch hcall.symm.trans herror
    · obtain rfl := Except.ok.inj (hcall.symm.trans hcall')
      exact ih hu hrest

/-- The effects are those of the first stores of the program, one store after the other, each after its `canWB`
was set and each as a whole; of the next one some packets may have been accepted, and not all. -/
def PerformedInOrder (prog : List ProgramStore) (performed : List StoreEffect) : Prop :=
  ∃ (done : List (ProgramStore × List StoreEffect)) (rest : List ProgramStore) (part : List StoreEffect),
    prog = done.map Prod.fst ++ rest ∧ performed = done.flatMap Prod.snd ++ part ∧
    (∀ d ∈ done, d.1.canWB = true ∧ d.1.Performs d.2) ∧
    (part = [] ∨ ∃ x xs w sent unsent, rest = x :: xs ∧ x.canWB = true ∧ x.written = some w ∧
      part = sent.map .accepted ∧ unsent ≠ [] ∧ ProgramStore.packets x.seqNum w = sent ++ unsent)

/-- All packets belong to one store. -/
def OfOneStore (pkts : List StorePacket) : Prop := ∀ pkt ∈ pkts, ∀ pkt' ∈ pkts, pkt.seqNum = pkt'.seqNum

lemma Core.performedInOrder (h : Core p g s) (hctl : Control init g s) : PerformedInOrder g.program s.performed := by
  refine ⟨g.done, g.active, g.cur.elim [] fun b => b.accepted.map .accepted, rfl, h.performed, h.done, ?_⟩
  cases hcur : g.cur with
  | none => exact .inl rfl
  | some b =>
    obtain ⟨w, hw, hpk⟩ := (h.busy b hcur).packets
    exact .inr ⟨b.store, g.rest, w, b.accepted, b.unsent, Ghost.active_of_cur hcur, (h.busy b hcur).canWB, hw, rfl,
      hctl.unsent_ne_nil hcur, hpk⟩

lemma Core.ofOneStore (h : Core p g s) (htso : p.needsTSO = true) : OfOneStore s.inFlight := by
  have hfree : ∀ b, g.cur = some b → ∀ i, ¬Open s i := by
    intro b hb
    refine h.flight.clear htso (h.flight.free htso ?_)
    rw [hb]
    rfl
  intro pkt hpkt pkt' hpkt'
  rcases h.flight.owned pkt hpkt with ⟨i, hi, hsn⟩ | ⟨b, hb, hsn⟩
  · rcases h.flight.owned pkt' hpkt' with ⟨j, hj, hsn'⟩ | ⟨b, hb, -⟩
    · obtain rfl := h.flight.single htso i j hi hj
      exact Option.some.inj (hsn.symm.trans hsn')
    · exact absurd hi (hfree b hb i)
  · rcases h.flight.owned pkt' hpkt' with ⟨j, hj, -⟩ | ⟨b', hb', hsn'⟩
    · exact absurd hj (hfree b hb j)
    · obtain rfl := Option.some.inj (hb.symm.trans hb')
      exact hsn.symm.trans hsn'

/-- The stores that the program has inserted and not squashed are performed in program order, and under total
store order one at a time: what is in flight belongs to one store. This holds whatever memory held in `pendingPkt`
when the unit was made. -/
theorem stores_performed_in_program_order (p : LSQParams) (n : Nat) (init : Option StorePacket)
    (es : List (StoreEvent (n + 1))) (s : LSQStores (n + 1))
    (hrun : runFrom (LSQStores.step p) (LSQStores.reset n init) es = .ok s) :
    PerformedInOrder (es.foldl ProgramStore.step []) s.performed ∧
      (p.needsTSO = true → OfOneStore s.inFlight) := by
  obtain ⟨g, hprog, hcore, hctl⟩ := (storesInv_reset p n init).run hrun
  rw [← hprog]
  exact ⟨hcore.performedInOrder hctl, hcore.ofOneStore⟩

/-- Two stores, the second split over two blocks. The first is sent and answered, then the low half of the
second is accepted and the high half refused. -/
def twoStores : List (StoreEvent (3 + 1)) :=
  [.insertStore 1 false false, .insertStore 2 false false,
    .executeStore 1 ⟨⟨0x1000, 1, some 0x1000, 0⟩, none, [7]⟩ (LSQStores.reset 3 none).storeTail,
    .executeStore 2 ⟨⟨0x103f, 2, some 0x103f, 0⟩,
      some (⟨0x103f, 1, some 0x103f, 0⟩, ⟨0x1040, 1, some 0x2040, 0⟩), [8, 9]⟩ (Ring.next (LSQStores.reset 3 none).storeTail),
    .commitStores 2, .writebackStores ⟨fun _ => true, fun _ => true⟩,
    .completeDataAccess (.createWrite 1 .whole ⟨0x1000, 1, some 0x1000, 0⟩ [7]),
    .writebackStores ⟨fun pkt => decide (pkt.part = .low), fun _ => true⟩]

theorem stores_performed_in_program_order_two : ∃ s : LSQStores 4,
    runFrom (LSQStores.step ⟨2, true⟩) (LSQStores.reset 3 none) twoStores = .ok s ∧ s.performed.length = 2 ∧
      PerformedInOrder (twoStores.foldl ProgramStore.step []) s.performed ∧ OfOneStore s.inFlight := by
  obtain ⟨s, hrun, hlen⟩ := exists_of_okWith (P := fun s : LSQStores 4 => s.performed.length == 2)
    (by decide +kernel : okWith (runFrom (LSQStores.step ⟨2, true⟩) (LSQStores.reset 3 none) twoStores) _ = true)
  obtain ⟨horder, hone⟩ := stores_performed_in_program_order ⟨2, true⟩ 3 none twoStores s hrun
  exact ⟨s, hrun, beq_iff_eq.mp hlen, horder, hone rfl⟩

/-- Whatever calls were made and however the cache answered, every call that the CPU may make returns: none of the
loops runs on, and no assertion fails but `assert(pendingPkt == NULL)`, which fails only if memory held something
else there when the unit was made. -/
theorem store_queue_never_fails (p : LSQParams) (n : Nat) (init : Option StorePacket) (es : List (StoreEvent (n + 1)))
    (s : LSQStores (n + 1)) (hrun : runFrom (LSQStores.step p) (LSQStores.reset n init) es = .ok s)
    (e : StoreEvent (n + 1)) (he : s.enabled e = true) :
    (∃ t, s.call p e = .ok t) ∨ init ≠ none ∧ s.call p e = .error .pendingPending := by
  rcases ((storesInv_reset p n init).run hrun).call he with herror | ⟨t, ht, -⟩
  · exact .inr herror
  · exact .inl ⟨t, ht⟩

theorem store_queue_never_fails_squash : ∃ s t : LSQStores 4,
    runFrom (LSQStores.step ⟨2, true⟩) (LSQStores.reset 3 none) twoStores = .ok s ∧ s.call ⟨2, true⟩ (.squash 2) = .ok t := by
  obtain ⟨s, hrun, he⟩ := exists_of_okWith (P := fun s : LSQStores 4 => s.enabled (.squash 2))
    (by decide +kernel : okWith (runFrom (LSQStores.step ⟨2, true⟩) (LSQStores.reset 3 none) twoStores) _ = true)
  rcases store_queue_never_fails ⟨2, true⟩ 3 none twoStores s hrun (.squash 2) he with ⟨t, ht⟩ | ⟨hinit, -⟩
  · exact ⟨s, t, hrun, ht⟩
  · exact absurd rfl hinit

end MimdramLean.Proofs

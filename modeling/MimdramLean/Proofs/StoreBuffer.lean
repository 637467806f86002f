import MimdramLean.StorePipeline

/-!
# The store queue as a list

What the program has stored, in program order, and the invariant that ties the places of the circular
queue to it: some stores are done, at most one is under way, and the others stand in the queue as they
were executed.
-/

namespace MimdramLean.Proofs

open Library LSQStores

variable {n : Nat}

/-! ### The stores of a program -/

/-- A store of the program that has not been squashed; `written` is what it passed to `write`. -/
structure ProgramStore where
  seqNum : Nat
  isStoreConditional : Bool
  isDataPrefetch : Bool
  written : Option StoreWrite
  canWB : Bool

namespace ProgramStore

/-- The size that the queue keeps; 0 for a store without data. -/
def size (x : ProgramStore) : Nat := x.written.elim 0 fun w => w.req.size % 256

/-- `executeStore` without a fault. -/
def execute (x : ProgramStore) (w : StoreWrite) : ProgramStore :=
  { x with written := some w, canWB := x.isStoreConditional && decide (w.req.size % 256 ≠ 0) }

def commit (youngest : Nat) (x : ProgramStore) : ProgramStore :=
  if x.seqNum ≤ youngest then { x with canWB := true } else x

/-- What a call does to the list of the program's stores. -/
def step (prog : List ProgramStore) : StoreEvent n → List ProgramStore
  | .insertStore seqNum isStoreConditional isDataPrefetch =>
    prog ++ [⟨seqNum, isStoreConditional, isDataPrefetch, none, false⟩]
  | .executeStore seqNum w _ => prog.map fun x => if x.seqNum = seqNum then x.execute w else x
  | .commitStores youngest => prog.map (commit youngest)
  | .squash num => prog.filter fun x => x.canWB || decide (x.seqNum ≤ num)
  | _ => prog

/-- The bytes that a store writes. -/
def bytes (w : StoreWrite) : List UInt8 :=
  if w.req.isCacheBlockZero then List.replicate w.req.size 0 else w.data

/-- The packets of a store, in the order in which they are sent. -/
def packets (seqNum : Nat) (w : StoreWrite) : List StorePacket :=
  match w.sreqs with
  | none => [.createWrite seqNum .whole w.req (bytes w)]
  | some (low, high) =>
    [.createWrite seqNum .low low ((bytes w).take low.size),
      .createWrite seqNum .high high ((bytes w).drop low.size)]

/-- What a store may do, all in all, when it is written back. -/
inductive Performs (x : ProgramStore) : List StoreEffect → Prop
  | nothing : x.size = 0 ∨ x.isDataPrefetch = true → Performs x []
  | failed : x.size ≠ 0 → x.isStoreConditional = true → Performs x [.failed x.seqNum]
  | iprWrites {w : StoreWrite} : x.size ≠ 0 → x.written = some w →
    (∀ pkt ∈ packets x.seqNum w, pkt.req.isMmappedIpr = true) → Performs x ((packets x.seqNum w).map .iprWrite)
  | sent {w : StoreWrite} : x.size ≠ 0 → x.written = some w → Performs x ((packets x.seqNum w).map .accepted)

/-- What `enabled` asks of an executed store. -/
def WellFormed (x : ProgramStore) : Prop :=
  ∀ w, x.written = some w → w.wellFormed = true ∧
    (x.isStoreConditional = true → w.sreqs = none ∧ w.req.isMmappedIpr = false)

/-! ### Entries -/

def inst (x : ProgramStore) (memData : Option (List UInt8)) : StoreInst :=
  ⟨x.seqNum, x.isStoreConditional, x.isDataPrefetch, memData⟩

/-- The entry of a store that has not been sent. -/
def fresh (x : ProgramStore) : StoreSlot :=
  { x.written.elim (.ofInst (x.inst none)) (StoreSlot.ofInst (x.inst none)).fill with canWB := x.canWB }

/-- The entry of a store whose packets have been made. -/
def issued (x : ProgramStore) : StoreSlot :=
  { x.fresh with committed := true, inst := some (x.inst (some (x.written.elim [] bytes))) }

variable (x : ProgramStore)

@[simp] lemma inst_seqNum (m : Option (List UInt8)) : (x.inst m).seqNum = x.seqNum := rfl

@[simp] lemma inst_isStoreConditional (m : Option (List UInt8)) :
    (x.inst m).isStoreConditional = x.isStoreConditional := rfl

@[simp] lemma inst_isDataPrefetch (m : Option (List UInt8)) : (x.inst m).isDataPrefetch = x.isDataPrefetch := rfl

@[simp] lemma inst_memData (m : Option (List UInt8)) : (x.inst m).memData = m := rfl

@[simp] lemma fresh_inst : x.fresh.inst = some (x.inst none) := by
  rcases hw : x.written <;> simp [fresh, hw, StoreSlot.fill, StoreSlot.ofInst]

@[simp] lemma fresh_canWB : x.fresh.canWB = x.canWB := rfl

@[simp] lemma fresh_completed : x.fresh.completed = false := by
  rcases hw : x.written <;> simp [fresh, hw, StoreSlot.fill, StoreSlot.ofInst]

@[simp] lemma fresh_committed : x.fresh.committed = false := by
  rcases hw : x.written <;> simp [fresh, hw, StoreSlot.fill, StoreSlot.ofInst]

@[simp] lemma fresh_size : x.fresh.size = x.size := by
  rcases hw : x.written <;> simp [fresh, size, hw, StoreSlot.fill, StoreSlot.ofInst]

@[simp] lemma fresh_req : x.fresh.req = x.written.map (·.req) := by
  rcases hw : x.written <;> simp [fresh, hw, StoreSlot.fill, StoreSlot.ofInst]

@[simp] lemma issued_inst : x.issued.inst = some (x.inst (some (x.written.elim [] bytes))) := rfl

@[simp] lemma issued_canWB : x.issued.canWB = x.canWB := rfl

@[simp] lemma issued_completed : x.issued.completed = false := x.fresh_completed

end ProgramStore

/-! ### The queue and the program -/

/-- The store that is under way: its packets that the cache has accepted, and the others. -/
structure Busy where
  store : ProgramStore
  accepted : List StorePacket
  unsent : List StorePacket

/-- The program's stores: those that are done, with what they did, the one that is under way, the others. -/
structure Ghost where
  done : List (ProgramStore × List StoreEffect)
  cur : Option Busy
  rest : List ProgramStore

namespace Ghost

def active (g : Ghost) : List ProgramStore := (g.cur.map Busy.store).toList ++ g.rest

def program (g : Ghost) : List ProgramStore := g.done.map Prod.fst ++ g.active

/-- The entries of the stores that are not done. -/
def slots (g : Ghost) : List StoreSlot :=
  (g.cur.map fun b => b.store.issued).toList ++ g.rest.map ProgramStore.fresh

variable {g : Ghost} {b : Busy}

lemma active_of_cur (hcur : g.cur = some b) : g.active = b.store :: g.rest := by
  rw [active, hcur]
  rfl

lemma store_mem_active (hcur : g.cur = some b) : b.store ∈ g.active := by
  rw [active_of_cur hcur]
  exact List.mem_cons_self

/-- Packets of the store under way are accepted. -/
lemma active_update (hcur : g.cur = some b) (b' : Busy) (hstore : b'.store = b.store) :
    ({ g with cur := some b' } : Ghost).active = g.active := by
  rw [active_of_cur hcur, ← hstore]
  rfl

lemma program_update (hcur : g.cur = some b) (b' : Busy) (hstore : b'.store = b.store) :
    ({ g with cur := some b' } : Ghost).program = g.program := by
  rw [program, program, active_update hcur b' hstore]

lemma active_of_idle (hcur : g.cur = none) : g.active = g.rest := by
  rw [active, hcur]
  rfl

lemma slots_of_cur (hcur : g.cur = some b) : g.slots = b.store.issued :: g.rest.map ProgramStore.fresh := by
  rw [slots, hcur]
  rfl

lemma slots_of_idle (hcur : g.cur = none) : g.slots = g.rest.map ProgramStore.fresh := by
  rw [slots, hcur]
  rfl

end Ghost

/-- The entry counts in `storesToWB`. -/
def pend (e : StoreSlot) : Bool := e.canWB && !e.completed

def slotSeq (e : StoreSlot) : Option Nat := e.inst.map StoreInst.seqNum

lemma Ghost.slotSeq_slots (g : Ghost) : g.slots.map slotSeq = g.active.map fun x => some x.seqNum := by
  obtain ⟨done, cur, rest⟩ := g
  cases cur with
  | none => simp [slots, active, slotSeq, ProgramStore.inst]
  | some b => simp [slots, active, slotSeq, ProgramStore.inst]

lemma Ghost.canWB_slots (g : Ghost) : g.slots.map StoreSlot.canWB = g.active.map ProgramStore.canWB := by
  obtain ⟨done, cur, rest⟩ := g
  cases cur with
  | none => simp [slots, active]
  | some b => simp [slots, active]

lemma Ghost.completed_slots {g : Ghost} {e : StoreSlot} (he : e ∈ g.slots) : e.completed = false := by
  obtain ⟨done, cur, rest⟩ := g
  simp only [slots, List.mem_append, Option.mem_toList, Option.map_eq_some_iff, List.mem_map] at he
  obtain ⟨b, -, rfl⟩ | ⟨x, -, rfl⟩ := he
  · exact b.store.issued_completed
  · exact x.fresh_completed

structure QueueOk (g : Ghost) (s : LSQStores n) : Prop where
  between : Ring.Between s.storeHead s.storeWBIdx s.storeTail
  stores : s.stores = Ring.dist s.storeHead s.storeTail
  toWB : s.storesToWB = ((Ring.window s.storeHead s.storeTail).countP fun i => pend (s.storeQueue i) : Nat)
  waiting : s.waiting.map s.storeQueue = g.slots
  sent : ∃ freed, g.done.map (fun d => some d.1.seqNum) =
    freed ++ (Ring.window s.storeHead s.storeWBIdx).map s.seqNumAt
  sentWB : ∀ i ∈ Ring.window s.storeHead s.storeWBIdx, (s.storeQueue i).canWB = true
  head : s.storeHead ≠ s.storeTail → (s.storeQueue s.storeHead).completed = false
  sorted : g.program.Pairwise fun x y => x.seqNum < y.seqNum
  last : ∀ x ∈ g.program, x.seqNum ≤ s.lastSeqNum
  squashed : ∀ sn ∈ s.squashed, sn ≤ s.lastSeqNum ∧ ∀ x ∈ g.program, x.seqNum ≠ sn

namespace QueueOk

variable {g : Ghost} {s : LSQStores n}

lemma seqNumAt_waiting (h : QueueOk g s) : s.waiting.map s.seqNumAt = g.active.map fun x => some x.seqNum := by
  rw [← g.slotSeq_slots, ← h.waiting, List.map_map]
  rfl

lemma slots_eq_nil (h : QueueOk g s) (heq : s.storeWBIdx = s.storeTail) : g.slots = [] := by
  rw [← h.waiting, LSQStores.waiting, heq, Ring.window_self]
  rfl

lemma ne_tail (h : QueueOk g s) {x : ProgramStore} (hx : x ∈ g.active) : s.storeWBIdx ≠ s.storeTail := by
  intro heq
  have hseq := g.slotSeq_slots
  rw [h.slots_eq_nil heq] at hseq
  rw [List.map_eq_nil_iff.mp hseq.symm] at hx
  exact absurd hx List.not_mem_nil

lemma slot_head (h : QueueOk g s) {e : StoreSlot} {es : List StoreSlot} (hslots : g.slots = e :: es) :
    s.storeQueue s.storeWBIdx = e := by
  have hne : s.storeWBIdx ≠ s.storeTail := by
    intro heq
    exact List.cons_ne_nil e es (hslots.symm.trans (h.slots_eq_nil heq))
  have hw := h.waiting
  rw [LSQStores.waiting, Ring.window_pop hne, List.map_cons, hslots] at hw
  exact (List.cons.inj hw).1

lemma slot_fresh (h : QueueOk g s) (hcur : g.cur = none) {x : ProgramStore} {xs : List ProgramStore}
    (hrest : g.rest = x :: xs) : s.storeQueue s.storeWBIdx = x.fresh := by
  have hslots := Ghost.slots_of_idle hcur
  rw [hrest, List.map_cons] at hslots
  exact h.slot_head hslots

/-- A queue without stores has none that waits. -/
lemma rest_eq_nil (h : QueueOk g s) (hzero : s.stores = 0) : g.rest = [] := by
  have heq : s.storeWBIdx = s.storeTail := by
    have hstores := h.stores
    have hsum := Ring.dist_add_dist h.between
    refine Ring.dist_eq_zero.mp ?_
    omega
  have hslots := h.slots_eq_nil heq
  rw [Ghost.slots] at hslots
  exact List.map_eq_nil_iff.mp (List.append_eq_nil_iff.mp hslots).2

/-- The first store that is not done stands at `storeWBIdx`. -/
lemma active_cons (h : QueueOk g s) (hne : s.storeWBIdx ≠ s.storeTail) :
    ∃ x xs, g.active = x :: xs ∧ s.seqNumAt s.storeWBIdx = some x.seqNum ∧
      (s.storeQueue s.storeWBIdx).canWB = x.canWB := by
  have hseq := h.seqNumAt_waiting
  have hwb : s.waiting.map (fun i => (s.storeQueue i).canWB) = g.active.map ProgramStore.canWB := by
    rw [← g.canWB_slots, ← h.waiting, List.map_map]
    rfl
  rw [LSQStores.waiting, Ring.window_pop hne] at hseq hwb
  cases hactive : g.active with
  | nil => simp [hactive] at hseq
  | cons x xs =>
    rw [hactive, List.map_cons, List.map_cons, List.cons.injEq] at hseq hwb
    exact ⟨x, xs, rfl, hseq.1, hwb.1⟩

lemma window_eq (h : QueueOk g s) :
    Ring.window s.storeHead s.storeTail = Ring.window s.storeHead s.storeWBIdx ++ s.waiting :=
  Ring.window_append h.between

lemma notMem_waiting (h : QueueOk g s) {i : Fin n} (hi : i ∈ Ring.window s.storeHead s.storeWBIdx) :
    i ∉ s.waiting := by
  have hnd := Ring.nodup_window s.storeHead s.storeTail
  rw [h.window_eq, List.nodup_append] at hnd
  intro hw
  exact hnd.2.2 i hi i hw rfl

/-- A sent store is done, and has another number than those that are not. -/
lemma seqNum_lt_of_sent (h : QueueOk g s) {i : Fin n} (hi : i ∈ Ring.window s.storeHead s.storeWBIdx) :
    ∃ sn, s.seqNumAt i = some sn ∧ (∃ d ∈ g.done, d.1.seqNum = sn) ∧ ∀ x ∈ g.active, sn < x.seqNum := by
  obtain ⟨freed, hfreed⟩ := h.sent
  have hmem : s.seqNumAt i ∈ g.done.map fun d => some d.1.seqNum := by
    rw [hfreed]
    exact List.mem_append_right _ (List.mem_map_of_mem hi)
  obtain ⟨d, hd, hsn⟩ := List.mem_map.mp hmem
  refine ⟨d.1.seqNum, hsn.symm, ⟨d, hd, rfl⟩, ?_⟩
  intro x hx
  exact (List.pairwise_append.mp h.sorted).2.2 d.1 (List.mem_map_of_mem hd) x hx

/-- Distinct places of sent stores have distinct numbers. -/
lemma sent_injective (h : QueueOk g s) {i j : Fin n} (hi : i ∈ Ring.window s.storeHead s.storeWBIdx)
    (hj : j ∈ Ring.window s.storeHead s.storeWBIdx) (hij : s.seqNumAt i = s.seqNumAt j) : i = j := by
  obtain ⟨freed, hfreed⟩ := h.sent
  have hnd : (g.done.map fun d => some d.1.seqNum).Nodup := by
    have hp := (List.pairwise_append.mp h.sorted).1
    rw [List.pairwise_map] at hp
    refine List.pairwise_map.mpr (hp.imp ?_)
    intro d d' hlt heq
    exact hlt.ne (Option.some.inj heq)
  rw [hfreed, List.nodup_append] at hnd
  exact List.inj_on_of_nodup_map hnd.2.1 hi hj hij

/-- What does not touch the queue keeps the invariant. -/
lemma of_eq {t : LSQStores n} (h : QueueOk g s) (hq : t.storeQueue = s.storeQueue) (hh : t.storeHead = s.storeHead)
    (hw : t.storeWBIdx = s.storeWBIdx) (ht : t.storeTail = s.storeTail) (hs : t.stores = s.stores)
    (hc : t.storesToWB = s.storesToWB) (hl : t.lastSeqNum = s.lastSeqNum) (hsq : t.squashed = s.squashed) :
    QueueOk g t := by
  obtain ⟨h1, h2, h3, h4, h5, h6, h7, h8, h9, h10⟩ := h
  have hseq : t.seqNumAt = s.seqNumAt := by
    funext i
    rw [seqNumAt, seqNumAt, hq]
  refine ⟨by rwa [hh, hw, ht], by rwa [hs, hh, ht], by rwa [hc, hh, ht, hq], ?_, by rwa [hh, hw, hseq], ?_, ?_, h8,
    by rwa [hl], by rwa [hsq, hl]⟩
  · rwa [LSQStores.waiting, hw, ht, hq]
  · rwa [hh, hw, hq]
  · rwa [hh, ht, hq]

/-- A store is inserted. -/
lemma insert (h : QueueOk g s) {x : ProgramStore} (hlt : s.lastSeqNum < x.seqNum) (hroom : s.stores + 1 < n)
    (hx : x.written = none) (hwb : x.canWB = false) :
    QueueOk { g with rest := g.rest ++ [x] } { s.setSlot s.storeTail (.ofInst (x.inst none)) with
      storeTail := incrStIdx s.storeTail, stores := s.stores + 1, lastSeqNum := x.seqNum } := by
  have hnext : Ring.next s.storeTail ≠ s.storeHead := by
    refine Ring.next_ne_of_dist ?_
    have := h.stores
    omega
  have hslot : StoreSlot.ofInst (x.inst none) = x.fresh := by
    simp [ProgramStore.fresh, hx, hwb, StoreSlot.ofInst]
  have hnotHead : s.storeTail ∉ Ring.window s.storeHead s.storeWBIdx := by
    intro hmem
    refine Ring.not_mem_window_right s.storeHead s.storeTail ?_
    rw [h.window_eq]
    exact List.mem_append_left _ hmem
  have hprog : ({ g with rest := g.rest ++ [x] } : Ghost).program = g.program ++ [x] := by
    simp [Ghost.program, Ghost.active]
  have hwaitNext : Ring.next s.storeTail ≠ s.storeWBIdx := by
    intro heq
    have hb := h.between.push hnext
    rw [heq] at hb hnext
    have hlast := Ring.dist_next_right (a := s.storeHead) (b := s.storeTail) (heq ▸ hnext)
    have hle := h.between
    rw [Ring.Between] at hle
    rw [heq] at hlast
    omega
  refine ⟨h.between.push hnext, ?_, ?_, ?_, ?_, ?_, ?_, ?_, ?_, ?_⟩
  · change s.stores + 1 = (Ring.dist s.storeHead (Ring.next s.storeTail) : Int)
    rw [Ring.dist_next_right hnext, h.stores]
    omega
  · change s.storesToWB = ((Ring.window s.storeHead (Ring.next s.storeTail)).countP fun i =>
      pend (Function.update s.storeQueue s.storeTail _ i) : Nat)
    rw [Ring.window_push hnext, List.countP_append, Ring.countP_update_of_notMem (Ring.not_mem_window_right _ _),
      h.toWB]
    simp [pend, StoreSlot.ofInst]
  · change (Ring.window s.storeWBIdx (Ring.next s.storeTail)).map (Function.update s.storeQueue s.storeTail _) = _
    rw [Ring.window_push hwaitNext, List.map_append, Ring.map_update_of_notMem (Ring.not_mem_window_right _ _),
      List.map_singleton, Function.update_self, hslot]
    have hw : (Ring.window s.storeWBIdx s.storeTail).map s.storeQueue = g.slots := h.waiting
    rw [hw]
    simp [Ghost.slots]
  · obtain ⟨freed, hfreed⟩ := h.sent
    refine ⟨freed, hfreed.trans (congrArg (freed ++ ·) (List.map_congr_left ?_))⟩
    intro i hi
    simp only [seqNumAt, setSlot]
    rw [Function.update_of_ne (ne_of_mem_of_not_mem hi hnotHead)]
  · intro i hi
    change (Function.update s.storeQueue s.storeTail _ i).canWB = true
    rw [Function.update_of_ne (ne_of_mem_of_not_mem hi hnotHead)]
    exact h.sentWB i hi
  · intro _
    change (Function.update s.storeQueue s.storeTail _ s.storeHead).completed = false
    by_cases heq : s.storeHead = s.storeTail
    · rw [heq, Function.update_self]
      rfl
    · rw [Function.update_of_ne heq]
      exact h.head heq
  · rw [hprog, List.pairwise_append]
    refine ⟨h.sorted, List.pairwise_singleton _ _, ?_⟩
    intro y hy z hz
    rw [List.mem_singleton.mp hz]
    exact (h.last y hy).trans_lt hlt
  · rw [hprog]
    intro y hy
    rcases List.mem_append.mp hy with hy | hy
    · exact ((h.last y hy).trans_lt hlt).le
    · rw [List.mem_singleton.mp hy]
  · intro sn hsn
    obtain ⟨hle, hne⟩ := h.squashed sn hsn
    refine ⟨(hle.trans_lt hlt).le, ?_⟩
    rw [hprog]
    intro y hy
    rcases List.mem_append.mp hy with hy | hy
    · exact hne y hy
    · rw [List.mem_singleton.mp hy]
      exact (hle.trans_lt hlt).ne'

/-- The entries of the stores that are not done change, and the count with them. -/
lemma update (h : QueueOk g s) {g' : Ghost} {q : Fin n → StoreSlot} {k : Int}
    (hout : ∀ i ∉ s.waiting, q i = s.storeQueue i) (hslots : s.waiting.map q = g'.slots)
    (hdone : g'.done = g.done) (hseq : g'.active.map ProgramStore.seqNum = g.active.map ProgramStore.seqNum)
    (hk : k + (s.waiting.countP fun i => pend (s.storeQueue i) : Nat) =
      s.storesToWB + (s.waiting.countP fun i => pend (q i) : Nat)) :
    QueueOk g' { s with storeQueue := q, storesToWB := k } := by
  have hsent : ∀ i ∈ Ring.window s.storeHead s.storeWBIdx, q i = s.storeQueue i :=
    fun i hi => hout i (h.notMem_waiting hi)
  have hprog : g'.program.map ProgramStore.seqNum = g.program.map ProgramStore.seqNum := by
    simp only [Ghost.program, List.map_append, hdone, hseq]
  have hmem : ∀ x ∈ g'.program, ∃ y ∈ g.program, y.seqNum = x.seqNum := by
    intro x hx
    have := List.mem_map_of_mem (f := ProgramStore.seqNum) hx
    rw [hprog] at this
    exact List.mem_map.mp this
  refine ⟨h.between, h.stores, ?_, hslots, ?_, ?_, ?_, ?_, ?_, ?_⟩
  · change k = ((Ring.window s.storeHead s.storeTail).countP fun i => pend (q i) : Nat)
    have htoWB := h.toWB
    rw [h.window_eq, List.countP_append] at htoWB ⊢
    have hcount : (Ring.window s.storeHead s.storeWBIdx).countP (fun i => pend (q i)) =
        (Ring.window s.storeHead s.storeWBIdx).countP fun i => pend (s.storeQueue i) := by
      refine List.countP_congr ?_
      intro i hi
      rw [hsent i hi]
    rw [hcount]
    omega
  · obtain ⟨freed, hfreed⟩ := h.sent
    refine ⟨freed, ?_⟩
    rw [hdone, hfreed]
    refine congrArg (freed ++ ·) (List.map_congr_left ?_)
    intro i hi
    change (s.storeQueue i).inst.map _ = (q i).inst.map _
    rw [hsent i hi]
  · intro i hi
    change (q i).canWB = true
    rw [hsent i hi]
    exact h.sentWB i hi
  · intro hne
    change (q s.storeHead).completed = false
    by_cases hw : s.storeHead ∈ s.waiting
    · have hq := List.mem_map_of_mem (f := q) hw
      rw [hslots] at hq
      exact Ghost.completed_slots hq
    · rw [hout _ hw]
      exact h.head hne
  · rw [← List.pairwise_map (R := (· < ·)), hprog, List.pairwise_map]
    exact h.sorted
  · intro x hx
    obtain ⟨y, hy, hyx⟩ := hmem x hx
    rw [← hyx]
    exact h.last y hy
  · intro sn hsn
    refine ⟨(h.squashed sn hsn).1, ?_⟩
    intro x hx
    obtain ⟨y, hy, hyx⟩ := hmem x hx
    rw [← hyx]
    exact (h.squashed sn hsn).2 y hy

/-- The youngest store is taken out. -/
lemma pop (h : QueueOk g s) {x : ProgramStore} {xs : List ProgramStore} (hrest : g.rest = xs ++ [x])
    (hwb : x.canWB = false) (e : StoreSlot) :
    QueueOk { g with rest := xs } { s.setSlot (decrStIdx s.storeTail) e with
      squashed := x.seqNum :: s.squashed, stores := s.stores - 1, storeTail := decrStIdx s.storeTail } := by
  set tail := decrStIdx s.storeTail with htail
  have hnextTail : Ring.next tail = s.storeTail := Ring.next_prev s.storeTail
  have hslots : g.slots = ({ g with rest := xs } : Ghost).slots ++ [x.fresh] := by
    simp [Ghost.slots, hrest]
  have hne : s.storeWBIdx ≠ s.storeTail := by
    intro heq
    have hw := h.waiting
    rw [LSQStores.waiting, heq, Ring.window_self, hslots] at hw
    simp at hw
  have hhead : Ring.next tail ≠ s.storeHead := by
    rw [hnextTail]
    intro heq
    have hb := h.between
    rw [Ring.Between, heq, Ring.dist_self] at hb
    exact hne ((Ring.dist_eq_zero.mp (Nat.le_zero.mp hb)).symm.trans heq.symm)
  have hbetween : Ring.Between s.storeHead s.storeWBIdx tail := by
    have hb := h.between
    rw [← hnextTail] at hb
    exact hb.unpush hhead (hnextTail ▸ hne)
  have hwbTail : Ring.next tail ≠ s.storeWBIdx := by
    rw [hnextTail]
    exact hne.symm
  have hwaiting : s.waiting = Ring.window s.storeWBIdx tail ++ [tail] := by
    rw [LSQStores.waiting, ← hnextTail, Ring.window_push hwbTail]
  have hw := h.waiting
  rw [hwaiting, List.map_append, hslots] at hw
  obtain ⟨hw, hlast⟩ := List.append_inj' hw rfl
  have hnotSent : tail ∉ Ring.window s.storeHead s.storeWBIdx := by
    intro hmem
    refine h.notMem_waiting hmem ?_
    rw [hwaiting]
    exact List.mem_append_right _ (List.mem_singleton_self _)
  have hprog : g.program = ({ g with rest := xs } : Ghost).program ++ [x] := by
    simp [Ghost.program, Ghost.active, hrest]
  have hsorted := h.sorted
  rw [hprog, List.pairwise_append] at hsorted
  have hmem : ∀ y ∈ ({ g with rest := xs } : Ghost).program, y ∈ g.program := by
    intro y hy
    rw [hprog]
    exact List.mem_append_left _ hy
  refine ⟨hbetween, ?_, ?_, ?_, ?_, ?_, ?_, hsorted.1, fun y hy => h.last y (hmem y hy), ?_⟩
  · change s.stores - 1 = (Ring.dist s.storeHead tail : Int)
    have hd := Ring.dist_next_right hhead
    rw [hnextTail] at hd
    rw [h.stores, hd]
    omega
  · change s.storesToWB =
      ((Ring.window s.storeHead tail).countP fun i => pend (Function.update s.storeQueue tail e i) : Nat)
    rw [Ring.countP_update_of_notMem (Ring.not_mem_window_right _ _), h.toWB, ← hnextTail, Ring.window_push hhead,
      List.countP_append]
    have hslot : s.storeQueue tail = x.fresh := by simpa using hlast
    simp [hslot, pend, hwb]
  · change (Ring.window s.storeWBIdx tail).map (Function.update s.storeQueue tail e) = _
    rw [Ring.map_update_of_notMem (Ring.not_mem_window_right _ _)]
    exact hw
  · obtain ⟨freed, hfreed⟩ := h.sent
    refine ⟨freed, hfreed.trans (congrArg (freed ++ ·) (List.map_congr_left ?_))⟩
    intro i hi
    simp only [seqNumAt, setSlot]
    rw [Function.update_of_ne (ne_of_mem_of_not_mem hi hnotSent)]
  · intro i hi
    change (Function.update s.storeQueue tail e i).canWB = true
    rw [Function.update_of_ne (ne_of_mem_of_not_mem hi hnotSent)]
    exact h.sentWB i hi
  · intro hneTail
    change s.storeHead ≠ tail at hneTail
    change (Function.update s.storeQueue tail e s.storeHead).completed = false
    rw [Function.update_of_ne hneTail]
    exact h.head fun heq => hhead (hnextTail.trans heq.symm)
  · intro sn hsn
    rcases List.mem_cons.mp hsn with rfl | hsn
    · refine ⟨h.last x ?_, fun y hy => (hsorted.2.2 y hy x (List.mem_singleton_self _)).ne⟩
      rw [hprog]
      exact List.mem_append_right _ (List.mem_singleton_self _)
    · exact ⟨(h.squashed sn hsn).1, fun y hy => (h.squashed sn hsn).2 y (hmem y hy)⟩

/-- The first store that is not done is passed over. -/
lemma advance (h : QueueOk g s) {x : ProgramStore} {xs : List ProgramStore} (hactive : g.active = x :: xs)
    (hrest : g.slots.tail = xs.map ProgramStore.fresh) (hwb : x.canWB = true) (effects : List StoreEffect) :
    QueueOk ⟨g.done ++ [(x, effects)], none, xs⟩ { s with storeWBIdx := incrStIdx s.storeWBIdx } := by
  have hne : s.storeWBIdx ≠ s.storeTail := h.ne_tail (hactive ▸ List.mem_cons_self)
  obtain ⟨y, ys, hy, hseq, hcan⟩ := h.active_cons hne
  obtain ⟨rfl, rfl⟩ := List.cons.inj (hactive.symm.trans hy)
  have hmem := Ring.mem_of_between h.between hne
  have hpush := Ring.window_push (Ring.next_ne_of_mem hmem)
  have hprog : (⟨g.done ++ [(x, effects)], none, xs⟩ : Ghost).program = g.program := by
    simp [Ghost.program, Ghost.active, ← hactive]
  refine ⟨h.between.next hne, h.stores, h.toWB, ?_, ?_, ?_, h.head, hprog ▸ h.sorted, hprog ▸ h.last,
    hprog ▸ h.squashed⟩
  · have hw := h.waiting
    rw [LSQStores.waiting, Ring.window_pop hne, List.map_cons] at hw
    change (Ring.window (Ring.next s.storeWBIdx) s.storeTail).map s.storeQueue = _
    rw [← hw, List.tail_cons] at hrest
    rw [hrest]
    simp [Ghost.slots]
  · obtain ⟨freed, hfreed⟩ := h.sent
    refine ⟨freed, ?_⟩
    change _ = freed ++ (Ring.window s.storeHead (Ring.next s.storeWBIdx)).map s.seqNumAt
    rw [hpush, List.map_append, List.map_append, hfreed, List.append_assoc, List.map_singleton, List.map_singleton,
      hseq]
  · intro i hi
    change i ∈ Ring.window s.storeHead (Ring.next s.storeWBIdx) at hi
    rw [hpush] at hi
    rcases List.mem_append.mp hi with hi | hi
    · exact h.sentWB i hi
    · rw [List.mem_singleton.mp hi]
      exact hcan.trans hwb

end QueueOk

/-- What the loop of `completeStore` does. -/
lemma freeHead_spec (fuel : Nat) {s : LSQStores n} (hne : s.storeHead ≠ s.storeTail)
    (hfuel : Ring.dist s.storeHead s.storeTail ≤ fuel) :
    ∃ head, freeHead fuel s = .ok { s with
        storeHead := head, stores := s.stores - Ring.dist s.storeHead head } ∧
      Ring.Between (Ring.next s.storeHead) head s.storeTail ∧
      (∀ i ∈ Ring.window (Ring.next s.storeHead) head, (s.storeQueue i).completed = true) ∧
      (head ≠ s.storeTail → (s.storeQueue head).completed = false) := by
  induction fuel generalizing s with
  | zero =>
    have hpos : Ring.dist s.storeHead s.storeTail ≠ 0 := fun h0 => hne (Ring.dist_eq_zero.mp h0)
    omega
  | succ fuel ih =>
    have hdist := Ring.dist_next_left hne
    have hone : Ring.dist s.storeHead (Ring.next s.storeHead) = 1 := by
      have hmem : s.storeHead ∈ Ring.window s.storeHead s.storeTail := by
        rw [Ring.window_pop hne]
        exact List.mem_cons_self
      rw [Ring.dist_next_right (Ring.next_ne_of_mem hmem), Ring.dist_self]
    simp only [freeHead]
    split
    · rename_i hc
      obtain ⟨head, hrun, hbetween, hall, hstop⟩ := @ih
        { s with storeHead := incrStIdx s.storeHead, stores := s.stores - 1 } hc.2
        (by change Ring.dist (Ring.next s.storeHead) s.storeTail ≤ fuel; omega)
      have hnextNe : Ring.next s.storeHead ≠ s.storeTail := hc.2
      have hnot : Ring.next s.storeHead ≠ head := by
        intro heq
        have hd := Ring.dist_next_left hnextNe
        have hb := Ring.dist_add_dist hbetween
        change Ring.dist (Ring.next (Ring.next s.storeHead)) head + Ring.dist head s.storeTail = _ at hb
        rw [← heq] at hb
        change _ = Ring.dist (Ring.next (Ring.next s.storeHead)) s.storeTail at hb
        omega
      have hbetween' : Ring.Between (Ring.next s.storeHead) head s.storeTail := by
        rw [Ring.Between, Ring.dist_next_left hnot, Ring.dist_next_left hnextNe]
        exact Nat.succ_le_succ hbetween
      refine ⟨head, ?_, hbetween', ?_, hstop⟩
      · rw [hrun]
        have hd : Ring.dist s.storeHead head = Ring.dist (Ring.next s.storeHead) head + 1 := by
          refine Ring.dist_next_left ?_
          intro heq
          have hb := Ring.dist_add_dist hbetween'
          rw [← heq] at hb
          omega
        have hstores : s.stores - 1 - (Ring.dist (Ring.next s.storeHead) head : Int) =
            s.stores - (Ring.dist s.storeHead head : Int) := by
          rw [hd]
          omega
        exact congrArg (fun k => Except.ok { s with storeHead := head, stores := k }) hstores
      · intro i hi
        rw [Ring.window_pop hnot] at hi
        rcases List.mem_cons.mp hi with rfl | hi
        · exact hc.1
        · exact hall i hi
    · rename_i hc
      refine ⟨Ring.next s.storeHead, ?_, Ring.between_left _ _, ?_, ?_⟩
      · rw [hone]
        rfl
      · intro i hi
        rw [Ring.window_self] at hi
        exact absurd hi List.not_mem_nil
      · intro hneTail
        exact Bool.eq_false_iff.mpr fun h => hc ⟨h, hneTail⟩

def completeSlot (e : StoreSlot) : StoreSlot := { e with completed := true }

/-- A store is completed and the completed stores at the head are freed. -/
def completedAt (s : LSQStores n) (i head : Fin n) : LSQStores n :=
  { s with
    storeQueue := Function.update s.storeQueue i (completeSlot (s.storeQueue i))
    storesToWB := s.storesToWB - 1
    storeHead := head
    stores := s.stores - Ring.dist s.storeHead head }

section Completed

variable {g : Ghost} {s : LSQStores n} {i : Fin n}

lemma completedAt_seqNumAt (s : LSQStores n) (i head : Fin n) : (completedAt s i head).seqNumAt = s.seqNumAt := by
  funext j
  change (Function.update s.storeQueue i _ j).inst.map _ = (s.storeQueue j).inst.map _
  by_cases hj : j = i
  · rw [hj, Function.update_self]
    rfl
  · rw [Function.update_of_ne hj]

lemma completedAt_canWB (s : LSQStores n) (i head j : Fin n) :
    ((completedAt s i head).storeQueue j).canWB = (s.storeQueue j).canWB := by
  change (Function.update s.storeQueue i _ j).canWB = _
  by_cases hj : j = i
  · rw [hj, Function.update_self]
    rfl
  · rw [Function.update_of_ne hj]

/-- Moving the head over completed stores keeps the invariant. -/
lemma QueueOk.completeTo (h : QueueOk g s) (hi : i ∈ Ring.window s.storeHead s.storeWBIdx)
    (hc : (s.storeQueue i).completed = false) {head : Fin n} (hbetween : Ring.Between s.storeHead head s.storeWBIdx)
    (hfreed : ∀ j ∈ Ring.window s.storeHead head, ((completedAt s i head).storeQueue j).completed = true)
    (hstop : head ≠ s.storeTail → ((completedAt s i head).storeQueue head).completed = false) :
    QueueOk g (completedAt s i head) := by
  have hle : Ring.Between s.storeHead head s.storeTail := le_trans hbetween h.between
  have hsplit := Ring.window_append hbetween
  have hsum := Ring.dist_add_dist hle
  have hwbtw : Ring.Between head s.storeWBIdx s.storeTail := by
    have h1 := Ring.dist_add_dist hbetween
    have h2 : Ring.dist s.storeHead s.storeWBIdx ≤ Ring.dist s.storeHead s.storeTail := h.between
    rw [Ring.Between]
    omega
  refine ⟨hwbtw, ?_, ?_, ?_, ?_, ?_, hstop, h.sorted, h.last, h.squashed⟩
  · change s.stores - (Ring.dist s.storeHead head : Int) = (Ring.dist head s.storeTail : Int)
    rw [h.stores]
    omega
  · have hmem : i ∈ Ring.window s.storeHead s.storeTail := by
      rw [h.window_eq]
      exact List.mem_append_left _ hi
    have hcount := Ring.countP_update (f := s.storeQueue) (v := completeSlot (s.storeQueue i))
      (Ring.nodup_window s.storeHead s.storeTail) hmem pend
    have hpend : pend (s.storeQueue i) = true := by
      rw [pend, h.sentWB i hi, hc]
      rfl
    have hnot : pend (completeSlot (s.storeQueue i)) = false := by simp [pend, completeSlot]
    rw [hpend, hnot] at hcount
    rw [Ring.window_append hle, List.countP_append] at hcount
    have hzero :
        (Ring.window s.storeHead head).countP (fun j => pend ((completedAt s i head).storeQueue j)) = 0 := by
      rw [List.countP_eq_zero]
      intro j hj
      simp [pend, hfreed j hj]
    change (Ring.window s.storeHead head).countP
      (fun j => pend (Function.update s.storeQueue i (completeSlot (s.storeQueue i)) j)) = 0 at hzero
    have htoWB := h.toWB
    rw [Ring.window_append hle, List.countP_append] at htoWB
    change s.storesToWB - 1 = ((Ring.window head s.storeTail).countP fun j =>
      pend (Function.update s.storeQueue i (completeSlot (s.storeQueue i)) j) : Nat)
    simp only [Bool.toNat_true, Bool.toNat_false, List.countP_append] at hcount
    omega
  · change s.waiting.map (Function.update s.storeQueue i _) = _
    rw [Ring.map_update_of_notMem (h.notMem_waiting hi)]
    exact h.waiting
  · obtain ⟨freed, hsent⟩ := h.sent
    refine ⟨freed ++ (Ring.window s.storeHead head).map s.seqNumAt, ?_⟩
    rw [completedAt_seqNumAt, hsent, hsplit, List.map_append, List.append_assoc]
    rfl
  · intro j hj
    rw [completedAt_canWB]
    refine h.sentWB j ?_
    rw [hsplit]
    exact List.mem_append_right _ hj

/-- `completeStore` up to the release of the stores at the head. -/
lemma QueueOk.complete (h : QueueOk g s) (hi : i ∈ Ring.window s.storeHead s.storeWBIdx)
    (hc : (s.storeQueue i).completed = false) :
    ∃ head, (s.markCompleted i).freeCompleted i = .ok (completedAt s i head) ∧
      Ring.Between s.storeHead head s.storeWBIdx ∧ QueueOk g (completedAt s i head) ∧
      ∀ j ∈ Ring.window s.storeHead head, ((completedAt s i head).storeQueue j).completed = true := by
  by_cases hhead : i = s.storeHead
  · have hne : s.storeHead ≠ s.storeWBIdx := by
      intro heq
      rw [heq, Ring.window_self] at hi
      exact List.not_mem_nil hi
    have hneTail : s.storeHead ≠ s.storeTail := by
      intro heq
      have hb := h.between
      rw [Ring.Between, ← heq, Ring.dist_self] at hb
      exact hne (Ring.dist_eq_zero.mp (Nat.le_zero.mp hb))
    obtain ⟨head, hrun, hbetween, hall, hstop⟩ := freeHead_spec n
      (s := s.markCompleted i) hneTail (Ring.dist_lt _ _).le
    change Ring.Between (Ring.next s.storeHead) head s.storeTail at hbetween
    have hle : Ring.Between s.storeHead head s.storeWBIdx := by
      -- `storeWBIdx` is not passed: the store there is not completed
      by_contra hlt
      rw [Ring.Between, not_le] at hlt
      have hdn := Ring.dist_next_left hne
      have hpos : s.storeHead ≠ head := by
        intro heq
        rw [← heq, Ring.dist_self] at hlt
        exact Nat.not_lt_zero _ hlt
      have hdh := Ring.dist_next_left hpos
      have hmem : s.storeWBIdx ∈ Ring.window (Ring.next s.storeHead) head := by
        rw [Ring.mem_window]
        omega
      have hdone := hall _ hmem
      have hneWB : s.storeWBIdx ≠ s.storeTail := by
        intro heq
        have hb : Ring.dist (Ring.next s.storeHead) head ≤ Ring.dist (Ring.next s.storeHead) s.storeTail := hbetween
        have hw := Ring.mem_window.mp hmem
        rw [heq] at hw
        omega
      have hwait : s.storeWBIdx ∈ s.waiting := by
        rw [LSQStores.waiting, Ring.window_pop hneWB]
        exact List.mem_cons_self
      have hslot := List.mem_map_of_mem (f := s.storeQueue) hwait
      rw [h.waiting] at hslot
      change (Function.update s.storeQueue i _ s.storeWBIdx).completed = true at hdone
      rw [Function.update_of_ne (hhead ▸ hne.symm), Ghost.completed_slots hslot] at hdone
      exact Bool.false_ne_true hdone
    have hfreed : ∀ j ∈ Ring.window s.storeHead head, ((completedAt s i head).storeQueue j).completed = true := by
      intro j hj
      have hpos : s.storeHead ≠ head := by
        intro heq
        rw [heq, Ring.window_self] at hj
        exact List.not_mem_nil hj
      rw [Ring.window_pop hpos] at hj
      rcases List.mem_cons.mp hj with rfl | hj
      · change (Function.update s.storeQueue i _ s.storeHead).completed = true
        rw [hhead, Function.update_self]
        rfl
      · exact hall j hj
    refine ⟨head, ?_, hle, h.completeTo hi hc hle hfreed hstop, hfreed⟩
    change (if i = s.storeHead then freeHead n _ else _) = _
    rw [if_pos hhead, hrun]
    rfl
  · have hfreed : ∀ j ∈ Ring.window s.storeHead s.storeHead,
        ((completedAt s i s.storeHead).storeQueue j).completed = true := by
      intro j hj
      rw [Ring.window_self] at hj
      exact absurd hj List.not_mem_nil
    refine ⟨s.storeHead, ?_, Ring.between_left _ _, h.completeTo hi hc (Ring.between_left _ _) hfreed ?_, hfreed⟩
    · change (if i = s.storeHead then freeHead n _ else _) = _
      have hstores : s.stores - (Ring.dist s.storeHead s.storeHead : Int) = s.stores := by
        rw [Ring.dist_self]
        omega
      rw [if_neg hhead, completedAt, hstores]
      rfl
    · intro hne
      change (Function.update s.storeQueue i _ s.storeHead).completed = false
      rw [Function.update_of_ne (Ne.symm hhead)]
      exact h.head hne

end Completed

end MimdramLean.Proofs

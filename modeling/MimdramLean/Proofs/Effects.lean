import MimdramLean.Controller
import MimdramLean.Proofs.Commands
import MimdramLean.Proofs.Scheduler

/-!
# What one event does to the queues

`Effect` lists everything an event of the controller can do to the two request queues, the index
of the write queue, the count of pending row operations, the bus and `nextReqEvent`. Every
invariant of the queues is proved from it, without looking at the handlers again.
-/

namespace MimdramLean.Proofs
open Library DRAMCtrl

variable {p : Params}

structure Queues (p : Params) where
  readQueue : List (DRAMPacket p)
  writeQueue : List (DRAMPacket p)
  isInWriteQueue : Finset Nat
  pendingRowOps : Int
  busState : BusState
  arrived : List (DRAMPacket p)
  issued : List (DRAMPacket p)

def queues (s : DRAMCtrl p) : Queues p where
  readQueue := s.readQueue
  writeQueue := s.writeQueue
  isInWriteQueue := s.isInWriteQueue
  pendingRowOps := s.channel.pendingRowOps
  busState := s.busState
  arrived := s.arrived
  issued := s.issued

/-- The burst address under which an ordinary write is indexed. -/
def burst (d : DRAMPacket p) : Nat := p.burstAlign d.addr

/-- What serving a packet takes from `pendingRowOps`. -/
def rowOpCount (d : DRAMPacket p) : Int := if d.isRowOp then 1 else 0

/-- The bus once a pending turnaround is finished. -/
def settledBus : BusState → BusState
  | .read => .read
  | .writeToRead => .read
  | .write => .write
  | .readToWrite => .write

/-- The position in the write queue of the packet that `processNextReqEvent` serves. -/
def writeChoice (s : DRAMCtrl p) : Option Nat :=
  let (t, switched) := s.checkDrains.switchBus
  if busyRanks s.channel ≠ p.ranksPerChannel ∧ t.busState ≠ .read then
    t.channel.chooseIndex t.curTick t.writeQueue (if switched then min p.tRTW p.tCS else 0)
  else none

/-- The position in the write queue of the packet that an event serves. -/
def servedWrite (s : DRAMCtrl p) : Event p → Option Nat
  | .nextReq => writeChoice s
  | _ => none

inductive Effect (s : DRAMCtrl p) (e : Event p) (s' : DRAMCtrl p) : Prop
  | frame (he : e ≠ .nextReq) (hq : queues s' = queues s)
    (hev : s.nextReqEvent ≠ none → s'.nextReqEvent ≠ none)
  | addReads (hserved : servedWrite s e = none) (rs : List (DRAMPacket p))
    (hord : ∀ d ∈ rs, d.isRowOp = false)
    (hq : queues s' = { queues s with readQueue := s.readQueue ++ rs }) (hev : s'.nextReqEvent ≠ none)
  | addRowOp (hserved : servedWrite s e = none) (d : DRAMPacket p) (hd : d.isRowOp = true)
    (hlen : s.writeQueue.length + 1 ≤ p.writeBufferSize)
    (hq : queues s' = { queues s with
      writeQueue := s.writeQueue ++ [d]
      pendingRowOps := s.channel.pendingRowOps + 1
      arrived := s.arrived ++ [d] })
    (hev : s'.nextReqEvent ≠ none)
  | addWrites (hserved : servedWrite s e = none) (ws : List (DRAMPacket p))
    (hord : ∀ d ∈ ws, d.isRowOp = false) (hnodup : (ws.map burst).Nodup)
    (hnew : ∀ d ∈ ws, burst d ∉ s.isInWriteQueue)
    (hlen : ws ≠ [] → s.writeQueue.length + ws.length ≤ p.writeBufferSize)
    (hq : queues s' = { queues s with
      writeQueue := s.writeQueue ++ ws
      isInWriteQueue := s.isInWriteQueue ∪ (ws.map burst).toFinset
      arrived := s.arrived ++ ws })
    (hev : s'.nextReqEvent ≠ none)
  /-- The early returns of `processNextReqEvent`. -/
  | stall (hserved : servedWrite s e = none) (bus : BusState)
    (hbus : bus = s.busState ∨ bus = settledBus s.busState)
    (hq : queues s' = { queues s with busState := bus })
    (hwhy : (∃ r, (s'.channel.ranks r).isAvailable = false) ∨
      (s.readQueue = [] ∧ ¬(s.writeQueue ≠ [] ∧ 0 < s.channel.pendingRowOps)) ∨
      ∃ now queue extra, queue ≠ [] ∧ s'.channel.chooseIndex now queue extra = none)
  | turn (hserved : servedWrite s e = none) (hread : s.readQueue = []) (hwrite : s.writeQueue ≠ [])
    (hq : queues s' = { queues s with busState := .readToWrite }) (hev : s'.nextReqEvent ≠ none)
  | serveRead (hserved : servedWrite s e = none) (pre : List (DRAMPacket p)) (d : DRAMPacket p)
    (post : List (DRAMPacket p)) (hread : s.readQueue = pre ++ d :: post) (bus : BusState)
    (hbus : bus = .read ∨ p.writeHighThreshold < s.writeQueue.length ∨
      0 < s.channel.pendingRowOps - rowOpCount d)
    (hq : queues s' = { queues s with
      readQueue := pre ++ post
      pendingRowOps := s.channel.pendingRowOps - rowOpCount d
      busState := bus
      issued := s.issued ++ [d] })
    (hev : s'.nextReqEvent ≠ none)
  | serveWrite (pre : List (DRAMPacket p)) (d : DRAMPacket p) (post : List (DRAMPacket p))
    (hserved : servedWrite s e = some pre.length) (hwrite : s.writeQueue = pre ++ d :: post)
    (bus : BusState)
    (hbus : bus = .writeToRead ∨ bus = .write ∧
      ¬(s.channel.pendingRowOps - rowOpCount d = 0 ∧ pre ++ post = []))
    (hq : queues s' = { queues s with
      writeQueue := pre ++ post
      isInWriteQueue := s.isInWriteQueue.erase (burst d)
      pendingRowOps := s.channel.pendingRowOps - rowOpCount d
      busState := bus
      issued := s.issued ++ [d] })
    (hev : s'.nextReqEvent ≠ none)

lemma servedWrite_of_ne {s : DRAMCtrl p} {e : Event p} (he : e ≠ .nextReq) : servedWrite s e = none := by
  cases e with
  | nextReq => exact absurd rfl he
  | _ => rfl

/-- The device and the responses are left alone. -/
structure SameDevice (s s' : DRAMCtrl p) : Prop where
  ranks : s'.channel.ranks = s.channel.ranks
  busBusyUntil : s'.channel.busBusyUntil = s.channel.busBusyUntil
  respQueue : s'.respQueue = s.respQueue

/-! ### Requests -/

lemma scheduleNextReq_ne_none (s : DRAMCtrl p) (t : Nat) : (s.scheduleNextReq t).nextReqEvent ≠ none := by
  unfold scheduleNextReq
  split
  · simp
  · assumption

@[simp] lemma queues_scheduleNextReq (s : DRAMCtrl p) (t : Nat) :
    queues (s.scheduleNextReq t) = queues s := by
  unfold scheduleNextReq
  split <;> rfl

lemma scheduleNextReq_eq (s : DRAMCtrl p) (t : Nat) :
    ∃ ev, s.scheduleNextReq t = { s with nextReqEvent := ev } := by
  unfold scheduleNextReq
  split
  · exact ⟨_, rfl⟩
  · exact ⟨s.nextReqEvent, rfl⟩

lemma SameDevice.scheduleNextReq {s s' : DRAMCtrl p} (h : SameDevice s s') (t : Nat) :
    SameDevice s (s'.scheduleNextReq t) := by
  obtain ⟨ev, heq⟩ := scheduleNextReq_eq s' t
  rw [heq]
  exact ⟨h.ranks, h.busBusyUntil, h.respQueue⟩

lemma scheduleNextReq_channel (s : DRAMCtrl p) (t : Nat) : (s.scheduleNextReq t).channel = s.channel := by
  obtain ⟨ev, heq⟩ := scheduleNextReq_eq s t
  rw [heq]

@[simp] lemma queues_accessAndRespond (s : DRAMCtrl p) (pkt : Packet) (t : Nat) :
    queues (s.accessAndRespond pkt t) = queues s := rfl

@[simp] lemma queues_setServiced (s : DRAMCtrl p) (helper : Option Nat) (n : Nat) :
    queues (s.setServiced helper n) = queues s := by
  cases helper <;> rfl

lemma withHelper_eq (s : DRAMCtrl p) (pktCount : Nat) (helper : Option Nat) :
    (s.withHelper pktCount helper).1 =
      { s with burstHelpers := (s.withHelper pktCount helper).1.burstHelpers } := by
  unfold withHelper
  split <;> rfl

/-- A packet gets one burst helper. -/
lemma withHelper_again {s t u : DRAMCtrl p} {pktCount : Nat} {helper helper' : Option Nat}
    (h : s.withHelper pktCount helper = (t, helper')) : u.withHelper pktCount helper' = (u, helper') := by
  unfold withHelper at h ⊢
  split at h
  · cases h
    simp
  · rename_i hno
    cases h
    rw [if_neg hno]

/-- The first addresses of the bursts of a packet. -/
def burstAddrs (p : Params) : Nat → Nat → List Nat
  | 0, _ => []
  | n + 1, addr => addr :: burstAddrs p n (nextBurst p addr)

/-- How many of `n` bursts of a read the write queue does not serve. -/
def missedBursts (s : DRAMCtrl p) (pkt : Packet) (n addr : Nat) : Nat :=
  (burstAddrs p n addr).countP fun a => !s.foundInWrQ a (burstBytes p pkt a)

lemma addReadBursts_spec {pkt : Packet} {pktCount n addr serviced : Nat} {helper : Option Nat}
    {s : DRAMCtrl p} {r : DRAMCtrl p × Option Nat × Nat}
    (h : addReadBursts pkt pktCount n addr helper serviced s = .ok r) :
    ∃ rs, r.1 = { s with readQueue := s.readQueue ++ rs, burstHelpers := r.1.burstHelpers } ∧
      rs.length = missedBursts s pkt n addr ∧ rs.length + r.2.2 = n + serviced ∧
      (∀ d ∈ rs, d.isRowOp = false ∧ d.pkt = pkt ∧ d.burstHelper = r.2.1) ∧
      (r.1.burstHelpers, r.2.1) = if rs = [] then (s.burstHelpers, helper)
        else ((s.withHelper pktCount helper).1.burstHelpers, (s.withHelper pktCount helper).2) := by
  induction n generalizing addr serviced helper s with
  | zero =>
    cases h
    exact ⟨[], by simp, rfl, by simp, by simp, by simp⟩
  | succ n ih =>
    rw [addReadBursts] at h
    split at h
    · rename_i hfound
      obtain ⟨rs, hr, hmissed, hlen, hrs, hhelpers⟩ := ih h
      refine ⟨rs, hr, ?_, by omega, hrs, hhelpers⟩
      rw [hmissed, missedBursts, missedBursts, burstAddrs, List.countP_cons_of_neg (by simp [hfound])]
    · rename_i hmiss
      have heq := withHelper_eq s pktCount helper
      cases hw : s.withHelper pktCount helper with
      | mk t helper' =>
      rw [hw] at heq h
      obtain ⟨hs, rfl⟩ : ∃ hs, t = { s with burstHelpers := hs } := ⟨_, heq⟩
      obtain ⟨loc, -, h⟩ := bind_eq_ok.mp h
      obtain ⟨_, -, h⟩ := bind_eq_ok.mp h
      obtain ⟨rs, hr, hmissed, hlen, hrs, hhelpers⟩ := ih h
      let d : DRAMPacket p :=
        { DRAMPacket.create s.curTick pkt true loc addr (burstBytes p pkt addr) with burstHelper := helper' }
      have hhelper : (r.1.burstHelpers, r.2.1) = (hs, helper') := by
        rw [hhelpers, withHelper_again hw]
        split <;> rfl
      refine ⟨d :: rs, ?_, ?_, ?_, ?_, ?_⟩
      · simpa only [d, List.append_assoc, List.singleton_append] using hr
      · rw [List.length_cons, hmissed, missedBursts, missedBursts, burstAddrs,
          List.countP_cons_of_pos (by simpa using hmiss)]
        rfl
      · simp only [List.length_cons]
        omega
      · intro e he
        rcases List.mem_cons.mp he with rfl | he
        · exact ⟨rfl, rfl, (Prod.mk.inj hhelper).2.symm⟩
        · exact hrs e he
      · rw [if_neg (List.cons_ne_nil d rs), hhelper]

lemma addWriteBursts_spec {pkt : Packet} {n addr : Nat} {s s' : DRAMCtrl p}
    (h : addWriteBursts pkt n addr s = .ok s') :
    ∃ ws, s' = { s with
        writeQueue := s.writeQueue ++ ws
        isInWriteQueue := s.isInWriteQueue ∪ (ws.map burst).toFinset
        arrived := s.arrived ++ ws } ∧
      (∀ d ∈ ws, d.isRowOp = false) ∧ (ws.map burst).Nodup ∧ (∀ d ∈ ws, burst d ∉ s.isInWriteQueue) ∧
      (ws ≠ [] → s.writeQueue.length + ws.length ≤ p.writeBufferSize) := by
  induction n generalizing addr s with
  | zero =>
    cases h
    exact ⟨[], by simp, by simp, by simp, by simp, by simp⟩
  | succ n ih =>
    rw [addWriteBursts] at h
    split at h
    · exact ih h
    · rename_i hnew
      obtain ⟨loc, -, h⟩ := bind_eq_ok.mp h
      obtain ⟨_, hroom, h⟩ := bind_eq_ok.mp h
      obtain ⟨ws, rfl, hord, hnodup, hfresh, hlen⟩ := ih h
      set d := DRAMPacket.create s.curTick pkt false loc addr (burstBytes p pkt addr) with hd
      have hb : burst d = p.burstAlign addr := rfl
      simp only [pushWrite] at hfresh hlen ⊢
      refine ⟨d :: ws, ?_, ?_, ?_, ?_, ?_⟩
      · simp [hb]
      · intro w hw
        rcases List.mem_cons.mp hw with rfl | hw
        · rfl
        · exact hord w hw
      · rw [List.map_cons, List.nodup_cons]
        refine ⟨?_, hnodup⟩
        intro hmem
        obtain ⟨w, hw, hwb⟩ := List.mem_map.mp hmem
        exact hfresh w hw (by rw [hwb, hb]; exact Finset.mem_insert_self _ _)
      · intro w hw
        rcases List.mem_cons.mp hw with rfl | hw
        · rwa [hb]
        · exact fun hmem => hfresh w hw (Finset.mem_insert_of_mem hmem)
      · intro _
        have hlt := ensure_eq_ok.mp hroom
        by_cases hws : ws = []
        · subst hws
          simpa using Nat.succ_le_of_lt hlt
        · have hl := hlen hws
          simp only [List.length_append, List.length_cons, List.length_nil] at hl ⊢
          omega

lemma rowOpPacket_isRowOp {now : Nat} {pkt : Packet} {addrs : RowOpPayload} {d : DRAMPacket p}
    (h : rowOpPacket now pkt addrs = .ok d) : d.isRowOp = true := by
  obtain ⟨_, -, h⟩ := bind_eq_ok.mp h
  obtain ⟨_, -, h⟩ := bind_eq_ok.mp h
  obtain ⟨_, -, h⟩ := bind_eq_ok.mp h
  obtain ⟨_, -, h⟩ := bind_eq_ok.mp h
  obtain ⟨_, -, h⟩ := bind_eq_ok.mp h
  cases h
  rfl

/-- A row operation counts for at least one entry of the write queue. -/
lemma dramPktCount_rowOp_pos {pkt : Packet} {addrs : RowOpPayload} (h : pkt.kind = .rowOpReq addrs) :
    0 < dramPktCount p pkt := by
  obtain ⟨k, hk, hb⟩ := p.burst_pow
  have hle : 2 ^ k ≤ 2 ^ 31 := Nat.pow_le_pow_right (by omega) (by omega)
  have hpos : 0 < 2 ^ k := Nat.two_pow_pos k
  simp only [dramPktCount, Packet.getAddr, Packet.getSize, h, RowOpPayload.sizeOf, Nat.zero_and, hb]
  apply Nat.div_pos _ hpos
  rw [Nat.mod_eq_of_lt (by omega)]
  omega

lemma addToReadQueue_effect {s s' : DRAMCtrl p} {pkt : Packet} {n : Nat} {e : Event p}
    (he : e ≠ .nextReq) (h : s.addToReadQueue pkt n = .ok s') :
    Effect s e s' ∧ SameDevice s s' := by
  obtain ⟨_, -, h⟩ := bind_eq_ok.mp h
  obtain ⟨⟨t, helper, serviced⟩, hloop, h⟩ := bind_eq_ok.mp h
  obtain ⟨rs, ht, -, hlen, hrs, -⟩ := addReadBursts_spec hloop
  simp only at ht hlen h
  rw [ht] at h
  split at h
  · -- every burst was found in the write queue
    rename_i hall
    have hrs : rs = [] := List.eq_nil_of_length_eq_zero (by omega)
    subst hrs
    cases h
    refine ⟨.frame he ?_ (fun hne => hne), rfl, rfl, rfl⟩
    rw [queues_accessAndRespond]
    simp only [queues, List.append_nil]
  · cases h
    refine ⟨.addReads (servedWrite_of_ne he) rs (fun d hd => (hrs d hd).1) ?_ (scheduleNextReq_ne_none _ _), ?_⟩
    · simp only [queues_scheduleNextReq, queues_setServiced]
      rfl
    · apply SameDevice.scheduleNextReq
      cases helper <;> exact ⟨rfl, rfl, rfl⟩

lemma addToWriteQueue_effect {s s' : DRAMCtrl p} {pkt : Packet} {e : Event p}
    (he : e ≠ .nextReq) (hroom : s.writeQueueFull (dramPktCount p pkt) = false)
    (h : s.addToWriteQueue pkt (dramPktCount p pkt) = .ok s') :
    Effect s e s' ∧ SameDevice s s' := by
  obtain ⟨t, hpush, h⟩ := bind_eq_ok.mp h
  cases h
  by_cases hrow : ∃ addrs, pkt.kind = .rowOpReq addrs
  · obtain ⟨addrs, hk⟩ := hrow
    simp only [addWritePackets, hk] at hpush
    obtain ⟨d, hd, hpush⟩ := bind_eq_ok.mp hpush
    cases hpush
    refine ⟨.addRowOp (servedWrite_of_ne he) d (rowOpPacket_isRowOp hd) ?_ ?_ (scheduleNextReq_ne_none _ _), ?_⟩
    · have hpos := dramPktCount_rowOp_pos (p := p) hk
      simp only [writeQueueFull, decide_eq_false_iff_not, not_lt] at hroom
      omega
    · simp only [queues_scheduleNextReq, queues_accessAndRespond]
      rfl
    · apply SameDevice.scheduleNextReq
      exact ⟨rfl, rfl, rfl⟩
  · have hloop : addWriteBursts pkt (dramPktCount p pkt) pkt.getAddr s = .ok t := by
      cases hk : pkt.kind with
      | rowOpReq addrs => exact absurd ⟨addrs, hk⟩ hrow
      | readReq addr size => simpa only [addWritePackets, hk] using hpush
      | writeReq addr size => simpa only [addWritePackets, hk] using hpush
      | cleanEvict addr size => simpa only [addWritePackets, hk] using hpush
      | other addr size => simpa only [addWritePackets, hk] using hpush
    obtain ⟨ws, rfl, hord, hnodup, hnew, hlen⟩ := addWriteBursts_spec hloop
    refine ⟨.addWrites (servedWrite_of_ne he) ws hord hnodup hnew hlen ?_ (scheduleNextReq_ne_none _ _), ?_⟩
    · simp only [queues_scheduleNextReq, queues_accessAndRespond]
      rfl
    · apply SameDevice.scheduleNextReq
      exact ⟨rfl, rfl, rfl⟩

/-- What becomes of a packet. -/
inductive Receives (s : DRAMCtrl p) (pkt : Packet) : DRAMCtrl p × Bool → Prop
  | dropped (hdropped : pkt.memInhibit = true ∨ ∃ addr size, pkt.kind = .cleanEvict addr size) :
      Receives s pkt (s, true)
  | other {addr size : Nat} (hin : pkt.memInhibit = false) (hkind : pkt.kind = .other addr size) :
      Receives s pkt (s.accessAndRespond pkt 1, true)
  | refuseRead : Receives s pkt ({ s with retryRdReq := true }, false)
  | read {addr size : Nat} {t : DRAMCtrl p} (hin : pkt.memInhibit = false) (hkind : pkt.kind = .readReq addr size)
      (hadd : s.addToReadQueue pkt (dramPktCount p pkt) = .ok t) : Receives s pkt (t, true)
  | refuseWrite : Receives s pkt ({ s with retryWrReq := true }, false)
  | write {t : DRAMCtrl p} (hin : pkt.memInhibit = false)
      (hkind : (∃ addr size, pkt.kind = .writeReq addr size) ∨ ∃ addrs, pkt.kind = .rowOpReq addrs)
      (hroom : s.writeQueueFull (dramPktCount p pkt) = false)
      (hadd : s.addToWriteQueue pkt (dramPktCount p pkt) = .ok t) : Receives s pkt (t, true)

lemma recvTimingReq_cases {s : DRAMCtrl p} {pkt : Packet} {r : DRAMCtrl p × Bool}
    (h : s.recvTimingReq pkt = .ok r) : Receives s pkt r := by
  unfold recvTimingReq at h
  split at h
  · rename_i hin
    cases h
    exact .dropped (.inl hin)
  · rename_i hin
    have hin : pkt.memInhibit = false := by simpa using hin
    split at h
    · rename_i addr size hkind
      cases h
      exact .dropped (.inr ⟨addr, size, hkind⟩)
    · rename_i addr size hkind
      cases h
      exact .other hin hkind
    · rename_i addr size hkind
      obtain ⟨_, -, h⟩ := bind_eq_ok.mp h
      split at h
      · cases h
        exact .refuseRead
      · obtain ⟨t, hadd, h⟩ := bind_eq_ok.mp h
        cases h
        exact .read hin hkind hadd
    -- writes and row operations share a branch
    all_goals
      rename_i hkind
      obtain ⟨_, -, h⟩ := bind_eq_ok.mp h
      split at h
      · cases h
        exact .refuseWrite
      · rename_i hfull
        obtain ⟨t, hadd, h⟩ := bind_eq_ok.mp h
        cases h
        exact .write hin (by simp [hkind]) (by simpa using hfull) hadd

lemma recvTimingReq_effect {s : DRAMCtrl p} {pkt : Packet} {r : DRAMCtrl p × Bool} {e : Event p}
    (he : e ≠ .nextReq) (h : s.recvTimingReq pkt = .ok r) :
    Effect s e r.1 ∧ SameDevice s r.1 := by
  cases recvTimingReq_cases h with
  | dropped _ => exact ⟨.frame he rfl (fun hne => hne), rfl, rfl, rfl⟩
  | other _ _ => exact ⟨.frame he rfl (fun hne => hne), rfl, rfl, rfl⟩
  | refuseRead => exact ⟨.frame he rfl (fun hne => hne), rfl, rfl, rfl⟩
  | read _ _ hadd => exact addToReadQueue_effect he hadd
  | refuseWrite => exact ⟨.frame he rfl (fun hne => hne), rfl, rfl, rfl⟩
  | write _ _ hroom hadd => exact addToWriteQueue_effect he hroom hadd

/-! ### The request loop -/

/-- A rank of `c'` is available only if it is in `c`. -/
def KeepsBusy (c c' : Channel p) : Prop :=
  ∀ r, (c.ranks r).isAvailable = false → (c'.ranks r).isAvailable = false

lemma keepsBusy_of_refreshState {c c' : Channel p}
    (h : ∀ r, (c'.ranks r).refreshState = (c.ranks r).refreshState) : KeepsBusy c c' := by
  intro r hr
  simpa only [Rank.isAvailable, h r] using hr

lemma KeepsBusy.trans {c₁ c₂ c₃ : Channel p} (h : KeepsBusy c₁ c₂) (h' : KeepsBusy c₂ c₃) :
    KeepsBusy c₁ c₃ := fun r hr => h' r (h r hr)

lemma checkDrains_keepsBusy (s : DRAMCtrl p) : KeepsBusy s.channel s.checkDrains.channel := by
  intro r hr
  simp only [checkDrains, hr, Bool.false_eq_true, if_false, Rank.checkDrainDone]
  split
  · rfl
  · exact hr

lemma switchBus_fst (s : DRAMCtrl p) :
    queues s.switchBus.1 = { queues s with busState := settledBus s.busState } ∧
      s.switchBus.1.channel.ranks = s.channel.ranks ∧ s.switchBus.1.curTick = s.curTick ∧
      s.switchBus.1.nextReqEvent = s.nextReqEvent := by
  unfold switchBus queues
  split <;> simp_all [settledBus]

lemma doDRAMAccess_frame {c : Channel p} {now : Nat} {d : DRAMPacket p} {rest : List (DRAMPacket p)}
    {r : DRAMPacket p × Channel p} (h : c.doDRAMAccess now d rest = .ok r) :
    (∀ i, (r.2.ranks i).refreshState = (c.ranks i).refreshState) ∧
      r.2.pendingRowOps = c.pendingRowOps - rowOpCount d := by
  -- the rank of the packet has been given commands, the others are as before
  have hranks : ∀ rk : Rank p, rk.refreshState = (c.ranks d.rank).refreshState →
      ∀ i, (Function.update c.ranks d.rank rk i).refreshState = (c.ranks i).refreshState := by
    intro rk hrk i
    rw [Function.update_apply]
    split
    · subst i
      exact hrk
    · rfl
  cases hop : d.rowOp with
  | some op =>
    simp only [Channel.doDRAMAccess, hop] at h
    obtain ⟨mid, hclose, h⟩ := bind_eq_ok.mp h
    obtain ⟨⟨rk, cmdAt⟩, hissue, h⟩ := bind_eq_ok.mp h
    cases h
    have hcmd := commanded_refreshState ((closeBank_commanded hclose).trans (issueAll_commanded hissue))
    exact ⟨hranks rk hcmd, by simp [rowOpCount, DRAMPacket.isRowOp, hop, Channel.setBusy, Channel.setRank]⟩
  | none =>
    simp only [Channel.doDRAMAccess, hop] at h
    obtain ⟨⟨rk, cmdAt⟩, hopen, h⟩ := bind_eq_ok.mp h
    obtain ⟨_, -, h⟩ := bind_eq_ok.mp h
    obtain ⟨rk', hclose, h⟩ := bind_eq_ok.mp h
    cases h
    have hrk : rk.refreshState = (c.ranks d.rank).refreshState :=
      commanded_refreshState (openRow_commanded hopen)
    have hheld := hranks (rk.record (.col d.bank d.row.val (max cmdAt (sub64 c.busBusyUntil p.tCL)))) hrk
    have hrk' := (commanded_refreshState (closeRow_commanded hclose)).trans (hheld d.rank)
    refine ⟨fun i => ?_, ?_⟩
    · rw [countAccess_ranks]
      by_cases hi : i = d.rank
      · subst hi
        simpa [Channel.setBusy, Channel.setRank, Rank.doCommand] using hrk'
      · simp [Channel.setBusy, Channel.setRank, Channel.holdCols, hi]
    · rw [countAccess_pendingRowOps]
      simp [rowOpCount, DRAMPacket.isRowOp, hop, Channel.setBusy, Channel.setRank, Channel.holdCols]

/-- An access changes nothing of its packet but the ready time. -/
lemma doDRAMAccess_packet {c : Channel p} {now : Nat} {d : DRAMPacket p} {rest : List (DRAMPacket p)}
    {r : DRAMPacket p × Channel p} (h : c.doDRAMAccess now d rest = .ok r) :
    ∃ t, r.1 = { d with readyTime := t } := by
  unfold Channel.doDRAMAccess at h
  split at h
  · obtain ⟨_, -, h⟩ := bind_eq_ok.mp h
    obtain ⟨_, -, h⟩ := bind_eq_ok.mp h
    cases h
    exact ⟨_, rfl⟩
  · obtain ⟨_, -, h⟩ := bind_eq_ok.mp h
    obtain ⟨_, -, h⟩ := bind_eq_ok.mp h
    obtain ⟨_, -, h⟩ := bind_eq_ok.mp h
    cases h
    exact ⟨_, rfl⟩

lemma addBubble_eq (c : Channel p) (switched : Bool) (d : DRAMPacket p) (bubble : Nat) :
    ∃ t, addBubble c switched d bubble = { c with busBusyUntil := t } := by
  unfold addBubble
  split
  · exact ⟨_, rfl⟩
  · exact ⟨c.busBusyUntil, rfl⟩

/-- `doDRAMAccess` as `processNextReqEvent` calls it. -/
lemma bubbledAccess_frame {c : Channel p} {switched : Bool} {now bubble : Nat} {d : DRAMPacket p}
    {rest : List (DRAMPacket p)} {r : DRAMPacket p × Channel p}
    (h : (addBubble c switched d bubble).doDRAMAccess now d rest = .ok r) :
    KeepsBusy c r.2 ∧ r.2.pendingRowOps = c.pendingRowOps - rowOpCount d := by
  obtain ⟨t, ht⟩ := addBubble_eq c switched d bubble
  rw [ht] at h
  obtain ⟨hrs, hpend⟩ := doDRAMAccess_frame h
  exact ⟨keepsBusy_of_refreshState hrs, hpend⟩

lemma scheduleResponse_eq {s s' : DRAMCtrl p} {d : DRAMPacket p} (h : s.scheduleResponse d = .ok s') :
    ∃ t, s' = { s with respondEvent := t } := by
  unfold scheduleResponse at h
  split at h
  · obtain ⟨_, -, h⟩ := bind_eq_ok.mp h
    cases h
    exact ⟨_, rfl⟩
  · obtain ⟨_, -, h⟩ := bind_eq_ok.mp h
    obtain ⟨_, -, h⟩ := bind_eq_ok.mp h
    cases h
    exact ⟨s.respondEvent, rfl⟩

lemma pushResponse_eq {s s' : DRAMCtrl p} {d : DRAMPacket p} (h : s.pushResponse d = .ok s') :
    ∃ t, s' = { s with respondEvent := t, respQueue := s.respQueue ++ [d] } := by
  obtain ⟨_, -, h⟩ := bind_eq_ok.mp h
  obtain ⟨_, -, h⟩ := bind_eq_ok.mp h
  obtain ⟨u, hu, h⟩ := bind_eq_ok.mp h
  obtain ⟨t, rfl⟩ := scheduleResponse_eq hu
  cases h
  exact ⟨t, rfl⟩

/-- A read is accessed, and its response is queued; the bus may turn to the writes. -/
lemma serveRead_cases {s s' : DRAMCtrl p} {switched : Bool} {d : DRAMPacket p} {rest : List (DRAMPacket p)}
    (h : s.serveRead switched d rest = .ok s') : ∃ served channel t bus,
      (addBubble s.channel switched d (add64 p.tWTR p.tCL)).doDRAMAccess s.curTick d rest = .ok (served, channel) ∧
      (bus = s.busState ∨ p.writeHighThreshold < s.writeQueue.length ∨ 0 < channel.pendingRowOps) ∧
      s' = { s with
        channel := channel
        readQueue := rest
        issued := s.issued ++ [d]
        respondEvent := t
        respQueue := s.respQueue ++ [served]
        busState := bus } := by
  obtain ⟨_, -, h⟩ := bind_eq_ok.mp h
  obtain ⟨⟨served, channel⟩, hacc, h⟩ := bind_eq_ok.mp h
  obtain ⟨u, hpush, h⟩ := bind_eq_ok.mp h
  obtain ⟨t, rfl⟩ := pushResponse_eq hpush
  cases h
  split
  · next hturn => exact ⟨served, channel, t, .readToWrite, hacc, .inr hturn, rfl⟩
  · exact ⟨served, channel, t, s.busState, hacc, .inl rfl, rfl⟩

lemma serveWrite_cases {s s' : DRAMCtrl p} {switched : Bool} {d : DRAMPacket p} {rest : List (DRAMPacket p)}
    (h : s.serveWrite switched d rest = .ok s') : ∃ served channel bus,
      (addBubble s.channel switched d p.tRTW).doDRAMAccess s.curTick d rest = .ok (served, channel) ∧
      (bus = .writeToRead ∨ bus = s.busState ∧ ¬(channel.pendingRowOps = 0 ∧ rest = [])) ∧
      s' = { s with
        channel := channel
        writeQueue := rest
        isInWriteQueue := s.isInWriteQueue.erase (burst d)
        issued := s.issued ++ [d]
        busState := bus } := by
  obtain ⟨_, -, h⟩ := bind_eq_ok.mp h
  obtain ⟨_, -, h⟩ := bind_eq_ok.mp h
  obtain ⟨⟨served, channel⟩, hacc, h⟩ := bind_eq_ok.mp h
  cases h
  split
  · exact ⟨served, channel, .writeToRead, hacc, .inl rfl, rfl⟩
  · next hturn =>
    refine ⟨served, channel, s.busState, hacc, .inr ⟨rfl, ?_⟩, rfl⟩
    rintro ⟨hzero, hrest⟩
    apply hturn
    simp only [turnsToReads, decide_eq_true_eq]
    exact ⟨hzero, .inl hrest⟩

lemma serveRead_spec {s s' : DRAMCtrl p} {switched : Bool} {d : DRAMPacket p} {rest : List (DRAMPacket p)}
    (h : s.serveRead switched d rest = .ok s') :
    KeepsBusy s.channel s'.channel ∧ ∃ bus,
      (bus = s.busState ∨ p.writeHighThreshold < s.writeQueue.length ∨
        0 < s.channel.pendingRowOps - rowOpCount d) ∧
      queues s' = { queues s with
        readQueue := rest
        pendingRowOps := s.channel.pendingRowOps - rowOpCount d
        busState := bus
        issued := s.issued ++ [d] } := by
  obtain ⟨served, channel, t, bus, hacc, hbus, rfl⟩ := serveRead_cases h
  obtain ⟨hbusy, hpend⟩ := bubbledAccess_frame hacc
  simp only at hbusy hpend
  rw [hpend] at hbus
  refine ⟨hbusy, bus, hbus, ?_⟩
  simp only [queues, hpend]

lemma serveWrite_spec {s s' : DRAMCtrl p} {switched : Bool} {d : DRAMPacket p} {rest : List (DRAMPacket p)}
    (h : s.serveWrite switched d rest = .ok s') :
    KeepsBusy s.channel s'.channel ∧ ∃ bus,
      (bus = .writeToRead ∨ bus = s.busState ∧
        ¬(s.channel.pendingRowOps - rowOpCount d = 0 ∧ rest = [])) ∧
      queues s' = { queues s with
        writeQueue := rest
        isInWriteQueue := s.isInWriteQueue.erase (burst d)
        pendingRowOps := s.channel.pendingRowOps - rowOpCount d
        busState := bus
        issued := s.issued ++ [d] } := by
  obtain ⟨served, channel, bus, hacc, hbus, rfl⟩ := serveWrite_cases h
  obtain ⟨hbusy, hpend⟩ := bubbledAccess_frame hacc
  simp only at hbusy hpend
  rw [hpend] at hbus
  refine ⟨hbusy, bus, hbus, ?_⟩
  simp only [queues, hpend]

lemma finishNextReq_spec (s : DRAMCtrl p) :
    queues s.finishNextReq = queues s ∧ s.finishNextReq.channel = s.channel ∧
      s.finishNextReq.nextReqEvent ≠ none := by
  have hne := scheduleNextReq_ne_none s (max s.channel.nextReqTime s.curTick)
  have hq := queues_scheduleNextReq s (max s.channel.nextReqTime s.curTick)
  have hc := scheduleNextReq_channel s (max s.channel.nextReqTime s.curTick)
  simp only [finishNextReq]
  split
  · exact ⟨hq, hc, hne⟩
  · exact ⟨hq, hc, hne⟩

lemma readBranch_cases {s : DRAMCtrl p} {switched : Bool} {r : DRAMCtrl p × Bool}
    (h : s.readBranch switched = .ok r) :
    (s.readQueue = [] ∧ s.writeQueue ≠ [] ∧ r = ({ s with busState := .readToWrite }, true)) ∨
    (s.readQueue = [] ∧ ¬(s.writeQueue ≠ [] ∧ 0 < s.channel.pendingRowOps) ∧
      ∃ ds, r = ({ s with drainState := ds }, false)) ∨
    (s.readQueue ≠ [] ∧ r = (s, false) ∧
      s.channel.chooseIndex s.curTick s.readQueue (if switched then p.tCS else 0) = none) ∨
    ∃ pre d post t, s.readQueue = pre ++ d :: post ∧ s.serveRead switched d (pre ++ post) = .ok t ∧
      r = (t, true) := by
  unfold readBranch at h
  split at h
  · rename_i hread
    split at h
    · rename_i hturn
      cases h
      exact .inl ⟨hread, hturn.1, rfl⟩
    · rename_i hturn
      cases h
      refine .inr (.inl ⟨hread, ?_, ?_⟩)
      · rintro ⟨hwrite, hpend⟩
        exact hturn ⟨hwrite, .inr (.inr hpend)⟩
      · unfold signalDrainDone
        split
        · split
          · exact ⟨_, rfl⟩
          · exact ⟨s.drainState, rfl⟩
        · exact ⟨s.drainState, rfl⟩
  · obtain ⟨⟨found, queue⟩, hchoose, h⟩ := bind_eq_ok.mp h
    obtain ⟨hne, ⟨hnone, heq⟩ | ⟨pre, d, post, hq, -, -, heq⟩⟩ := chooseNext_cases hchoose
    · cases heq
      cases h
      exact .inr (.inr (.inl ⟨hne, rfl, hnone⟩))
    · cases heq
      obtain ⟨t, ht, h⟩ := bind_eq_ok.mp h
      cases h
      exact .inr (.inr (.inr ⟨pre, d, post, t, hq, ht, rfl⟩))

lemma writeBranch_cases {s : DRAMCtrl p} {switched : Bool} {r : DRAMCtrl p × Bool}
    (h : s.writeBranch switched = .ok r) :
    (s.writeQueue ≠ [] ∧ r = (s, false) ∧ s.channel.chooseIndex s.curTick s.writeQueue
      (if switched then min p.tRTW p.tCS else 0) = none) ∨
    ∃ pre d post t, s.writeQueue = pre ++ d :: post ∧ s.channel.chooseIndex s.curTick s.writeQueue
      (if switched then min p.tRTW p.tCS else 0) = some pre.length ∧
      s.serveWrite switched d (pre ++ post) = .ok t ∧ r = (t, true) := by
  obtain ⟨⟨found, queue⟩, hchoose, h⟩ := bind_eq_ok.mp h
  obtain ⟨hne, ⟨hnone, heq⟩ | ⟨pre, d, post, hq, hi, -, heq⟩⟩ := chooseNext_cases hchoose
  · cases heq
    cases h
    exact .inl ⟨hne, rfl, hnone⟩
  · cases heq
    obtain ⟨t, ht, h⟩ := bind_eq_ok.mp h
    cases h
    exact .inr ⟨pre, d, post, t, hq, hi, ht, rfl⟩

lemma exists_busy_of_all {c : Channel p} (h : busyRanks c = p.ranksPerChannel) :
    ∃ r, (c.ranks r).isAvailable = false := by
  refine ⟨⟨0, p.ranks_pos⟩, ?_⟩
  have hall := (List.countP_eq_length (l := List.finRange p.ranksPerChannel)
    (p := fun r => !(c.ranks r).isAvailable)).mp (by rw [List.length_finRange]; exact h)
  simpa using hall ⟨0, p.ranks_pos⟩ (List.mem_finRange _)

lemma writeChoice_nextReqEvent (s : DRAMCtrl p) (t : Option Nat) :
    writeChoice { s with nextReqEvent := t } = writeChoice s := by
  cases hb : s.busState <;> simp only [writeChoice, checkDrains, switchBus, hb]

/-- The event that fires is taken off the schedule before its handler runs. -/
lemma Effect.of_fired {s s' : DRAMCtrl p} {t : Option Nat}
    (h : Effect { s with nextReqEvent := t } .nextReq s') : Effect s .nextReq s' := by
  have hserved : servedWrite { s with nextReqEvent := t } .nextReq = servedWrite s .nextReq :=
    writeChoice_nextReqEvent s t
  cases h with
  | frame he => exact absurd rfl he
  | addReads hs rs hord hq hev => exact .addReads (hserved ▸ hs) rs hord hq hev
  | addRowOp hs d hd hlen hq hev => exact .addRowOp (hserved ▸ hs) d hd hlen hq hev
  | addWrites hs ws hord hnodup hnew hlen hq hev =>
    exact .addWrites (hserved ▸ hs) ws hord hnodup hnew hlen hq hev
  | stall hs bus hbus hq hwhy => exact .stall (hserved ▸ hs) bus hbus hq hwhy
  | turn hs hread hwrite hq hev => exact .turn (hserved ▸ hs) hread hwrite hq hev
  | serveRead hs pre d post hread bus hbus hq hev =>
    exact .serveRead (hserved ▸ hs) pre d post hread bus hbus hq hev
  | serveWrite pre d post hs hwrite bus hbus hq hev =>
    exact .serveWrite pre d post (hserved ▸ hs) hwrite bus hbus hq hev

/-- `t` is the state in which `processNextReqEvent` turns to the requests. -/
structure Settled (s t : DRAMCtrl p) (switched : Bool) : Prop where
  switch : s.checkDrains.switchBus = (t, switched)
  some : busyRanks s.channel ≠ p.ranksPerChannel
  queues : queues t = { queues s with busState := settledBus s.busState }
  busy : KeepsBusy s.channel t.channel

lemma settled_switchBus {s t : DRAMCtrl p} {switched : Bool} (hsw : s.checkDrains.switchBus = (t, switched))
    (hsome : busyRanks s.channel ≠ p.ranksPerChannel) : Settled s t switched := by
  obtain ⟨hq, hranks, -, -⟩ := switchBus_fst s.checkDrains
  rw [hsw] at hq hranks
  refine ⟨hsw, hsome, hq, fun r hr => ?_⟩
  rw [hranks]
  exact checkDrains_keepsBusy s r hr

lemma readBranch_effect {s t u : DRAMCtrl p} {switched goesOn : Bool} (hs : Settled s t switched)
    (hbus : t.busState = .read) (h : t.readBranch switched = .ok (u, goesOn)) :
    Effect s .nextReq (if goesOn then u.finishNextReq else u) ∧
      KeepsBusy s.channel (if goesOn then u.finishNextReq else u).channel := by
  obtain ⟨hfq, hfc, hfe⟩ := finishNextReq_spec u
  have hread : t.readQueue = s.readQueue := congrArg Queues.readQueue hs.queues
  have hwrite : t.writeQueue = s.writeQueue := congrArg Queues.writeQueue hs.queues
  have hpend : t.channel.pendingRowOps = s.channel.pendingRowOps := congrArg Queues.pendingRowOps hs.queues
  have hissued : t.issued = s.issued := congrArg Queues.issued hs.queues
  have hserved : servedWrite s .nextReq = none := by
    simp [servedWrite, writeChoice, hs.switch, hbus]
  rcases readBranch_cases h with ⟨hr, hw, heq⟩ | ⟨hr, hnot, ds, heq⟩ | ⟨hr, heq, hnone⟩ |
    ⟨pre, d, post, v, hr, hv, heq⟩
  · cases heq
    refine ⟨.turn hserved (hread ▸ hr) (hwrite ▸ hw) ?_ hfe, ?_⟩
    · rw [if_pos rfl, hfq]
      change { queues t with busState := .readToWrite } = _
      rw [hs.queues]
    · rw [if_pos rfl, hfc]
      exact hs.busy
  · cases heq
    refine ⟨.stall hserved _ (.inr rfl) hs.queues (.inr (.inl ⟨hread ▸ hr, ?_⟩)), hs.busy⟩
    rwa [hwrite, hpend] at hnot
  · cases heq
    exact ⟨.stall hserved _ (.inr rfl) hs.queues (.inr (.inr ⟨_, _, _, hr, hnone⟩)), hs.busy⟩
  · cases heq
    obtain ⟨hkeep, bus, hb, hqv⟩ := serveRead_spec hv
    refine ⟨.serveRead hserved pre d post (hread ▸ hr) bus ?_ ?_ hfe, ?_⟩
    · rwa [hbus, hwrite, hpend] at hb
    · rw [if_pos rfl, hfq, hqv, hs.queues, hpend, hissued]
    · rw [if_pos rfl, hfc]
      exact hs.busy.trans hkeep

lemma writeBranch_effect {s t u : DRAMCtrl p} {switched goesOn : Bool} (hs : Settled s t switched)
    (hbus : t.busState ≠ .read) (h : t.writeBranch switched = .ok (u, goesOn)) :
    Effect s .nextReq (if goesOn then u.finishNextReq else u) ∧
      KeepsBusy s.channel (if goesOn then u.finishNextReq else u).channel := by
  obtain ⟨hfq, hfc, hfe⟩ := finishNextReq_spec u
  have hwrite : t.writeQueue = s.writeQueue := congrArg Queues.writeQueue hs.queues
  have hin : t.isInWriteQueue = s.isInWriteQueue := congrArg Queues.isInWriteQueue hs.queues
  have hpend : t.channel.pendingRowOps = s.channel.pendingRowOps := congrArg Queues.pendingRowOps hs.queues
  have hissued : t.issued = s.issued := congrArg Queues.issued hs.queues
  have hwr : t.busState = .write := by
    have hsettled : t.busState = settledBus s.busState := congrArg Queues.busState hs.queues
    rw [hsettled] at hbus ⊢
    cases hs : s.busState <;> simp_all [settledBus]
  have hchoice : servedWrite s .nextReq = t.channel.chooseIndex t.curTick t.writeQueue
      (if switched then min p.tRTW p.tCS else 0) := by
    simp only [servedWrite, writeChoice, hs.switch]
    exact if_pos ⟨hs.some, hbus⟩
  rcases writeBranch_cases h with ⟨hw, heq, hnone⟩ | ⟨pre, d, post, v, hw, hi, hv, heq⟩
  · cases heq
    exact ⟨.stall (hchoice.trans hnone) _ (.inr rfl) hs.queues (.inr (.inr ⟨_, _, _, hw, hnone⟩)), hs.busy⟩
  · cases heq
    obtain ⟨hkeep, bus, hb, hqv⟩ := serveWrite_spec hv
    refine ⟨.serveWrite pre d post (hchoice.trans hi) (hwrite ▸ hw) bus ?_ ?_ hfe, ?_⟩
    · rwa [hwr, hpend] at hb
    · rw [if_pos rfl, hfq, hqv, hs.queues, hpend, hissued, hin]
    · rw [if_pos rfl, hfc]
      exact hs.busy.trans hkeep

lemma processNextReqEvent_effect {s s' : DRAMCtrl p} (h : s.processNextReqEvent = .ok s') :
    Effect s .nextReq s' ∧ KeepsBusy s.channel s'.channel := by
  simp only [processNextReqEvent] at h
  split at h
  · -- all ranks are busy
    rename_i hall
    cases h
    refine ⟨.stall ?_ s.busState (.inl rfl) rfl (.inl ?_), checkDrains_keepsBusy s⟩
    · simp [servedWrite, writeChoice, hall]
    · obtain ⟨r, hr⟩ := exists_busy_of_all hall
      exact ⟨r, checkDrains_keepsBusy s r hr⟩
  · rename_i hsome
    cases hsw : s.checkDrains.switchBus with
    | mk t switched =>
    rw [hsw] at h
    have hs := settled_switchBus hsw hsome
    obtain ⟨⟨u, goesOn⟩, hserve, h⟩ := bind_eq_ok.mp h
    cases h
    unfold serveRequest at hserve
    split at hserve
    · rename_i hbus
      exact readBranch_effect hs hbus hserve
    · rename_i hbus
      exact writeBranch_effect hs hbus hserve

/-! ### Every event -/

/-- A rank that becomes available again leaves `nextReqEvent` scheduled. -/
def Wakes (s s' : DRAMCtrl p) : Prop :=
  ∀ r, (s.channel.ranks r).isAvailable = false → (s'.channel.ranks r).isAvailable = true →
    s'.nextReqEvent ≠ none

lemma KeepsBusy.wakes {s s' : DRAMCtrl p} (h : KeepsBusy s.channel s'.channel) : Wakes s s' := by
  intro r hr hr'
  rw [h r hr] at hr'
  exact absurd hr' (by decide)

lemma setRank_wakes {s : DRAMCtrl p} {r : Fin p.ranksPerChannel} {rk : Rank p}
    (h : (s.channel.ranks r).isAvailable = false → rk.isAvailable = false) : Wakes s (s.setRank r rk) := by
  apply KeepsBusy.wakes
  intro i hi
  simp only [DRAMCtrl.setRank, Channel.setRank, Function.update_apply]
  split
  · subst i
    exact h hi
  · exact hi

lemma schedulePowerEvent_refreshState {rk rk' : Rank p} {st : PowerState} {t : Nat}
    (h : rk.schedulePowerEvent st t = .ok rk') : rk'.refreshState = rk.refreshState := by
  obtain ⟨_, -, h⟩ := bind_eq_ok.mp h
  cases h
  rfl

lemma processActivateEvent_refreshState {rk rk' : Rank p} {now : Nat}
    (h : rk.processActivateEvent now = .ok rk') : rk'.refreshState = rk.refreshState := by
  unfold Rank.processActivateEvent at h
  split at h
  · exact schedulePowerEvent_refreshState h
  · cases h
    rfl

lemma processPrechargeEvent_refreshState {rk rk' : Rank p} {now : Nat}
    (h : rk.processPrechargeEvent now = .ok rk') : rk'.refreshState = rk.refreshState := by
  unfold Rank.processPrechargeEvent at h
  split at h
  · exact schedulePowerEvent_refreshState h
  · cases h
    rfl

lemma refreshPrecharge_isAvailable {rk rk' : Rank p} {off now : Nat}
    (h : rk.refreshPrecharge off now = .ok rk') : rk'.isAvailable = false := by
  obtain ⟨mid, -, h⟩ := bind_eq_ok.mp h
  obtain ⟨_, -, h⟩ := bind_eq_ok.mp h
  cases h
  rfl

lemma refreshRun_refreshState {rk rk' : Rank p} {off now : Nat}
    (h : rk.refreshRun off now = .ok rk') : rk'.refreshState = rk.refreshState := by
  obtain ⟨_, -, h⟩ := bind_eq_ok.mp h
  obtain ⟨_, -, h⟩ := bind_eq_ok.mp h
  obtain ⟨_, -, h⟩ := bind_eq_ok.mp h
  have hst := schedulePowerEvent_refreshState h
  exact hst

lemma startRefresh_busy (rk : Rank p) (now : Nat) : (rk.startRefresh now).isAvailable = false := by
  unfold Rank.startRefresh
  split
  · rfl
  · rename_i hne
    simpa [Rank.isAvailable] using hne

lemma leaveDrain_busy {rk : Rank p} (h : rk.isAvailable = false) : rk.leaveDrain.isAvailable = false := by
  unfold Rank.leaveDrain
  split
  · rfl
  · exact h

/-- A refresh event always leaves its rank busy. -/
lemma processRefreshEvent_busy {rk rk' : Rank p} {off now : Nat} {awaiting : Bool}
    (h : rk.processRefreshEvent off now awaiting = .ok rk') : rk'.isAvailable = false := by
  unfold Rank.processRefreshEvent at h
  split at h
  · cases h
    exact startRefresh_busy rk now
  · unfold Rank.continueRefresh at h
    split at h
    · exact refreshPrecharge_isAvailable h
    · have hst := refreshRun_refreshState h
      simpa only [Rank.isAvailable, hst] using leaveDrain_busy (startRefresh_busy rk now)

lemma kickRefresh_busy {rk rk' : Rank p} {off now : Nat} (hb : rk.isAvailable = false)
    (h : rk.kickRefresh off now = .ok rk') : rk'.isAvailable = false := by
  unfold Rank.kickRefresh at h
  split at h
  · obtain ⟨_, -, h⟩ := bind_eq_ok.mp h
    exact processRefreshEvent_busy h
  · cases h
    exact hb

/-- A power event makes its rank available only together with a new request event. -/
lemma processPowerEvent_busy {rk : Rank p} {off now : Nat} {r : Rank p × Bool}
    (hb : rk.isAvailable = false) (h : rk.processPowerEvent off now = .ok r) :
    r.2 = true ∨ r.1.isAvailable = false := by
  unfold Rank.processPowerEvent at h
  split at h
  · cases h
    exact .inl rfl
  · obtain ⟨_, -, h⟩ := bind_eq_ok.mp h
    obtain ⟨mid, hmid, h⟩ := bind_eq_ok.mp h
    cases h
    refine .inr (kickRefresh_busy ?_ hmid)
    unfold Rank.enterRefresh
    split <;> exact hb

/-! ### One step -/

lemma nextResponse_frame {s s' : DRAMCtrl p} (h : s.nextResponse = .ok s') :
    queues s' = queues s ∧ s'.channel = s.channel ∧ s'.nextReqEvent = s.nextReqEvent ∧
      s'.respQueue = s.respQueue := by
  unfold nextResponse at h
  split at h
  · obtain ⟨_, -, h⟩ := bind_eq_ok.mp h
    cases h
    exact ⟨rfl, rfl, rfl, rfl⟩
  · cases h
    unfold signalDrainDone
    split
    · split <;> exact ⟨rfl, rfl, rfl, rfl⟩
    · exact ⟨rfl, rfl, rfl, rfl⟩

lemma sendResponse_eq (s : DRAMCtrl p) (d : DRAMPacket p) :
    ∃ hs rs, s.sendResponse d = { s with burstHelpers := hs, responded := rs } := by
  simp only [sendResponse]
  split
  · exact ⟨_, _, rfl⟩
  · exact ⟨_, s.responded, rfl⟩

lemma processRespondEvent_frame {s s' : DRAMCtrl p} (h : s.processRespondEvent = .ok s') :
    queues s' = queues s ∧ s'.channel = s.channel ∧ s'.nextReqEvent = s.nextReqEvent ∧
      ∀ x ∈ s'.respQueue, x ∈ s.respQueue := by
  unfold processRespondEvent at h
  split at h
  · cases h
  · rename_i d ds hresp
    obtain ⟨t, hnext, h⟩ := bind_eq_ok.mp h
    cases h
    obtain ⟨hs, rs, heq⟩ := sendResponse_eq s d
    rw [heq] at hnext
    obtain ⟨hq, hc, hev, htail⟩ := nextResponse_frame hnext
    have htail' : t.respQueue = ds := htail
    refine ⟨hq, hc, hev, fun x hx => ?_⟩
    rw [hresp]
    exact List.mem_cons_of_mem d (by rwa [← htail'])

lemma drain_frame (s : DRAMCtrl p) :
    queues s.drain = queues s ∧ SameDevice s s.drain ∧
      (s.nextReqEvent ≠ none → s.drain.nextReqEvent ≠ none) := by
  simp only [drain]
  split
  · exact ⟨rfl, ⟨rfl, rfl, rfl⟩, fun h => h⟩
  · split
    · have hsame : SameDevice s { s with drainState := .draining } := ⟨rfl, rfl, rfl⟩
      exact ⟨queues_scheduleNextReq _ _, hsame.scheduleNextReq _, fun _ => scheduleNextReq_ne_none _ _⟩
    · exact ⟨rfl, ⟨rfl, rfl, rfl⟩, fun h => h⟩

/-- What an event runs. -/
inductive Handles (s : DRAMCtrl p) : Event p → DRAMCtrl p → Prop
  | recvTimingReq {pkt : Packet} {r : DRAMCtrl p × Bool} (h : s.recvTimingReq pkt = .ok r) :
      Handles s (.recvTimingReq pkt) r.1
  | nextReq {s' : DRAMCtrl p} (h : { s with nextReqEvent := none }.processNextReqEvent = .ok s') :
      Handles s .nextReq s'
  | respond {s' : DRAMCtrl p} (h : { s with respondEvent := none }.processRespondEvent = .ok s') :
      Handles s .respond s'
  | activate {r : Fin p.ranksPerChannel} {rk : Rank p}
      (h : { s.channel.ranks r with activateEvent := none }.processActivateEvent s.curTick = .ok rk) :
      Handles s (.activate r) (s.setRank r rk)
  | precharge {r : Fin p.ranksPerChannel} {rk : Rank p}
      (h : { s.channel.ranks r with prechargeEvent := none }.processPrechargeEvent s.curTick = .ok rk) :
      Handles s (.precharge r) (s.setRank r rk)
  | refresh {r : Fin p.ranksPerChannel} {rk : Rank p}
      (h : { s.channel.ranks r with refreshEvent := none }.processRefreshEvent s.channel.timeStampOffset s.curTick
        (s.awaitsDrain r) = .ok rk) : Handles s (.refresh r) (s.setRank r rk)
  | power {r : Fin p.ranksPerChannel} {rk : Rank p} {kick : Bool}
      (h : { s.channel.ranks r with powerEvent := none }.processPowerEvent s.channel.timeStampOffset s.curTick =
        .ok (rk, kick)) :
      Handles s (.power r) (if kick then (s.setRank r rk).scheduleNextReq s.curTick else s.setRank r rk)
  | drain : Handles s .drain s.drain
  | drainResume : Handles s .drainResume { s with drainState := .running }

lemma handle_cases {s s' : DRAMCtrl p} {e : Event p} (h : s.handle e = .ok s') : Handles s e s' := by
  cases e with
  | recvTimingReq pkt =>
    obtain ⟨r, hr, h⟩ := bind_eq_ok.mp h
    cases h
    exact .recvTimingReq hr
  | nextReq =>
    obtain ⟨_, -, h⟩ := bind_eq_ok.mp h
    exact .nextReq h
  | respond =>
    obtain ⟨_, -, h⟩ := bind_eq_ok.mp h
    exact .respond h
  | activate r =>
    obtain ⟨_, -, h⟩ := bind_eq_ok.mp h
    obtain ⟨rk, hrk, h⟩ := bind_eq_ok.mp h
    cases h
    exact .activate hrk
  | precharge r =>
    obtain ⟨_, -, h⟩ := bind_eq_ok.mp h
    obtain ⟨rk, hrk, h⟩ := bind_eq_ok.mp h
    cases h
    exact .precharge hrk
  | refresh r =>
    obtain ⟨_, -, h⟩ := bind_eq_ok.mp h
    obtain ⟨rk, hrk, h⟩ := bind_eq_ok.mp h
    cases h
    exact .refresh hrk
  | power r =>
    obtain ⟨_, -, h⟩ := bind_eq_ok.mp h
    obtain ⟨⟨rk, kick⟩, hrk, h⟩ := bind_eq_ok.mp h
    cases h
    exact .power hrk
  | drain =>
    cases h
    exact .drain
  | drainResume =>
    obtain ⟨_, -, h⟩ := bind_eq_ok.mp h
    cases h
    exact .drainResume

/-- Everything an event can do to the queues, and that a rank never becomes available unnoticed. -/
theorem handle_effect {s s' : DRAMCtrl p} {e : Event p} (h : s.handle e = .ok s') :
    Effect s e s' ∧ Wakes s s' := by
  have hsame : ∀ t : DRAMCtrl p, t.channel.ranks = s.channel.ranks → Wakes s t := by
    intro t ht
    apply KeepsBusy.wakes
    intro r hr
    rwa [ht]
  cases handle_cases h with
  | @recvTimingReq pkt r hr =>
    obtain ⟨heff, hdev⟩ := recvTimingReq_effect (e := .recvTimingReq pkt) nofun hr
    exact ⟨heff, hsame _ hdev.ranks⟩
  | nextReq h =>
    obtain ⟨heff, hkeep⟩ := processNextReqEvent_effect h
    exact ⟨heff.of_fired, hkeep.wakes⟩
  | respond h =>
    obtain ⟨hq, hc, hev, -⟩ := processRespondEvent_frame h
    exact ⟨.frame nofun hq (fun hne => by rw [hev]; exact hne), hsame _ (by rw [hc])⟩
  | activate hrk =>
    have hst := processActivateEvent_refreshState hrk
    exact ⟨.frame nofun rfl (fun hne => hne), setRank_wakes (by simp [Rank.isAvailable, hst])⟩
  | precharge hrk =>
    have hst := processPrechargeEvent_refreshState hrk
    exact ⟨.frame nofun rfl (fun hne => hne), setRank_wakes (by simp [Rank.isAvailable, hst])⟩
  | refresh hrk =>
    exact ⟨.frame nofun rfl (fun hne => hne), setRank_wakes (fun _ => processRefreshEvent_busy hrk)⟩
  | @power r rk kick hrk =>
    cases kick with
    | true =>
      have hne := scheduleNextReq_ne_none (s.setRank r rk) s.curTick
      exact ⟨.frame nofun (queues_scheduleNextReq _ _) (fun _ => hne), fun _ _ _ => hne⟩
    | false =>
      refine ⟨.frame nofun rfl (fun hne => hne), setRank_wakes (fun hb => ?_)⟩
      have hbusy := processPowerEvent_busy (by exact hb) hrk
      exact hbusy.resolve_left (by simp)
  | drain =>
    obtain ⟨hq, hdev, hev⟩ := drain_frame s
    exact ⟨.frame nofun hq hev, hsame _ hdev.ranks⟩
  | drainResume => exact ⟨.frame nofun rfl (fun hne => hne), hsame _ rfl⟩

end MimdramLean.Proofs

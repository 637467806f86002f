import MimdramLean.Proofs.Effects

/-!
# Invariants of the queues and of the request event

`pendingRowOps` counts the row operations in the write queue, the write queue keeps to its size,
and the bus is set to writes only while there is something to write. On top of that, a pending
row operation or read always has a request event to come or a refreshing rank that will schedule
one.
-/

namespace MimdramLean.Proofs
open Library DRAMCtrl

variable {p : Params}

structure QueueInv (q : Queues p) : Prop where
  pending : q.pendingRowOps = q.writeQueue.countP DRAMPacket.isRowOp
  room : q.writeQueue.length ≤ p.writeBufferSize
  bus : q.busState = .write ∨ q.busState = .readToWrite → q.writeQueue ≠ []
  reads : ∀ d ∈ q.readQueue, d.isRowOp = false

lemma rowOpCount_of_not {d : DRAMPacket p} (h : d.isRowOp = false) : rowOpCount d = 0 := by
  simp [rowOpCount, h]

lemma countP_isRowOp_split (pre post : List (DRAMPacket p)) (d : DRAMPacket p) :
    ((pre ++ d :: post).countP DRAMPacket.isRowOp : Int) =
      ((pre ++ post).countP DRAMPacket.isRowOp : Int) + rowOpCount d := by
  cases hd : d.isRowOp with
  | true => simp [List.countP_append, hd, rowOpCount, Int.add_assoc]
  | false => simp [List.countP_append, hd, rowOpCount]

lemma queueInv_startup (p : Params) (now : Nat) : QueueInv (queues (startup p now)) where
  pending := rfl
  room := Nat.zero_le _
  bus := by simp [queues, startup]
  reads := by simp [queues, startup]

lemma settledBus_ne_read {b : BusState} (h : settledBus b ≠ .read) : b = .write ∨ b = .readToWrite := by
  cases b <;> simp_all [settledBus]

/-! Each update of the queues that an event can make keeps the invariant. -/

section Updates

variable {q : Queues p}

lemma QueueInv.addReads (hi : QueueInv q) {rs : List (DRAMPacket p)} (hord : ∀ d ∈ rs, d.isRowOp = false) :
    QueueInv { q with readQueue := q.readQueue ++ rs } := by
  refine ⟨hi.pending, hi.room, hi.bus, fun d hd => ?_⟩
  rcases List.mem_append.mp hd with hd | hd
  · exact hi.reads d hd
  · exact hord d hd

lemma QueueInv.addRowOp (hi : QueueInv q) {d : DRAMPacket p} (hd : d.isRowOp = true)
    (hlen : q.writeQueue.length + 1 ≤ p.writeBufferSize) (arrived : List (DRAMPacket p)) :
    QueueInv { q with
      writeQueue := q.writeQueue ++ [d]
      pendingRowOps := q.pendingRowOps + 1
      arrived := arrived } := by
  refine ⟨?_, by simpa using hlen, fun _ => by simp, hi.reads⟩
  simp [hi.pending, List.countP_append, hd]

lemma QueueInv.addWrites (hi : QueueInv q) {ws : List (DRAMPacket p)} (hord : ∀ d ∈ ws, d.isRowOp = false)
    (hlen : ws ≠ [] → q.writeQueue.length + ws.length ≤ p.writeBufferSize) (index : Finset Nat)
    (arrived : List (DRAMPacket p)) :
    QueueInv { q with
      writeQueue := q.writeQueue ++ ws
      isInWriteQueue := index
      arrived := arrived } := by
  have hzero : ws.countP DRAMPacket.isRowOp = 0 := by
    rw [List.countP_eq_zero]
    intro d hd
    simp [hord d hd]
  refine ⟨?_, ?_, ?_, hi.reads⟩
  · simp [hi.pending, List.countP_append, hzero]
  · by_cases hws : ws = []
    · simpa [hws] using hi.room
    · simpa using hlen hws
  · intro hbus
    exact List.append_ne_nil_of_left_ne_nil (hi.bus hbus) ws

lemma QueueInv.setBus (hi : QueueInv q) {bus : BusState}
    (hbus : bus = .write ∨ bus = .readToWrite → q.writeQueue ≠ []) : QueueInv { q with busState := bus } :=
  ⟨hi.pending, hi.room, hbus, hi.reads⟩

lemma QueueInv.settle (hi : QueueInv q) : QueueInv { q with busState := settledBus q.busState } := by
  refine hi.setBus fun hw => hi.bus (settledBus_ne_read fun hread => ?_)
  rw [hread] at hw
  simp at hw

lemma QueueInv.serveRead (hi : QueueInv q) {pre post : List (DRAMPacket p)} {d : DRAMPacket p}
    (hread : q.readQueue = pre ++ d :: post) {bus : BusState}
    (hbus : bus = .read ∨ p.writeHighThreshold < q.writeQueue.length ∨ 0 < q.pendingRowOps - rowOpCount d)
    (issued : List (DRAMPacket p)) :
    QueueInv { q with
      readQueue := pre ++ post
      pendingRowOps := q.pendingRowOps - rowOpCount d
      busState := bus
      issued := issued } := by
  have hreads : ∀ x ∈ pre ++ d :: post, x.isRowOp = false := fun x hx => hi.reads x (by rwa [hread])
  have hcount := rowOpCount_of_not (hreads d (by simp))
  refine ⟨?_, hi.room, ?_, ?_⟩
  · simp [hcount, hi.pending]
  · intro hw hnil
    -- the bus leaves reads only for a queue above the threshold or a pending row operation
    simp only at hnil hw
    rcases hbus with rfl | hhigh | hpos
    · simp at hw
    · simp [hnil] at hhigh
    · simp [hcount, hi.pending, hnil] at hpos
  · intro x hx
    apply hreads
    rcases List.mem_append.mp hx with hx | hx
    · simp [hx]
    · simp [hx]

lemma QueueInv.serveWrite (hi : QueueInv q) {pre post : List (DRAMPacket p)} {d : DRAMPacket p}
    (hwrite : q.writeQueue = pre ++ d :: post) {bus : BusState}
    (hbus : bus = .writeToRead ∨ bus = .write ∧ ¬(q.pendingRowOps - rowOpCount d = 0 ∧ pre ++ post = []))
    (index : Finset Nat) (issued : List (DRAMPacket p)) :
    QueueInv { q with
      writeQueue := pre ++ post
      isInWriteQueue := index
      pendingRowOps := q.pendingRowOps - rowOpCount d
      busState := bus
      issued := issued } := by
  have hcount : q.pendingRowOps - rowOpCount d = ((pre ++ post).countP DRAMPacket.isRowOp : Int) := by
    rw [hi.pending, hwrite, countP_isRowOp_split]
    omega
  have hroom := hi.room
  refine ⟨hcount, ?_, ?_, hi.reads⟩
  · rw [hwrite] at hroom
    simp only [List.length_append, List.length_cons] at hroom ⊢
    omega
  · intro hw hnil
    -- the bus stays on writes only while row operations or writes are left
    simp only at hnil hw
    rcases hbus with rfl | ⟨-, hnot⟩
    · simp at hw
    · apply hnot
      refine ⟨?_, hnil⟩
      rw [hcount]
      simp [hnil]

end Updates

lemma Effect.queueInv {s s' : DRAMCtrl p} {e : Event p} (h : Effect s e s') (hi : QueueInv (queues s)) :
    QueueInv (queues s') := by
  cases h with
  | frame he hq hev =>
    rw [hq]
    exact hi
  | addReads hserved rs hord hq hev =>
    rw [hq]
    exact hi.addReads hord
  | addRowOp hserved d hd hlen hq hev =>
    rw [hq]
    exact hi.addRowOp hd hlen _
  | addWrites hserved ws hord hnodup hnew hlen hq hev =>
    rw [hq]
    exact hi.addWrites hord hlen _ _
  | stall hserved bus hbus hq hwhy =>
    rw [hq]
    rcases hbus with rfl | rfl
    · exact hi
    · exact hi.settle
  | turn hserved hread hwrite hq hev =>
    rw [hq]
    exact hi.setBus fun _ => hwrite
  | serveRead hserved pre d post hread bus hbus hq hev =>
    rw [hq]
    exact hi.serveRead hread hbus _
  | serveWrite pre d post hserved hwrite bus hbus hq hev =>
    rw [hq]
    exact hi.serveWrite hwrite hbus _ _

/-! ### Runs -/

/-- One event at its tick is handled in the state whose current tick is moved there. -/
lemma step_eq_ok {s s' : DRAMCtrl p} {e : Nat × Event p} :
    step s e = .ok s' ↔ s.curTick ≤ e.1 ∧ { s with curTick := e.1 }.handle e.2 = .ok s' := by
  simp only [step, bind_eq_ok, ensure_eq_ok, exists_const]

lemma step_queueInv (s : DRAMCtrl p) (e : Nat × Event p) (s' : DRAMCtrl p)
    (hi : QueueInv (queues s)) (h : step s e = .ok s') : QueueInv (queues s') := by
  obtain ⟨-, hh⟩ := step_eq_ok.mp h
  exact (handle_effect hh).1.queueInv hi

lemma run_queueInv {now : Nat} {es : List (Nat × Event p)} {s : DRAMCtrl p} (h : run p now es = .ok s) :
    QueueInv (queues s) :=
  invariant_of_run step (fun s => QueueInv (queues s)) step_queueInv (queueInv_startup p now) h

/-! ### The scheduler is never called on an empty queue -/

lemma chooseNext_raises {c : Channel p} {now : Nat} {queue : List (DRAMPacket p)} {extra : Nat}
    (h : queue ≠ []) {P : Failure → Prop} : Raises (c.chooseNext now queue extra) P := by
  refine (raises_ensure fun hnil => absurd h hnil).bind fun _ _ => ?_
  split <;> exact raises_ok

lemma access_raises_ne_queueEmpty (c : Channel p) (now : Nat) (d : DRAMPacket p) (rest : List (DRAMPacket p)) :
    Raises (c.doDRAMAccess now d rest) (· ≠ .queueEmpty) := by
  refine doDRAMAccess_raises ?_ (fun _ _ => .inr (by simp)) rest
  rintro e h rfl
  simp [CommandFailure] at h

lemma scheduleResponse_raises (s : DRAMCtrl p) (d : DRAMPacket p) :
    Raises (s.scheduleResponse d) (· ≠ .queueEmpty) := by
  unfold scheduleResponse
  split
  · exact (raises_ensure fun _ => by simp).bind fun _ _ => raises_ok
  · refine (raises_ensure fun _ => by simp).bind fun _ _ => ?_
    exact (raises_ensure fun _ => by simp).bind fun _ _ => raises_ok

/-! What an access can raise, and the assertions about the packet served and its response, are all
that the request loop can raise. -/

/-- The assertions about a packet that is served. -/
def PacketFailure (e : Failure) : Prop := e = .rankBusy ∨ e = .packetSize ∨ e = .readyInPast

lemma serveRead_raises {s : DRAMCtrl p} {switched : Bool} {d : DRAMPacket p} {rest : List (DRAMPacket p)}
    {P : Failure → Prop} (hP : ∀ e, PacketFailure e → P e)
    (hacc : Raises ((addBubble s.channel switched d (add64 p.tWTR p.tCL)).doDRAMAccess s.curTick d rest) P)
    (hresp : ∀ r, (addBubble s.channel switched d (add64 p.tWTR p.tCL)).doDRAMAccess s.curTick d rest = .ok r →
      ∀ t : DRAMCtrl p, t.respQueue = s.respQueue → Raises (t.scheduleResponse r.1) P) :
    Raises (s.serveRead switched d rest) P := by
  refine (raises_ensure fun _ => hP _ (.inl rfl)).bind fun _ _ => ?_
  refine hacc.bind fun r hr => ?_
  refine Raises.bind ?_ fun _ _ => raises_ok
  refine (raises_ensure fun _ => hP _ (.inr (.inl rfl))).bind fun _ _ => ?_
  refine (raises_ensure fun _ => hP _ (.inr (.inr rfl))).bind fun _ _ => ?_
  refine Raises.bind ?_ fun _ _ => raises_ok
  exact hresp r hr _ rfl

lemma serveWrite_raises {s : DRAMCtrl p} {switched : Bool} {d : DRAMPacket p} {rest : List (DRAMPacket p)}
    {P : Failure → Prop} (hP : ∀ e, PacketFailure e → P e)
    (hacc : Raises ((addBubble s.channel switched d p.tRTW).doDRAMAccess s.curTick d rest) P) :
    Raises (s.serveWrite switched d rest) P := by
  refine (raises_ensure fun _ => hP _ (.inl rfl)).bind fun _ _ => ?_
  refine (raises_ensure fun _ => hP _ (.inr (.inl rfl))).bind fun _ _ => ?_
  exact hacc.bind fun _ _ => raises_ok

lemma writeBranch_raises {s : DRAMCtrl p} {switched : Bool} {P : Failure → Prop} (hw : s.writeQueue ≠ [])
    (hserve : ∀ d rest, Raises (s.serveWrite switched d rest) P) : Raises (s.writeBranch switched) P := by
  refine (chooseNext_raises hw).bind fun r hr => ?_
  obtain ⟨-, ⟨-, rfl⟩ | ⟨pre, d, post, -, -, -, rfl⟩⟩ := chooseNext_cases hr
  · exact raises_ok
  · exact (hserve d _).bind fun _ _ => raises_ok

lemma readBranch_raises {s : DRAMCtrl p} {switched : Bool} {P : Failure → Prop}
    (hserve : ∀ d ∈ s.readQueue, ∀ rest, Raises (s.serveRead switched d rest) P) :
    Raises (s.readBranch switched) P := by
  unfold readBranch
  split
  · split <;> exact raises_ok
  · rename_i hr
    refine (chooseNext_raises hr).bind fun r hr => ?_
    obtain ⟨-, ⟨-, rfl⟩ | ⟨pre, d, post, hqueue, -, -, rfl⟩⟩ := chooseNext_cases hr
    · exact raises_ok
    · exact (hserve d (by simp [hqueue]) _).bind fun _ _ => raises_ok

lemma processNextReqEvent_raises {s : DRAMCtrl p} {P : Failure → Prop} (hi : QueueInv (queues s))
    (hread : ∀ switched, ∀ d ∈ s.readQueue, ∀ rest,
      Raises (s.checkDrains.switchBus.1.serveRead switched d rest) P)
    (hwrite : ∀ switched d rest, Raises (s.checkDrains.switchBus.1.serveWrite switched d rest) P) :
    Raises s.processNextReqEvent P := by
  simp only [processNextReqEvent]
  split
  · exact raises_ok
  · obtain ⟨hq, -, -, -⟩ := switchBus_fst s.checkDrains
    cases hsw : s.checkDrains.switchBus with
    | mk t switched =>
    rw [hsw] at hq hread hwrite
    replace hq : queues t = { queues s with busState := settledBus s.busState } := hq
    refine Raises.bind ?_ fun _ _ => raises_ok
    unfold serveRequest
    split
    · have hreads : t.readQueue = s.readQueue := congrArg Queues.readQueue hq
      exact readBranch_raises fun d hd => hread switched d (by rwa [← hreads])
    · rename_i hbusy
      refine writeBranch_raises ?_ (hwrite switched)
      have hbus : t.busState = settledBus s.busState := congrArg Queues.busState hq
      have hwrites : t.writeQueue = s.writeQueue := congrArg Queues.writeQueue hq
      rw [hwrites]
      exact hi.bus (settledBus_ne_read (hbus ▸ hbusy))

/-- The request event fails because it is not due, or as the request loop does. -/
lemma step_nextReq_raises {s : DRAMCtrl p} {t : Nat} {P : Failure → Prop} (hP : P .notEnabled)
    (h : Raises { s with curTick := t, nextReqEvent := none }.processNextReqEvent P) :
    Raises (step s (t, .nextReq)) P := by
  refine (raises_ensure fun _ => hP).bind fun _ _ => ?_
  exact (raises_ensure fun _ => hP).bind fun _ _ => h

/-- The count of pending row operations is right, the write queue keeps to its size, and the bus
is on writes only with something to write; so the request loop never asks the scheduler to choose
from an empty queue. -/
theorem pendingRowOps_bus_invariant (p : Params) (now : Nat) (es : List (Nat × Event p)) (s : DRAMCtrl p)
    (h : run p now es = .ok s) :
    s.channel.pendingRowOps = s.writeQueue.countP DRAMPacket.isRowOp ∧
      s.writeQueue.length ≤ p.writeBufferSize ∧
      (s.busState = .write ∨ s.busState = .readToWrite → s.writeQueue ≠ []) ∧
      ∀ t, step s (t, .nextReq) ≠ .error .queueEmpty := by
  have hi := run_queueInv h
  refine ⟨hi.pending, hi.room, hi.bus, fun t ht => ?_⟩
  have hpacket : ∀ e, PacketFailure e → e ≠ .queueEmpty := by
    rintro e (rfl | rfl | rfl) <;> simp
  have hraises : Raises (step s (t, .nextReq)) (· ≠ .queueEmpty) :=
    step_nextReq_raises (by simp) (processNextReqEvent_raises hi
      (fun _ d _ _ => serveRead_raises hpacket (access_raises_ne_queueEmpty _ _ d _)
        fun _ _ t _ => scheduleResponse_raises t _)
      (fun _ d _ => serveWrite_raises hpacket (access_raises_ne_queueEmpty _ _ d _)))
  exact hraises _ ht rfl

/-- A row operation and a write arrive, and the first request event turns the bus to writes. -/
def rowOpThenWrite : List (Nat × Event ddr3_1600_x64) :=
  [(1, .recvTimingReq ⟨0, .rowOpReq ⟨.rowNot, 0, 131072, 0⟩, false⟩),
    (1, .recvTimingReq ⟨1, .writeReq 0 64, false⟩), (1, .nextReq)]

theorem pendingRowOps_bus_invariant_rowOpThenWrite :
    ∃ s, run ddr3_1600_x64 0 rowOpThenWrite = .ok s ∧ s.busState = .readToWrite ∧ s.writeQueue ≠ [] ∧
      s.channel.pendingRowOps = s.writeQueue.countP DRAMPacket.isRowOp := by
  obtain ⟨s, hrun, hbus⟩ := exists_of_okWith
    (x := run ddr3_1600_x64 0 rowOpThenWrite) (P := fun s => s.busState == .readToWrite) (by decide +kernel)
  have hinv := pendingRowOps_bus_invariant ddr3_1600_x64 0 rowOpThenWrite s hrun
  have hwrite : s.busState = .readToWrite := by simpa using hbus
  exact ⟨s, hrun, hwrite, hinv.2.2.1 (.inr hwrite), hinv.1⟩

/-! ### No request is forgotten -/

/-- Work that is pending has a request event to come or a rank to wait for. -/
def NotForgotten (s : DRAMCtrl p) : Prop :=
  0 < s.channel.pendingRowOps ∨ s.readQueue ≠ [] →
    s.nextReqEvent ≠ none ∨ ∃ r, (s.channel.ranks r).isAvailable = false

lemma notForgotten_of_event {s : DRAMCtrl p} (h : s.nextReqEvent ≠ none) : NotForgotten s :=
  fun _ => .inl h

/-- The scheduler comes back empty-handed only if it waits for a rank. -/
lemma exists_busy_of_chooseIndex (hb : p.ranksPerChannel * p.banksPerRank ≤ 64) {c : Channel p}
    {now : Nat} {queue : List (DRAMPacket p)} {extra : Nat} (hne : queue ≠ [])
    (h : c.chooseIndex now queue extra = none) : ∃ r, (c.ranks r).isAvailable = false := by
  obtain ⟨d, hd⟩ := List.exists_mem_of_ne_nil queue hne
  refine ⟨d.rank, ?_⟩
  by_contra ha
  exact chooseIndex_isSome hb c now queue extra hd (by simpa [Channel.available] using ha) h

lemma Effect.notForgotten (hb : p.ranksPerChannel * p.banksPerRank ≤ 64) {s s' : DRAMCtrl p}
    {e : Event p} (h : Effect s e s') (hw : Wakes s s') (hi : QueueInv (queues s))
    (hn : NotForgotten s) : NotForgotten s' := by
  cases h with
  | frame he hq hev =>
    intro hwork
    have hpend : s'.channel.pendingRowOps = s.channel.pendingRowOps := congrArg Queues.pendingRowOps hq
    have hread : s'.readQueue = s.readQueue := congrArg Queues.readQueue hq
    rw [hpend, hread] at hwork
    rcases hn hwork with hne | ⟨r, hr⟩
    · exact .inl (hev hne)
    · -- the rank is busy still, or its coming back has scheduled the event
      cases hr' : (s'.channel.ranks r).isAvailable with
      | false => exact .inr ⟨r, hr'⟩
      | true => exact .inl (hw r hr hr')
  | stall hserved bus hbus hq hwhy =>
    intro hwork
    have hpend : s'.channel.pendingRowOps = s.channel.pendingRowOps := congrArg Queues.pendingRowOps hq
    have hread : s'.readQueue = s.readQueue := congrArg Queues.readQueue hq
    rw [hpend, hread] at hwork
    rcases hwhy with hbusy | ⟨hempty, hnone⟩ | ⟨now, queue, extra, hne, hchoose⟩
    · exact .inr hbusy
    · -- nothing to read and no pending row operation
      exfalso
      have hp : s.channel.pendingRowOps = s.writeQueue.countP DRAMPacket.isRowOp := hi.pending
      rcases hwork with hpos | hreads
      · refine hnone ⟨?_, hpos⟩
        rintro hnil
        rw [hp, hnil] at hpos
        simp at hpos
      · exact hreads hempty
    · exact .inr (exists_busy_of_chooseIndex hb hne hchoose)
  | addReads _ _ _ _ hev => exact notForgotten_of_event hev
  | addRowOp _ _ _ _ _ hev => exact notForgotten_of_event hev
  | addWrites _ _ _ _ _ _ _ hev => exact notForgotten_of_event hev
  | turn _ _ _ _ hev => exact notForgotten_of_event hev
  | serveRead _ _ _ _ _ _ _ _ hev => exact notForgotten_of_event hev
  | serveWrite _ _ _ _ _ _ _ _ hev => exact notForgotten_of_event hev

/-- In every reachable state, pending work has a request event to come or a rank to wait for; and
every step that takes a rank back to normal operation leaves the request event scheduled. -/
theorem nextReqEvent_not_forgotten (p : Params) (hb : p.ranksPerChannel * p.banksPerRank ≤ 64)
    (now : Nat) (es : List (Nat × Event p)) (s : DRAMCtrl p) (h : run p now es = .ok s) :
    (0 < s.channel.pendingRowOps ∨ s.readQueue ≠ [] →
      s.nextReqEvent ≠ none ∨ ∃ r, (s.channel.ranks r).refreshState ≠ .refIdle) ∧
    ∀ e s' r, step s e = .ok s' → (s.channel.ranks r).refreshState ≠ .refIdle →
      (s'.channel.ranks r).refreshState = .refIdle → s'.nextReqEvent ≠ none := by
  have hinv := invariant_of_run step (fun s => QueueInv (queues s) ∧ NotForgotten s)
    (fun s e s' hi hs => by
      obtain ⟨-, hh⟩ := step_eq_ok.mp hs
      obtain ⟨heff, hwakes⟩ := handle_effect hh
      exact ⟨heff.queueInv hi.1, heff.notForgotten hb hwakes hi.1 hi.2⟩)
    ⟨queueInv_startup p now, by simp [NotForgotten, startup, Channel.startup]⟩ h
  refine ⟨fun hwork => ?_, fun e s' r hs hr hr' => ?_⟩
  · rcases hinv.2 hwork with hev | ⟨r, hr⟩
    · exact .inl hev
    · exact .inr ⟨r, by simpa [Rank.isAvailable] using hr⟩
  · obtain ⟨-, hh⟩ := step_eq_ok.mp hs
    exact (handle_effect hh).2 r (by simpa [Rank.isAvailable] using hr) (by simp [Rank.isAvailable, hr'])

/-- Rank 0 starts to refresh, and a read of that rank is left waiting. -/
def readDuringRefresh : List (Nat × Event ddr3_1600_x64) :=
  [(7786250, .refresh ⟨0, ddr3_1600_x64.ranks_pos⟩), (7786250, .power ⟨0, ddr3_1600_x64.ranks_pos⟩),
    (7786251, .recvTimingReq ⟨0, .readReq 0 64, false⟩), (7786251, .nextReq)]

theorem nextReqEvent_not_forgotten_readDuringRefresh :
    ∃ s, run ddr3_1600_x64 0 readDuringRefresh = .ok s ∧ s.readQueue ≠ [] ∧ s.nextReqEvent = none ∧
      ∃ r, (s.channel.ranks r).refreshState ≠ .refIdle := by
  obtain ⟨s, hrun, hs⟩ := exists_of_okWith (x := run ddr3_1600_x64 0 readDuringRefresh)
    (P := fun s => !s.readQueue.isEmpty && s.nextReqEvent.isNone) (by decide +kernel)
  obtain ⟨hread, hev⟩ : s.readQueue ≠ [] ∧ s.nextReqEvent = none := by simpa using hs
  have hinv := nextReqEvent_not_forgotten ddr3_1600_x64 (by decide) 0 readDuringRefresh s hrun
  exact ⟨s, hrun, hread, hev, (hinv.1 (.inr hread)).resolve_left (fun hne => hne hev)⟩

end MimdramLean.Proofs

import MimdramLean.Proofs.Bus

/-!
# Subtractions from `busBusyUntil`

Three times are computed by subtraction from the time at which the data bus is free: the column command of
an access, the earliest seamless activate that the scheduler compares with, and `nextReqTime`. `startup`
moves the bus ahead by tRP + tRCD + tCL for that. An ordinary access never moves it back; a row operation
may, but it ends with a precharge that is a tRAS after its activate.
-/

namespace MimdramLean.Proofs
open Library DRAMCtrl

variable {p : Params}

/-- How long before the bus is free the next request is looked at. -/
def prepTime (p : Params) : Nat := p.tRP + p.tRCD + p.tCL

lemma prepTime_le : prepTime p ≤ totalDelay p := by
  unfold prepTime totalDelay
  omega

lemma prepTime_eq {t : Nat} (hfit : t + totalDelay p < 2 ^ 64) :
    add64 (add64 p.tRP p.tRCD) p.tCL = prepTime p := by
  have hprep := prepTime_le (p := p)
  unfold prepTime at hprep
  have hsum : add64 p.tRP p.tRCD = p.tRP + p.tRCD := add64_of_lt (by omega)
  rw [hsum]
  exact add64_of_lt (by omega)

/-! ### One access -/

section Commands

variable {rk rk' : Rank p} {off t T : Nat} {b : Fin p.banksPerRank}

/-- A bank command leaves the bank precharged: it can be activated after tRAS and tRP. -/
lemma issue_actAllowedAt {c : BankCommand} (hw : RankWithin T rk) (ht : t ≤ T) (hT : T + 2 * totalDelay p < 2 ^ 64)
    (h : rk.issue off b t c = .ok rk') : p.tRAS + p.tRP ≤ (rk'.banks b).actAllowedAt := by
  -- both routines precharge at the tick that their activate has set
  have hprecharged : ∀ mid : Rank p, RankWithin (T + totalDelay p) mid → p.tRAS ≤ (mid.banks b).preAllowedAt →
      mid.prechargeBank off b (mid.banks b).preAllowedAt true = .ok rk' →
      p.tRAS + p.tRP ≤ (rk'.banks b).actAllowedAt := by
    intro mid hmid hras hpre
    obtain ⟨-, -, rfl⟩ := prechargeBank_eq_ok.mp hpre
    have hrp := (precharged_precharges mid off b (mid.banks b).preAllowedAt true).rp
    have hle := hmid.pre b
    rw [add64_tRP (by omega)] at hrp
    omega
  cases c with
  | ap row =>
    obtain ⟨mid, hact, hpre⟩ := bind_eq_ok.mp h
    obtain ⟨-, -, -, -, rfl⟩ := activateBank_eq_ok.mp hact
    have hras := (activated_activates rk off b t row).preAllowedAt b
    rw [if_pos rfl, add64_tRAS (by omega)] at hras
    exact hprecharged _ (activated_within hw ht off b row) (hras ▸ Nat.le_add_left _ _) hpre
  | aap row1 row2 ov =>
    obtain ⟨-, -, hpre⟩ := bind_eq_ok.mp h
    have hras := (doubleActivated_activates rk b t ov).preAllowedAt b
    rw [if_pos rfl, add64_tRAS_tWL (by omega)] at hras
    exact hprecharged _ (doubleActivated_within hw ht b ov) (by omega) hpre

lemma issueAll_end {cs : List BankCommand} {r : Rank p × Nat} (hw : RankWithin T rk) (ht : t ≤ T)
    (hT : T + cs.length * (2 * totalDelay p) < 2 ^ 64) (hcs : cs ≠ []) (h : rk.issueAll off b t cs = .ok r) :
    p.tRAS + p.tRP ≤ r.2 := by
  induction cs generalizing rk t T with
  | nil => exact absurd rfl hcs
  | cons c cs ih =>
    obtain ⟨mid, hc, hrest⟩ := bind_eq_ok.mp h
    rw [List.length_cons, Nat.succ_mul, Nat.add_comm (cs.length * _), ← Nat.add_assoc] at hT
    have hmid := issue_within hw ht hc
    cases cs with
    | nil =>
      cases hrest
      exact issue_actAllowedAt hw ht (by omega) hc
    | cons c' cs => exact ih hmid (hmid.act b) hT (List.cons_ne_nil c' cs) hrest

end Commands

lemma rowOpCommands_ne_nil (op : RowOp) (row src1Row src2Row : Nat) :
    rowOpCommands op row src1Row src2Row ≠ [] := by
  cases op <;> exact List.cons_ne_nil _ _

section Accesses

variable {c : Channel p} {T now : Nat} {d : DRAMPacket p} {r : DRAMPacket p × Channel p}

/-- An access leaves the bus far enough ahead, whether it moves it back or not. -/
structure LeavesPrep (r : DRAMPacket p × Channel p) : Prop where
  bus : prepTime p ≤ r.2.busBusyUntil
  next : r.2.nextReqTime = sub64 r.2.busBusyUntil (prepTime p)

lemma doRowOp_leavesPrep {op : RowOp} (hras : p.tRCD ≤ p.tRAS) (hw : ChannelWithin T c) (hnow : now ≤ T)
    (hT : T + 16 * totalDelay p < 2 ^ 64) (h : c.doRowOp now d op = .ok r) : LeavesPrep r := by
  obtain ⟨mid, hclose, h⟩ := bind_eq_ok.mp h
  obtain ⟨⟨rk, cmdAt⟩, hissue, h⟩ := bind_eq_ok.mp h
  cases h
  obtain ⟨hmid, hstart⟩ := closeForRowOp_within hw hnow hclose
  have hlen := Nat.mul_le_mul_right (2 * totalDelay p) (rowOpCommands_length op d.row.val d.src1Row d.src2Row)
  have hend : p.tRAS + p.tRP ≤ cmdAt :=
    issueAll_end hmid hstart (by omega) (rowOpCommands_ne_nil _ _ _ _) hissue
  have hcmd : cmdAt ≤ _ := (issueAll_within hmid hstart hissue).2
  have hprep := prepTime_le (p := p)
  unfold prepTime at hprep
  have hready : add64 cmdAt p.tCL = cmdAt + p.tCL := add64_of_lt (by omega)
  simp only [Channel.setBusy, hready]
  refine ⟨?_, ?_⟩
  · simp only [prepTime]
    omega
  · rw [prepTime_eq (t := T) (by omega)]

lemma countAccess_nextReqTime (c : Channel p) (d : DRAMPacket p) :
    (c.countAccess d).nextReqTime = c.nextReqTime := by
  unfold Channel.countAccess
  split <;> rfl

lemma doBurst_leavesPrep {rest : List (DRAMPacket p)} (hw : ChannelWithin T c) (hnow : now ≤ T)
    (hT : T + 16 * totalDelay p < 2 ^ 64) (hbus : prepTime p ≤ c.busBusyUntil) (h : c.doBurst now d rest = .ok r) :
    LeavesPrep r := by
  obtain ⟨⟨rk, t⟩, hopen, h⟩ := bind_eq_ok.mp h
  obtain ⟨_, -, h⟩ := bind_eq_ok.mp h
  obtain ⟨rk', -, h⟩ := bind_eq_ok.mp h
  cases h
  have hcmdw := hw.column_le (openRow_within (hw.ranks d.rank) hnow hopen).2
  have hcmd := le_max_right t (sub64 c.busBusyUntil p.tCL)
  generalize max t (sub64 c.busBusyUntil p.tCL) = cmdAt at hcmdw hcmd ⊢
  rw [sub64_of_le hw.data] at hcmd
  have hfit : cmdAt + totalDelay p < 2 ^ 64 := by omega
  constructor
  · simp only [countAccess_busBusyUntil, Channel.setBusy, readyTime_eq hfit]
    omega
  · simp only [countAccess_busBusyUntil, countAccess_nextReqTime, Channel.setBusy, prepTime_eq hfit]

theorem doDRAMAccess_leavesPrep {rest : List (DRAMPacket p)} (hras : p.tRCD ≤ p.tRAS) (hw : ChannelWithin T c)
    (hnow : now ≤ T) (hT : T + 16 * totalDelay p < 2 ^ 64) (hbus : prepTime p ≤ c.busBusyUntil)
    (h : c.doDRAMAccess now d rest = .ok r) : LeavesPrep r := by
  unfold Channel.doDRAMAccess at h
  split at h
  · exact doRowOp_leavesPrep hras hw hnow hT h
  · exact doBurst_leavesPrep hw hnow hT hbus h

/-! ### The three subtractions -/

/-- What is subtracted from the times of the channel at tick `now` comes back when it is added again. The
scheduler adds a delay of at most tCS. -/
structure Unwrapped (now : Nat) (c : Channel p) : Prop where
  bus : prepTime p ≤ c.busBusyUntil
  column : sub64 c.busBusyUntil p.tCL + p.tCL = c.busBusyUntil
  activate : ∀ extraColDelay ≤ p.tCS,
    sub64 (c.minColAt now extraColDelay) p.tRCD + p.tRCD = c.minColAt now extraColDelay
  next : ∀ d rest r, c.doDRAMAccess now d rest = .ok r → r.2.nextReqTime + prepTime p = r.2.busBusyUntil

lemma sub64_add {a b : Nat} (h : b ≤ a) : sub64 a b + b = a := by
  rw [sub64_of_le h, Nat.sub_add_cancel h]

lemma tRCD_le_minColAt {extraColDelay : Nat} (hw : ChannelWithin T c) (hT : T + 16 * totalDelay p < 2 ^ 64)
    (hbus : prepTime p ≤ c.busBusyUntil) (now : Nat) (hdelay : extraColDelay ≤ p.tCS) :
    p.tRCD ≤ c.minColAt now extraColDelay := by
  have hcs : p.tCS ≤ totalDelay p := by
    unfold totalDelay
    omega
  have hle := hw.bus
  refine le_trans ?_ (le_max_left _ _)
  rw [sub64_of_le hw.data, add64_of_lt (by omega)]
  unfold prepTime at hbus
  omega

lemma unwrapped_of_bus (hras : p.tRCD ≤ p.tRAS) (hw : ChannelWithin T c) (hnow : now ≤ T)
    (hT : T + 16 * totalDelay p < 2 ^ 64) (hbus : prepTime p ≤ c.busBusyUntil) : Unwrapped now c where
  bus := hbus
  column := sub64_add hw.data
  activate := fun extraColDelay hdelay => sub64_add (tRCD_le_minColAt hw hT hbus now hdelay)
  next := by
    intro d rest r h
    have hleaves := doDRAMAccess_leavesPrep hras hw hnow hT hbus h
    rw [hleaves.next, sub64_add hleaves.bus]

end Accesses

/-! ### Sequences of accesses -/

lemma advanceBus_prep {c : Channel p} {T bubble : Nat} (hw : ChannelWithin T c) (hT : T + bubble < 2 ^ 64)
    (hbus : prepTime p ≤ c.busBusyUntil) : prepTime p ≤ (c.advanceBus bubble).busBusyUntil := by
  have hle := hw.bus
  simp only [Channel.advanceBus]
  rw [add64_of_lt (by omega)]
  omega

lemma access_prep (hras : p.tRCD ≤ p.tRAS) (T : Nat) (s : Calls p) (a : Call p) (s' : Calls p)
    (hw : ChannelWithin T s.channel) (hnow : a.now ≤ T) (hT : T + a.bubble + reach p < 2 ^ 64)
    (hs : prepTime p ≤ s.channel.busBusyUntil) (h : s.access a = .ok s') :
    prepTime p ≤ s'.channel.busBusyUntil := by
  obtain ⟨⟨d, channel⟩, hacc, h⟩ := bind_eq_ok.mp h
  cases h
  unfold reach at hT
  have hbubbled := hw.advanceBus a.bubble (by omega)
  exact (doDRAMAccess_leavesPrep hras hbubbled (by omega) (by omega) (advanceBus_prep hw (by omega) hs) hacc).bus

lemma startup_prep {start : Nat} (hfit : start + totalDelay p < 2 ^ 64) :
    prepTime p ≤ (Channel.startup p start).busBusyUntil := by
  have hprep := prepTime_le (p := p)
  rw [startup_busBusyUntil hfit]
  unfold prepTime
  omega

/-! ### The controller -/

section Controller

variable {T : Nat} {s s' : DRAMCtrl p}

lemma addBubble_prep {c : Channel p} (hw : ChannelWithin T c) (switched : Bool) (d : DRAMPacket p) {bubble : Nat}
    (hT : T + bubble < 2 ^ 64) (hbus : prepTime p ≤ c.busBusyUntil) :
    prepTime p ≤ (addBubble c switched d bubble).busBusyUntil := by
  unfold addBubble
  split
  · exact advanceBus_prep hw hT hbus
  · exact hbus

lemma bubbledAccess_prep {c : Channel p} {switched : Bool} {now bubble : Nat} {d : DRAMPacket p}
    {rest : List (DRAMPacket p)} {r : DRAMPacket p × Channel p} (hras : p.tRCD ≤ p.tRAS) (hw : ChannelWithin T c)
    (hbubble : bubble ≤ totalDelay p) (hnow : now ≤ T) (hT : T + reach p < 2 ^ 64)
    (hbus : prepTime p ≤ c.busBusyUntil) (h : (addBubble c switched d bubble).doDRAMAccess now d rest = .ok r) :
    prepTime p ≤ r.2.busBusyUntil := by
  unfold reach at hT
  have hbubbled := addBubble_within hw switched d hbubble (by omega)
  have hprep := addBubble_prep hw switched d (show T + bubble < 2 ^ 64 by omega) hbus
  exact (doDRAMAccess_leavesPrep hras hbubbled (by omega) (by omega) hprep h).bus

lemma serveRequest_prep {switched : Bool} {r : DRAMCtrl p × Bool} (hras : p.tRCD ≤ p.tRAS)
    (hw : ChannelWithin T s.channel) (hnow : s.curTick ≤ T) (hT : T + reach p < 2 ^ 64)
    (hs : prepTime p ≤ s.channel.busBusyUntil) (h : s.serveRequest switched = .ok r) :
    prepTime p ≤ r.1.channel.busBusyUntil := by
  unfold serveRequest at h
  split at h
  · rcases readBranch_cases h with ⟨-, -, rfl⟩ | ⟨-, -, ds, rfl⟩ | ⟨-, rfl, -⟩ | ⟨pre, d, post, t, -, ht, rfl⟩
    · exact hs
    · exact hs
    · exact hs
    · obtain ⟨served, channel, t, bus, hacc, -, rfl⟩ := serveRead_cases ht
      exact bubbledAccess_prep hras hw bubbles_le.1 hnow hT hs hacc
  · rcases writeBranch_cases h with ⟨-, rfl, -⟩ | ⟨pre, d, post, t, -, -, ht, rfl⟩
    · exact hs
    · obtain ⟨served, channel, bus, hacc, -, rfl⟩ := serveWrite_cases ht
      exact bubbledAccess_prep hras hw bubbles_le.2 hnow hT hs hacc

lemma switchBus_busBusyUntil (s : DRAMCtrl p) :
    s.switchBus.1.channel.busBusyUntil = s.channel.busBusyUntil := by
  unfold switchBus
  split <;> rfl

lemma processNextReqEvent_prep (hras : p.tRCD ≤ p.tRAS) (hw : ChannelWithin T s.channel) (hnow : s.curTick ≤ T)
    (hT : T + reach p < 2 ^ 64) (hs : prepTime p ≤ s.channel.busBusyUntil) (h : s.processNextReqEvent = .ok s') :
    prepTime p ≤ s'.channel.busBusyUntil := by
  obtain ⟨hsetw, hsetnow⟩ := settled_within hw hnow
  simp only [processNextReqEvent] at h
  split at h
  · cases h
    exact hs
  · obtain ⟨⟨u, goesOn⟩, hserve, h⟩ := bind_eq_ok.mp h
    have hset : prepTime p ≤ s.checkDrains.switchBus.1.channel.busBusyUntil := by
      rw [switchBus_busBusyUntil]
      exact hs
    have hu := serveRequest_prep hras hsetw hsetnow hT hset hserve
    cases h
    split
    · rw [(finishNextReq_spec u).2.1]
      exact hu
    · exact hu

lemma handle_prep {e : Event p} (hras : p.tRCD ≤ p.tRAS) (hw : ChannelWithin T s.channel) (hnow : s.curTick ≤ T)
    (hT : T + reach p < 2 ^ 64) (hs : prepTime p ≤ s.channel.busBusyUntil) (h : s.handle e = .ok s') :
    prepTime p ≤ s'.channel.busBusyUntil := by
  have hsame : ∀ {t : DRAMCtrl p}, SameDevice s t → prepTime p ≤ t.channel.busBusyUntil :=
    fun hd => hd.busBusyUntil ▸ hs
  cases handle_cases h with
  | @recvTimingReq pkt r hr =>
    have hne : Event.recvTimingReq (p := p) pkt ≠ .nextReq := by
      intro heq
      cases heq
    exact hsame (recvTimingReq_effect hne hr).2
  | nextReq h =>
    exact processNextReqEvent_prep (s := { s with nextReqEvent := none }) hras hw hnow hT hs h
  | respond h =>
    obtain ⟨-, hc, -, -⟩ := processRespondEvent_frame h
    rw [hc]
    exact hs
  | activate hrk => exact hs
  | precharge hrk => exact hs
  | refresh hrk => exact hs
  | power hrk =>
    split
    · rw [scheduleNextReq_channel]
      exact hs
    · exact hs
  | drain => exact hsame (drain_frame s).2.1
  | drainResume => exact hs

lemma step_prep (hras : p.tRCD ≤ p.tRAS) (T : Nat) (s : DRAMCtrl p) (e : Nat × Event p) (s' : DRAMCtrl p)
    (hw : ChannelWithin T s.channel) (he : e.1 ≤ T) (hT : T + reach p + totalDelay p < 2 ^ 64)
    (hs : prepTime p ≤ s.channel.busBusyUntil) (h : s.step e = .ok s') : prepTime p ≤ s'.channel.busBusyUntil := by
  obtain ⟨-, hh⟩ := step_eq_ok.mp h
  exact handle_prep (s := { s with curTick := e.1 }) hras hw he (by omega) hs hh

end Controller

/-- The controller as `processNextReqEvent` at `tick` comes to the queues, and whether the bus has turned. -/
def atRequest (s : DRAMCtrl p) (tick : Nat) : DRAMCtrl p × Bool :=
  { s with curTick := tick, nextReqEvent := none }.checkDrains.switchBus

lemma atRequest_busBusyUntil (s : DRAMCtrl p) (tick : Nat) :
    (atRequest s tick).1.channel.busBusyUntil = s.channel.busBusyUntil := by
  rw [atRequest, switchBus_busBusyUntil]
  rfl

/-- While the ticks fit in 64 bits, the bus is at least tRP + tRCD + tCL ahead of tick zero from `startup` on, and
no subtraction wraps: before every access of a sequence; and in every run of the controller, in the state in
which the scheduler looks for a packet and in the one in which a read or a write is accessed. -/
theorem bus_times_do_not_wrap (p : Params) (hras : p.tRCD ≤ p.tRAS) (start last : Nat) :
    (∀ (calls : List (Call p)) (a : Call p), CallsFit start last (calls ++ [a]) →
      ∃ s, runFrom Calls.access (Calls.startup p start) calls = .ok s ∧
        Unwrapped a.now (s.channel.advanceBus a.bubble)) ∧
    ∀ (es : List (Nat × Event p)) (tick : Nat) (s : DRAMCtrl p), RunFits start last (es ++ [(tick, .nextReq)]) →
      run p start es = .ok s →
      Unwrapped tick (atRequest s tick).1.channel ∧
        ∀ d, Unwrapped tick (addBubble (atRequest s tick).1.channel (atRequest s tick).2 d (add64 p.tWTR p.tCL)) ∧
          Unwrapped tick (addBubble (atRequest s tick).1.channel (atRequest s tick).2 d p.tRTW) := by
  have hreach : reach p = 17 * totalDelay p := rfl
  constructor
  · intro calls a hfit
    obtain ⟨s, h, -⟩ := hfit.init.total (P := False) (fun _ _ hfalse => hfalse.elim)
    obtain ⟨hnow, hT⟩ := hfit.final
    have hstart := hfit.start
    obtain ⟨hbus, hw⟩ := hfit.init.invariant (fun s => prepTime p ≤ s.channel.busBusyUntil) (access_prep hras)
      (startup_prep (by omega)) h
    refine ⟨s, h, ?_⟩
    exact unwrapped_of_bus hras (hw.advanceBus a.bubble (by omega)) (by omega) (by omega)
      (advanceBus_prep hw (by omega) hbus)
  · intro es tick s hfit h
    obtain ⟨htick, hT⟩ := hfit.final
    have hstart := hfit.start
    obtain ⟨hrun, hw⟩ := hfit.init.invariant (fun s => prepTime p ≤ s.channel.busBusyUntil) (step_prep hras)
      (startup_prep (by omega)) h
    have hset : ChannelWithin _ (atRequest s tick).1.channel := switchBus_within (checkDrains_within hw)
    have hbus : prepTime p ≤ (atRequest s tick).1.channel.busBusyUntil := by
      rw [atRequest_busBusyUntil]
      exact hrun
    have hbubbled : ∀ d bubble, bubble ≤ totalDelay p →
        Unwrapped tick (addBubble (atRequest s tick).1.channel (atRequest s tick).2 d bubble) := fun d bubble hle =>
      unwrapped_of_bus hras (addBubble_within hset _ d hle (by omega)) (by omega) (by omega)
        (addBubble_prep hset _ d (by omega) hbus)
    refine ⟨unwrapped_of_bus hras hset (by omega) (by omega) hbus, fun d => ?_⟩
    exact ⟨hbubbled d _ bubbles_le.1, hbubbled d _ bubbles_le.2⟩

theorem bus_times_do_not_wrap_rowOpThenWrite :
    RunFits 0 1 (rowOpThenWrite ++ [(1, .nextReq)]) ∧
      ∃ s, run ddr3_1600_x64 0 rowOpThenWrite = .ok s ∧ Unwrapped 1 (atRequest s 1).1.channel := by
  have hfit : RunFits 0 1 (rowOpThenWrite ++ [(1, .nextReq)]) := ⟨by decide, by simp [rowOpThenWrite], by decide⟩
  obtain ⟨s, hs, -⟩ := exists_of_okWith (x := run ddr3_1600_x64 0 rowOpThenWrite) (P := fun _ => true)
    (by decide +kernel)
  exact ⟨hfit, s, hs, ((bus_times_do_not_wrap ddr3_1600_x64 (by decide) 0 1).2 rowOpThenWrite 1 s hfit hs).1⟩

/-- After a ROWAP at tick 4096 whose precharge is at tick 2048 the bus is free too early for the next access, and
the next request is due near the largest tick. -/
theorem nextReqTime_wraps_after_rowAp :
    longRAS.tRCD ≤ longRAS.tRAS ∧ ∃ s, runFrom Calls.access (Calls.startup longRAS 0) apAtTick4096 = .ok s ∧
      s.channel.busBusyUntil = 29548 ∧ prepTime longRAS = 41250 ∧ s.channel.nextReqTime = 2 ^ 64 - 11702 ∧
      ∀ now, ¬Unwrapped now s.channel := by
  obtain ⟨s, hs, hP⟩ := exists_of_okWith (x := runFrom Calls.access (Calls.startup longRAS 0) apAtTick4096)
    (P := fun s => decide (s.channel.busBusyUntil = 29548 ∧ s.channel.nextReqTime = 2 ^ 64 - 11702)) (by decide +kernel)
  obtain ⟨hbus, hnext⟩ := of_decide_eq_true hP
  refine ⟨by decide, s, hs, hbus, rfl, hnext, fun now h => ?_⟩
  have hahead := h.bus
  rw [hbus] at hahead
  exact absurd hahead (by decide)

end MimdramLean.Proofs

import MimdramLean.Proofs.RankEvents

/-!
# The times of a channel in runs of the controller

An event of the controller moves the latest time of the channel by at most `reach`. In a run whose ticks leave
room for that in 64 bits, every state is reached without an addition that wraps.
-/

namespace MimdramLean.Proofs
open Library Rank DRAMCtrl

variable {p : Params} {T : Nat}

/-! ### Events of a rank -/

section Events

variable {rk rk' : Rank p} {off now : Nat}

lemma prechargeOrHold_within {preAt : Nat} {b : Fin p.banksPerRank} (h : RankWithin T rk)
    (hpre : preAt + p.tRP ≤ T) (hok : prechargeOrHold off preAt rk b = .ok rk') : RankWithin T rk' := by
  unfold prechargeOrHold at hok
  split at hok
  · exact prechargeBank_within h hpre hok
  · cases hok
    exact h.setBank (h.col b) (max_le (h.pre b) (by omega)) (max_le (h.act b) ((add64_le _ _).trans hpre))

lemma preAllAt_le (h : RankWithin T rk) (hnow : now ≤ T) : rk.preAllAt now ≤ T :=
  foldl_max_le (fun b => (rk.banks b).preAllowedAt) hnow fun b _ => h.pre b

lemma prechargeAll_within (h : RankWithin T rk) (hnow : now ≤ T) (hok : rk.prechargeAll off now = .ok rk') :
    RankWithin (T + totalDelay p) rk' := by
  have hlater := h.mono (Nat.le_add_right T (totalDelay p))
  unfold prechargeAll at hok
  split at hok
  · obtain ⟨mid, hfold, hok⟩ := bind_eq_ok.mp hok
    cases hok
    rw [foldlM_eq_runFrom] at hfold
    have hpre := Nat.add_le_add (preAllAt_le h hnow) (tRP_le (p := p))
    have hmid := invariant_of_run _ (RankWithin (T + totalDelay p))
      (fun _ _ _ ht hstep => prechargeOrHold_within ht hpre hstep) hlater hfold
    exact hmid.congr rfl rfl rfl
  · obtain ⟨-, rfl⟩ := schedulePowerEvent_eq_ok.mp hok
    exact hlater.congr rfl rfl rfl

lemma refreshed_within (h : RankWithin T rk) (hnow : now ≤ T) :
    RankWithin (T + totalDelay p) (refreshed rk off now) := by
  have hlater := h.mono (Nat.le_add_right T (totalDelay p))
  refine ⟨hlater.col, hlater.pre, fun _ => (add64_le now p.tRFC).trans ?_, hlater.ticks, hlater.history⟩
  unfold totalDelay
  omega

lemma processRefreshEvent_within {awaiting : Bool} (h : RankWithin T rk) (hnow : now ≤ T)
    (hok : rk.processRefreshEvent off now awaiting = .ok rk') : RankWithin (T + totalDelay p) rk' := by
  have hlater := h.mono (Nat.le_add_right T (totalDelay p))
  rcases processRefreshEvent_cases hok with ⟨-, hrun⟩ | ⟨due, -, -, ⟨rfl, -⟩ | hpre⟩
  · obtain ⟨-, -, -, -, rfl⟩ := refreshRun_cases hrun
    exact refreshed_within h hnow
  · exact hlater.congr rfl rfl rfl
  · cases hpre with
    | idle => exact hlater.congr rfl rfl rfl
    | active _ hall =>
      have hsame : RankWithin T { rk with refreshState := .refPre, refreshDueAt := due } :=
        h.congr rfl rfl rfl
      have hmid := prechargeAll_within hsame hnow hall
      exact hmid.congr rfl rfl rfl

lemma processPowerEvent_within {kick : Bool} (h : RankWithin T rk) (hnow : now ≤ T)
    (hok : rk.processPowerEvent off now = .ok (rk', kick)) : RankWithin (T + totalDelay p) rk' := by
  have hlater := h.mono (Nat.le_add_right T (totalDelay p))
  cases processPowerEvent_cases hok with
  | refreshDone => exact hlater.congr rfl rfl rfl
  | active => exact hlater.congr rfl rfl rfl
  | idle => exact hlater.congr rfl rfl rfl
  | refresh =>
    have hsame : RankWithin T { rk with pwrState := .pwrRef } := h.congr rfl rfl rfl
    exact refreshed_within hsame hnow

lemma processActivateEvent_within (h : RankWithin T rk) (hok : rk.processActivateEvent now = .ok rk') :
    RankWithin T rk' := by
  rcases processActivateEvent_cases hok with ⟨-, rfl⟩ | ⟨-, -, rfl⟩
  · exact h
  · exact h.congr rfl rfl rfl

lemma processPrechargeEvent_within (h : RankWithin T rk) (hok : rk.processPrechargeEvent now = .ok rk') :
    RankWithin T rk' := by
  rcases processPrechargeEvent_cases hok with ⟨-, rfl⟩ | ⟨-, -, rfl⟩
  · exact h
  · exact h.congr rfl rfl rfl

end Events

/-! ### The request loop -/

section Requests

variable {s s' : DRAMCtrl p}

lemma addBubble_within {c : Channel p} (h : ChannelWithin T c) (switched : Bool) (d : DRAMPacket p) {bubble : Nat}
    (hbubble : bubble ≤ totalDelay p) (hT : T + totalDelay p < 2 ^ 64) :
    ChannelWithin (T + totalDelay p) (addBubble c switched d bubble) := by
  unfold addBubble
  split
  · exact (h.advanceBus bubble (by omega)).mono (by omega)
  · exact h.mono (Nat.le_add_right _ _)

lemma bubbledAccess_within {c : Channel p} {switched : Bool} {now bubble : Nat} {d : DRAMPacket p}
    {rest : List (DRAMPacket p)} {r : DRAMPacket p × Channel p} (h : ChannelWithin T c)
    (hbubble : bubble ≤ totalDelay p) (hnow : now ≤ T) (hT : T + reach p < 2 ^ 64)
    (hok : (addBubble c switched d bubble).doDRAMAccess now d rest = .ok r) : ChannelWithin (T + reach p) r.2 := by
  unfold reach at hT ⊢
  have hwithin := addBubble_within h switched d hbubble (by omega)
  exact (doDRAMAccess_within hwithin (by omega) (by omega) hok).mono (by omega)

/-- The bubble before a read, and the one before a write. -/
lemma bubbles_le : add64 p.tWTR p.tCL ≤ totalDelay p ∧ p.tRTW ≤ totalDelay p := by
  have hsum := add64_le p.tWTR p.tCL
  unfold totalDelay
  omega

lemma serveRequest_within {switched : Bool} {r : DRAMCtrl p × Bool} (h : ChannelWithin T s.channel)
    (hnow : s.curTick ≤ T) (hT : T + reach p < 2 ^ 64) (hok : s.serveRequest switched = .ok r) :
    ChannelWithin (T + reach p) r.1.channel := by
  have hlater := h.mono (Nat.le_add_right T (reach p))
  unfold serveRequest at hok
  split at hok
  · rcases readBranch_cases hok with ⟨-, -, rfl⟩ | ⟨-, -, ds, rfl⟩ | ⟨-, rfl, -⟩ | ⟨pre, d, post, t, -, ht, rfl⟩
    · exact hlater
    · exact hlater
    · exact hlater
    · obtain ⟨served, channel, ev, bus, hacc, -, rfl⟩ := serveRead_cases ht
      exact bubbledAccess_within h bubbles_le.1 hnow hT hacc
  · rcases writeBranch_cases hok with ⟨-, rfl, -⟩ | ⟨pre, d, post, t, -, -, ht, rfl⟩
    · exact hlater
    · obtain ⟨served, channel, bus, hacc, -, rfl⟩ := serveWrite_cases ht
      exact bubbledAccess_within h bubbles_le.2 hnow hT hacc

lemma checkDrains_within (h : ChannelWithin T s.channel) : ChannelWithin T s.checkDrains.channel := by
  refine ⟨fun r => ?_, h.bus, h.data⟩
  have hr := h.ranks r
  simp only [checkDrains, checkDrainDone]
  split
  · exact hr
  · split
    · exact hr.congr rfl rfl rfl
    · exact hr

lemma switchBus_within (h : ChannelWithin T s.channel) : ChannelWithin T s.switchBus.1.channel := by
  unfold switchBus
  split
  · exact ⟨h.ranks, h.bus, h.data⟩
  · exact ⟨h.ranks, h.bus, h.data⟩
  · exact h
  · exact h

/-- The state in which `processNextReqEvent` serves a request. -/
lemma settled_within (h : ChannelWithin T s.channel) (hnow : s.curTick ≤ T) :
    ChannelWithin T s.checkDrains.switchBus.1.channel ∧ s.checkDrains.switchBus.1.curTick ≤ T := by
  obtain ⟨-, -, htick, -⟩ := switchBus_fst s.checkDrains
  exact ⟨switchBus_within (checkDrains_within h), htick.trans_le hnow⟩

lemma processNextReqEvent_within (h : ChannelWithin T s.channel) (hnow : s.curTick ≤ T)
    (hT : T + reach p < 2 ^ 64) (hok : s.processNextReqEvent = .ok s') :
    ChannelWithin (T + reach p) s'.channel := by
  obtain ⟨hset, hsetnow⟩ := settled_within h hnow
  simp only [processNextReqEvent] at hok
  split at hok
  · cases hok
    exact (checkDrains_within h).mono (Nat.le_add_right _ _)
  · obtain ⟨⟨u, goesOn⟩, hserve, hok⟩ := bind_eq_ok.mp hok
    have hu := serveRequest_within hset hsetnow hT hserve
    cases hok
    split
    · rw [(finishNextReq_spec u).2.1]
      exact hu
    · exact hu

/-! ### Runs -/

lemma handle_within {e : Event p} (h : ChannelWithin T s.channel) (hnow : s.curTick ≤ T)
    (hT : T + reach p < 2 ^ 64) (hok : s.handle e = .ok s') : ChannelWithin (T + reach p) s'.channel := by
  have hlater := h.mono (Nat.le_add_right T (reach p))
  -- a rank whose own event has moved its times
  have hset : ∀ {r : Fin p.ranksPerChannel} {rk : Rank p}, RankWithin (T + totalDelay p) rk →
      ChannelWithin (T + reach p) (s.setRank r rk).channel := by
    intro r rk hrk
    exact hlater.setRank (hrk.mono (by unfold reach; omega))
  cases handle_cases hok with
  | recvTimingReq hr =>
    obtain ⟨⟨n, hn⟩, -⟩ := recvTimingReq_frame hr
    rw [hn]
    exact ⟨hlater.ranks, hlater.bus, hlater.data⟩
  | nextReq hloop =>
    have hfired : ChannelWithin T { s with nextReqEvent := none }.channel := h
    exact processNextReqEvent_within hfired hnow hT hloop
  | respond hresp =>
    obtain ⟨-, hc, -, -⟩ := processRespondEvent_frame hresp
    rw [hc]
    exact hlater
  | @activate r _ hrk =>
    have hr : RankWithin T { s.channel.ranks r with activateEvent := none } := (h.ranks r).congr rfl rfl rfl
    exact hset ((processActivateEvent_within hr hrk).mono (Nat.le_add_right _ _))
  | @precharge r _ hrk =>
    have hr : RankWithin T { s.channel.ranks r with prechargeEvent := none } := (h.ranks r).congr rfl rfl rfl
    exact hset ((processPrechargeEvent_within hr hrk).mono (Nat.le_add_right _ _))
  | @refresh r _ hrk =>
    have hr : RankWithin T { s.channel.ranks r with refreshEvent := none } := (h.ranks r).congr rfl rfl rfl
    exact hset (processRefreshEvent_within hr hnow hrk)
  | @power r _ kick hrk =>
    have hr : RankWithin T { s.channel.ranks r with powerEvent := none } := (h.ranks r).congr rfl rfl rfl
    have hrk' := processPowerEvent_within hr hnow hrk
    split
    · rw [scheduleNextReq_channel]
      exact hset hrk'
    · exact hset hrk'
  | drain =>
    rw [(drain_channel s).1]
    exact hlater
  | drainResume => exact hlater

lemma step_within {e : Nat × Event p} (h : ChannelWithin T s.channel) (he : e.1 ≤ T) (hT : T + reach p < 2 ^ 64)
    (hok : s.step e = .ok s') : ChannelWithin (T + reach p) s'.channel := by
  obtain ⟨-, hhandle⟩ := step_eq_ok.mp hok
  have htick : ChannelWithin T { s with curTick := e.1 }.channel := h
  exact handle_within htick he hT hhandle

/-- What every event keeps while the times leave room for it holds after a run. -/
theorem runFrom_invariant (I : DRAMCtrl p → Prop)
    (hstep : ∀ T s e s', ChannelWithin T s.channel → e.1 ≤ T → T + reach p + totalDelay p < 2 ^ 64 → I s →
      s.step e = .ok s' → I s') {es : List (Nat × Event p)} (h : ChannelWithin T s.channel) (hticks : ∀ e ∈ es, e.1 ≤ T)
    (hT : T + es.length * reach p + totalDelay p < 2 ^ 64) (hs : I s) (hrun : runFrom DRAMCtrl.step s es = .ok s') :
    I s' ∧ ChannelWithin (T + es.length * reach p) s'.channel := by
  induction es generalizing s T with
  | nil =>
    cases hrun
    rw [List.length_nil, Nat.zero_mul, Nat.add_zero]
    exact ⟨hs, h⟩
  | cons e es ih =>
    obtain ⟨t, ht, hrest⟩ := bind_eq_ok.mp hrun
    rw [List.length_cons, Nat.succ_mul, Nat.add_comm (es.length * _), ← Nat.add_assoc] at hT ⊢
    have he := hticks e List.mem_cons_self
    have htw := step_within h he (by omega) ht
    refine ih htw (fun e' he' => ?_) hT (hstep _ s e t h he (by omega) hs ht) hrest
    exact (hticks e' (List.mem_cons_of_mem e he')).trans (Nat.le_add_right _ _)

end Requests

/-- No event of a run is later than `last`, and from there is room for all that the run adds to a tick. -/
structure RunFits (start last : Nat) (es : List (Nat × Event p)) : Prop where
  start : start ≤ last
  ticks : ∀ e ∈ es, e.1 ≤ last
  room : last + (es.length + 1) * reach p < 2 ^ 64

section Runs

variable {start last : Nat} {es : List (Nat × Event p)} {s : DRAMCtrl p}

/-- The run before its last event. -/
lemma RunFits.init {e : Nat × Event p} (hfit : RunFits start last (es ++ [e])) : RunFits start last es := by
  refine ⟨hfit.start, fun e' he' => hfit.ticks e' (List.mem_append_left _ he'), lt_of_le_of_lt ?_ hfit.room⟩
  exact Nat.add_le_add_left (Nat.mul_le_mul_right _ (by simp)) last

/-- The room left for the last event. -/
lemma RunFits.final {e : Nat × Event p} (hfit : RunFits start last (es ++ [e])) :
    e.1 ≤ last ∧ last + totalDelay p + es.length * reach p + reach p + totalDelay p < 2 ^ 64 := by
  have hroom := hfit.room
  have hreach : reach p = 17 * totalDelay p := rfl
  rw [List.length_append, List.length_singleton, Nat.succ_mul, Nat.succ_mul] at hroom
  exact ⟨hfit.ticks e (by simp), by omega⟩

/-- The rule for runs from start-up. -/
theorem RunFits.invariant (hfit : RunFits start last es) (I : DRAMCtrl p → Prop)
    (hstep : ∀ T s e s', ChannelWithin T s.channel → e.1 ≤ T → T + reach p + totalDelay p < 2 ^ 64 → I s →
      s.step e = .ok s' → I s')
    (hinit : I (startup p start)) (hrun : run p start es = .ok s) :
    I s ∧ ChannelWithin (last + totalDelay p + es.length * reach p) s.channel := by
  have hstart := hfit.start
  have hroom := hfit.room
  have hreach : reach p = 17 * totalDelay p := rfl
  rw [Nat.succ_mul] at hroom
  have hwithin : ChannelWithin (last + totalDelay p) (startup p start).channel :=
    (channelWithin_startup (by omega)).mono (by omega)
  refine runFrom_invariant I hstep hwithin (fun e he => ?_) (by omega) hinit hrun
  exact (hfit.ticks e he).trans (Nat.le_add_right _ _)

end Runs

end MimdramLean.Proofs

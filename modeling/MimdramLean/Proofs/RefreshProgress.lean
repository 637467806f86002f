import MimdramLean.Proofs.RefreshCycle
import MimdramLean.Proofs.BankState

/-!
# Refreshes go on

An event that carries the refresh of a rank on is always pending. While a rank is refreshed its banks are closed,
and it is not activated until the refresh is over.
-/

namespace MimdramLean.Proofs
open Library Rank DRAMCtrl

variable {p : Params}

/-! ### Drains -/

/-- A rank that waits for requests to drain is woken by the request loop. -/
def DrainsWake (s : DRAMCtrl p) : Prop :=
  ∀ r, (s.channel.ranks r).refreshState = .refDrain → s.nextReqEvent ≠ none

lemma checkDrains_refreshState (s : DRAMCtrl p) (r : Fin p.ranksPerChannel) :
    (s.checkDrains.channel.ranks r).refreshState =
      if (s.channel.ranks r).refreshState = .refDrain then .refPre else (s.channel.ranks r).refreshState := by
  simp only [checkDrains, checkDrainDone]
  split
  · rename_i hav
    rw [if_neg]
    intro hdrain
    simp [isAvailable, hdrain] at hav
  · split <;> rfl

lemma bubbledAccess_refreshState {c : Channel p} {switched : Bool} {now bubble : Nat} {d : DRAMPacket p}
    {rest : List (DRAMPacket p)} {x : DRAMPacket p × Channel p}
    (h : (addBubble c switched d bubble).doDRAMAccess now d rest = .ok x) (r : Fin p.ranksPerChannel) :
    (x.2.ranks r).refreshState = (c.ranks r).refreshState := by
  obtain ⟨t, ht⟩ := addBubble_eq c switched d bubble
  rw [ht] at h
  exact (doDRAMAccess_frame h).1 r

lemma serveRequest_refreshState {s : DRAMCtrl p} {switched : Bool} {x : DRAMCtrl p × Bool}
    (h : s.serveRequest switched = .ok x) (r : Fin p.ranksPerChannel) :
    (x.1.channel.ranks r).refreshState = (s.channel.ranks r).refreshState := by
  unfold serveRequest at h
  split at h
  · rcases readBranch_cases h with ⟨-, -, rfl⟩ | ⟨-, -, ds, rfl⟩ | ⟨-, rfl, -⟩ | ⟨pre, d, post, t, -, ht, rfl⟩
    · rfl
    · rfl
    · rfl
    · obtain ⟨served, channel, ev, bus, hacc, -, rfl⟩ := serveRead_cases ht
      exact bubbledAccess_refreshState hacc r
  · rcases writeBranch_cases h with ⟨-, rfl, -⟩ | ⟨pre, d, post, t, -, -, ht, rfl⟩
    · rfl
    · obtain ⟨served, channel, bus, hacc, -, rfl⟩ := serveWrite_cases ht
      exact bubbledAccess_refreshState hacc r

/-- The request loop ends all drains. -/
lemma processNextReqEvent_refreshState {s s' : DRAMCtrl p} (h : s.processNextReqEvent = .ok s')
    (r : Fin p.ranksPerChannel) : (s'.channel.ranks r).refreshState =
      if (s.channel.ranks r).refreshState = .refDrain then .refPre else (s.channel.ranks r).refreshState := by
  rw [← checkDrains_refreshState]
  simp only [processNextReqEvent] at h
  split at h
  · cases h
    rfl
  · obtain ⟨⟨u, goesOn⟩, hserve, h⟩ := bind_eq_ok.mp h
    have hserved := serveRequest_refreshState hserve r
    rw [(switchBus_channel s.checkDrains).1] at hserved
    cases h
    split
    · rw [(finishNextReq_spec u).2.1]
      exact hserved
    · exact hserved

lemma handle_nextReqEvent {s s' : DRAMCtrl p} {e : Event p} (he : e ≠ .nextReq) (h : s.handle e = .ok s')
    (hev : s.nextReqEvent ≠ none) : s'.nextReqEvent ≠ none := by
  cases handle_cases h with
  | recvTimingReq hr => exact (recvTimingReq_frame hr).2.2 hev
  | nextReq => exact absurd rfl he
  | respond h =>
    obtain ⟨-, -, hsame, -⟩ := processRespondEvent_frame h
    rw [hsame]
    exact hev
  | activate => exact hev
  | precharge => exact hev
  | refresh => exact hev
  | power =>
    split
    · exact scheduleNextReq_ne_none _ _
    · exact hev
  | drain => exact (drain_frame s).2.2 hev
  | drainResume => exact hev

lemma processRefreshEvent_drain {rk rk' : Rank p} {off now : Nat} {awaiting : Bool}
    (h : rk.processRefreshEvent off now awaiting = .ok rk') (hdrain : rk'.refreshState = .refDrain) :
    awaiting = true := by
  rcases processRefreshEvent_cases h with ⟨hstate, hrun⟩ | ⟨due, -, -, ⟨-, hawait, -⟩ | hpre⟩
  · obtain ⟨-, -, -, -, rfl⟩ := refreshRun_cases hrun
    simp [refreshed, hstate] at hdrain
  · exact hawait
  · cases hpre with
    | idle => simp at hdrain
    | active => simp at hdrain

lemma processPowerEvent_drain {rk rk' : Rank p} {off now : Nat} {kick : Bool}
    (h : rk.processPowerEvent off now = .ok (rk', kick)) (hdrain : rk'.refreshState = .refDrain) :
    rk.refreshState = .refDrain := by
  cases processPowerEvent_cases h with
  | refreshDone => simp at hdrain
  | active => exact hdrain
  | idle => exact hdrain
  | refresh => exact hdrain

lemma DrainsWake.handle {s s' : DRAMCtrl p} {e : Event p} (hw : DrainsWake s) (h : s.handle e = .ok s') :
    DrainsWake s' := by
  intro r hdrain
  by_cases he : e = .nextReq
  · -- no drain outlives the request loop
    subst he
    obtain ⟨_, -, h⟩ := bind_eq_ok.mp h
    rw [processNextReqEvent_refreshState h r] at hdrain
    split at hdrain
    · cases hdrain
    · rename_i hne
      exact absurd hdrain hne
  have hkeep := handle_nextReqEvent he h
  -- the other ranks are as before, and so is the request loop
  have hset : ∀ (i : Fin p.ranksPerChannel) (rk : Rank p), (rk.refreshState = .refDrain →
      s.nextReqEvent ≠ none) → ((s.setRank i rk).channel.ranks r).refreshState = .refDrain → s.nextReqEvent ≠ none := by
    intro i rk hrk hdrain
    by_cases hi : r = i
    · subst hi
      simp only [DRAMCtrl.setRank, Channel.setRank, Function.update_self] at hdrain
      exact hrk hdrain
    · simp only [DRAMCtrl.setRank, Channel.setRank, Function.update_of_ne hi] at hdrain
      exact hw r hdrain
  apply hkeep
  cases handle_cases h with
  | recvTimingReq hr =>
    obtain ⟨⟨n, hn⟩, -⟩ := recvTimingReq_frame hr
    rw [hn] at hdrain
    exact hw r hdrain
  | nextReq => exact absurd rfl he
  | respond h =>
    obtain ⟨-, hc, -⟩ := processRespondEvent_frame h
    rw [hc] at hdrain
    exact hw r hdrain
  | activate hrk =>
    exact hset _ _ (fun hd => hw _ ((processActivateEvent_refreshState hrk).symm.trans hd)) hdrain
  | precharge hrk =>
    exact hset _ _ (fun hd => hw _ ((processPrechargeEvent_refreshState hrk).symm.trans hd)) hdrain
  | @refresh i rk hrk =>
    refine hset i rk (fun hd => ?_) hdrain
    exact (of_decide_eq_true (processRefreshEvent_drain hrk hd)).2
  | @power i rk kick hrk =>
    refine hset i rk (fun hd => ?_) ?_
    · have hbefore := processPowerEvent_drain hrk hd
      exact hw i hbefore
    split at hdrain
    · rwa [scheduleNextReq_channel] at hdrain
    · exact hdrain
  | drain =>
    rw [(drain_channel s).1] at hdrain
    exact hw r hdrain
  | drainResume => exact hw r hdrain

lemma run_drainsWake {start : Nat} {es : List (Nat × Event p)} {s : DRAMCtrl p} (h : run p start es = .ok s) :
    DrainsWake s := by
  refine invariant_of_run DRAMCtrl.step DrainsWake (fun s e s' hs hstep => ?_) ?_ h
  · obtain ⟨-, hhandle⟩ := step_eq_ok.mp hstep
    exact DrainsWake.handle (s := { s with curTick := e.1 }) hs hhandle
  · intro r hr
    simp [startup, Channel.startup, Rank.init] at hr

/-! ### Progress -/

/-- How far a refresh has come. -/
def progress (rk : Rank p) : Nat :=
  match rk.refreshState with
  | .refIdle => 0
  | .refDrain => 1
  | .refPre => 2
  | .refRun => if rk.pwrState = .pwrRef then 5 else if rk.powerEvent = none then 3 else 4

/-- The refresh has come further, or is over. -/
def MovesOn (rk rk' : Rank p) : Prop := progress rk < progress rk' ∨ progress rk = 5 ∧ progress rk' = 0

/-- The event that the refresh of a rank waits for. -/
def awaited (rk : Rank p) (r : Fin p.ranksPerChannel) : Event p :=
  match rk.refreshState with
  | .refIdle => .refresh r
  | .refDrain => .nextReq
  | .refPre => .refresh r
  | .refRun => if rk.pwrState ≠ .pwrRef ∧ rk.powerEvent = none then .precharge r else .power r

/-- The tick for which an event is scheduled. -/
def scheduledAt (s : DRAMCtrl p) : Event p → Option Nat
  | .nextReq => s.nextReqEvent
  | .respond => s.respondEvent
  | .activate r => (s.channel.ranks r).activateEvent
  | .precharge r => (s.channel.ranks r).prechargeEvent
  | .refresh r => (s.channel.ranks r).refreshEvent
  | .power r => (s.channel.ranks r).powerEvent
  | .recvTimingReq _ | .drain | .drainResume => none

section Progress

variable {rk rk' : Rank p} {off now : Nat}

lemma progress_precharging (h : Precharging off now rk rk') : 3 ≤ progress rk' := by
  cases h with
  | idle hidle => simp [progress, hidle]
  | active =>
    simp only [progress]
    split
    · omega
    · split <;> omega

lemma movesOn_refresh {awaiting : Bool} (hstate : rk.refreshState = .refIdle ∨ rk.refreshState = .refPre)
    (h : { rk with refreshEvent := none }.processRefreshEvent off now awaiting = .ok rk') : MovesOn rk rk' := by
  have hearly : progress rk ≤ 2 := by
    rcases hstate with hstate | hstate <;> simp [progress, hstate]
  refine .inl ?_
  rcases processRefreshEvent_cases h with ⟨hrun, -⟩ | ⟨due, -, -, ⟨rfl, -, hne⟩ | hpre⟩
  · rcases hstate with hstate | hstate <;> simp [hstate] at hrun
  · have hidle : rk.refreshState = .refIdle := hstate.resolve_right hne
    simp [progress, hidle]
  · exact hearly.trans_lt (progress_precharging hpre)

lemma movesOn_precharge (hstate : rk.refreshState = .refRun) (hpwr : rk.pwrState ≠ .pwrRef)
    (hpower : rk.powerEvent = none) (hbanks : rk.numBanksActive = 0)
    (h : { rk with prechargeEvent := none }.processPrechargeEvent now = .ok rk') : MovesOn rk rk' := by
  rcases processPrechargeEvent_cases h with ⟨hne, -⟩ | ⟨-, -, rfl⟩
  · exact absurd hbanks hne
  · refine .inl ?_
    simp [progress, hstate, hpwr, hpower]

/-- The power event ends the refresh, or starts it when it was waited for. -/
lemma movesOn_power {kick : Bool} (hstate : rk.refreshState = .refRun) (hpower : rk.powerEvent ≠ none)
    (hact : rk.pwrStateTrans ≠ .pwrAct) (h : { rk with powerEvent := none }.processPowerEvent off now = .ok (rk', kick))
    (hwait : rk.pwrState = .pwrRef → rk.pwrStateTrans = .pwrIdle) : MovesOn rk rk' := by
  cases processPowerEvent_cases h with
  | refreshDone _ hpwr =>
    have hpwr : rk.pwrState = .pwrRef := hpwr
    exact .inr ⟨by simp [progress, hstate, hpwr], rfl⟩
  | active htrans => exact absurd htrans hact
  | idle _ _ hne => exact absurd hstate hne
  | refresh htrans =>
    have hpwr : rk.pwrState ≠ .pwrRef := by
      intro hpwr
      rcases htrans with href | ⟨-, hact'⟩
      · have href : rk.pwrStateTrans = .pwrRef := href
        simp [hwait hpwr] at href
      · have hact' : rk.pwrState = .pwrAct := hact'
        simp [hpwr] at hact'
    refine .inl ?_
    simp [progress, refreshed, hstate, hpwr, hpower]

end Progress

lemma setRank_ranks_self (s : DRAMCtrl p) (r : Fin p.ranksPerChannel) (rk : Rank p) :
    (s.setRank r rk).channel.ranks r = rk := Function.update_self ..

/-- In every state that the controller reaches, the event that each rank waits for is scheduled, and when it happens
the refresh moves on. -/
theorem refresh_never_forgotten (hpos : 0 < p.tRAS + p.tRP) {start last : Nat} {es : List (Nat × Event p)}
    {s : DRAMCtrl p} (hfit : RunFits start last es) (h : run p start es = .ok s) (r : Fin p.ranksPerChannel) :
    ∃ t, scheduledAt s (awaited (s.channel.ranks r) r) = some t ∧
      ∀ s', s.step (t, awaited (s.channel.ranks r) r) = .ok s' →
        MovesOn (s.channel.ranks r) (s'.channel.ranks r) := by
  obtain ⟨ts, hinv⟩ := (run_cyclesInv hpos hfit h).ranks r
  have hrefresh : (s.channel.ranks r).refreshState = .refIdle ∨ (s.channel.ranks r).refreshState = .refPre → ∀ t s',
      s.step (t, .refresh r) = .ok s' → MovesOn (s.channel.ranks r) (s'.channel.ranks r) := by
    intro hstate t s' hstep
    obtain ⟨-, hhandle⟩ := step_eq_ok.mp hstep
    cases handle_cases hhandle with
    | refresh hrk =>
      rw [setRank_ranks_self]
      exact movesOn_refresh hstate hrk
  have hpower : (s.channel.ranks r).refreshState = .refRun → (s.channel.ranks r).powerEvent ≠ none →
      (s.channel.ranks r).pwrStateTrans ≠ .pwrAct →
      ((s.channel.ranks r).pwrState = .pwrRef → (s.channel.ranks r).pwrStateTrans = .pwrIdle) → ∀ t s',
      s.step (t, .power r) = .ok s' → MovesOn (s.channel.ranks r) (s'.channel.ranks r) := by
    intro hstate hev hact hwait t s' hstep
    obtain ⟨-, hhandle⟩ := step_eq_ok.mp hstep
    cases handle_cases hhandle with
    | power hrk =>
      have hmove := movesOn_power hstate hev hact hrk hwait
      split
      · rw [scheduleNextReq_channel, setRank_ranks_self]
        exact hmove
      · rw [setRank_ranks_self]
        exact hmove
  cases hinv.phase with
  | idle hstate _ _ hev =>
    simp only [awaited, hstate]
    exact ⟨_, hev, hrefresh (.inl hstate) _⟩
  | drain hstate =>
    obtain ⟨t, ht⟩ := Option.ne_none_iff_exists'.mp (run_drainsWake h r hstate)
    simp only [awaited, hstate]
    refine ⟨t, ht, fun s' hstep => .inl ?_⟩
    obtain ⟨-, hhandle⟩ := step_eq_ok.mp hstep
    obtain ⟨_, -, hloop⟩ := bind_eq_ok.mp hhandle
    have hstate' := processNextReqEvent_refreshState hloop r
    simp only [hstate, if_true] at hstate'
    simp [progress, hstate, hstate']
  | pre hstate _ hev =>
    obtain ⟨t, ht⟩ := Option.ne_none_iff_exists'.mp hev
    simp only [awaited, hstate]
    exact ⟨t, ht, hrefresh (.inr hstate) t⟩
  | closing hstate hdue _ hbanks hidle =>
    by_cases hev : (s.channel.ranks r).powerEvent = none
    · -- the banks are being precharged
      have hact : (s.channel.ranks r).pwrState = .pwrAct := by
        have hne := hdue.pwrState
        cases hpwr : (s.channel.ranks r).pwrState with
        | pwrIdle => exact absurd hev (hidle hpwr).1
        | pwrAct => rfl
        | pwrRef => exact absurd hpwr hne
      have hpre : (s.channel.ranks r).prechargeEvent ≠ none := by
        rcases hinv.power.active hact with hne | hpre | hne
        · exact absurd hbanks hne
        · exact hpre
        · exact absurd hev hne
      obtain ⟨t, ht⟩ := Option.ne_none_iff_exists'.mp hpre
      simp only [awaited, hstate, hdue.pwrState, hev, ne_eq, not_false_eq_true, and_self, if_true]
      refine ⟨t, ht, fun s' hstep => ?_⟩
      obtain ⟨-, hhandle⟩ := step_eq_ok.mp hstep
      cases handle_cases hhandle with
      | precharge hrk =>
        rw [setRank_ranks_self]
        exact movesOn_precharge hstate hdue.pwrState hev hbanks hrk
    · obtain ⟨t, ht⟩ := Option.ne_none_iff_exists'.mp hev
      have hact : (s.channel.ranks r).pwrStateTrans ≠ .pwrAct := by
        intro hto
        have hne := hinv.power.toAct hev hto
        cases hpwr : (s.channel.ranks r).pwrState with
        | pwrIdle => simp [(hidle hpwr).2] at hto
        | pwrAct => exact absurd hpwr hne
        | pwrRef => exact absurd hpwr hdue.pwrState
      simp only [awaited, hstate, hev, and_false, if_false]
      exact ⟨t, ht, hpower hstate hev hact (fun hpwr => absurd hpwr hdue.pwrState) t⟩
  | refreshing hstate hpwr _ _ _ hev htrans =>
    simp only [awaited, hstate, hpwr, ne_eq, not_true_eq_false, false_and, if_false]
    exact ⟨_, hev, hpower hstate (by simp [hev]) (by simp [htrans]) (fun _ => htrans) _⟩

/-- Rank 0 waits for its power state to change. -/
def refreshBegun : List (Nat × Event ddr3_1600_x64) := [(7786250, .refresh ⟨0, ddr3_1600_x64.ranks_pos⟩)]

lemma refreshBegun_fits : RunFits 0 7786250 refreshBegun := ⟨by decide, by simp [refreshBegun], by decide⟩

theorem refresh_never_forgotten_begun : ∃ s, run ddr3_1600_x64 0 refreshBegun = .ok s ∧
    progress (s.channel.ranks ⟨0, ddr3_1600_x64.ranks_pos⟩) = 4 ∧
    ∃ t, scheduledAt s (awaited (s.channel.ranks ⟨0, ddr3_1600_x64.ranks_pos⟩) ⟨0, ddr3_1600_x64.ranks_pos⟩) = some t ∧
      ∀ s', s.step (t, awaited (s.channel.ranks ⟨0, ddr3_1600_x64.ranks_pos⟩) ⟨0, ddr3_1600_x64.ranks_pos⟩) = .ok s' →
        MovesOn (s.channel.ranks ⟨0, ddr3_1600_x64.ranks_pos⟩) (s'.channel.ranks ⟨0, ddr3_1600_x64.ranks_pos⟩) := by
  obtain ⟨s, hrun, hs⟩ := exists_of_okWith (x := run ddr3_1600_x64 0 refreshBegun)
    (P := fun s => decide (progress (s.channel.ranks ⟨0, ddr3_1600_x64.ranks_pos⟩) = 4)) (by decide +kernel)
  refine ⟨s, hrun, of_decide_eq_true hs, ?_⟩
  exact refresh_never_forgotten (by decide) refreshBegun_fits hrun ⟨0, ddr3_1600_x64.ranks_pos⟩

/-! ### No activates during a refresh -/

/-- No bank may be activated before tick `limit`. -/
def ActsFrom (limit : Nat) (rk : Rank p) : Prop := ∀ b, limit ≤ (rk.banks b).actAllowedAt

/-- The activates of `rk'` that `rk` does not have come at tick `limit` or later. -/
def NewActsFrom (limit : Nat) (rk rk' : Rank p) : Prop :=
  ∃ new, activates rk'.history = activates rk.history ++ new ∧ ∀ x ∈ new, limit ≤ x.2

lemma NewActsFrom.of_eq {limit : Nat} {rk rk' : Rank p} (h : activates rk'.history = activates rk.history) :
    NewActsFrom limit rk rk' := ⟨[], by rw [h, List.append_nil], by simp⟩

lemma NewActsFrom.trans {limit : Nat} {rk₁ rk₂ rk₃ : Rank p} (h : NewActsFrom limit rk₁ rk₂)
    (h' : NewActsFrom limit rk₂ rk₃) : NewActsFrom limit rk₁ rk₃ := by
  obtain ⟨new, heq, hnew⟩ := h
  obtain ⟨new', heq', hnew'⟩ := h'
  refine ⟨new ++ new', by rw [heq', heq, List.append_assoc], fun x hx => ?_⟩
  rcases List.mem_append.mp hx with hx | hx
  · exact hnew x hx
  · exact hnew' x hx

section Acts

variable {rk rk' : Rank p} {limit off now : Nat}

lemma ActsFrom.activates {b : Fin p.banksPerRank} {row t pre col : Nat} (h : ActsFrom limit rk)
    (ht : (rk.banks b).actAllowedAt ≤ t) (hact : Activates rk rk' b row t pre col) :
    ActsFrom limit rk' ∧ NewActsFrom limit rk rk' := by
  refine ⟨fun i => (h i).trans (hact.actAllowedAt i), [(b, t)], ?_, ?_⟩
  · rw [hact.history]
    simp [Proofs.activates, List.filterMap_append]
  · simpa using (h b).trans ht

lemma ActsFrom.accessChange (h : ActsFrom limit rk) (hchange : AccessChange rk rk') :
    ActsFrom limit rk' ∧ NewActsFrom limit rk rk' := by
  cases hchange with
  | activate off b t row _ _ ht => exact h.activates ht (activated_activates rk off b t row)
  | double b t ov _ ht => exact h.activates ht (doubleActivated_activates rk b t ov)
  | precharge off b t trace =>
    have hpre := precharged_precharges rk off b t trace
    refine ⟨fun i => (h i).trans (hpre.actAllowedAt i), .of_eq ?_⟩
    rw [hpre.history]
    simp [Proofs.activates, List.filterMap_append]
  | held hheld => exact ⟨fun i => (h i).trans (hheld.actAllowedAt i), .of_eq hheld.activates⟩

lemma ActsFrom.accessed (h : ActsFrom limit rk) (haccess : Accessed rk rk') :
    ActsFrom limit rk' ∧ NewActsFrom limit rk rk' := by
  induction haccess with
  | refl => exact ⟨h, .of_eq rfl⟩
  | tail _ hchange ih =>
    obtain ⟨hlimit, hnew⟩ := ih.1.accessChange hchange
    exact ⟨hlimit, ih.2.trans hnew⟩

lemma ActsFrom.served (h : ActsFrom limit rk) (hserved : Served now rk rk') :
    ActsFrom limit rk' ∧ NewActsFrom limit rk rk' := by
  induction hserved with
  | refl => exact ⟨h, .of_eq rfl⟩
  | tail _ hstep ih =>
    cases hstep with
    | access _ hchange =>
      obtain ⟨hlimit, hnew⟩ := ih.1.accessChange hchange
      exact ⟨hlimit, ih.2.trans hnew⟩
    | held hheld =>
      obtain ⟨hlimit, hnew⟩ := ih.1.accessChange (.held hheld)
      exact ⟨hlimit, ih.2.trans hnew⟩
    | drained => exact ⟨ih.1, ih.2.trans (.of_eq rfl)⟩

lemma ActsFrom.precharging (h : ActsFrom limit rk) (hpre : Precharging off now rk rk') :
    ActsFrom limit rk' ∧ NewActsFrom limit rk rk' := by
  cases hpre with
  | idle => exact ⟨h, .of_eq rfl⟩
  | active hactive hall =>
    obtain ⟨hlimit, hnew⟩ := h.accessed (prechargeAll_accessed hactive hall)
    exact ⟨hlimit, hnew.trans (.of_eq rfl)⟩

/-- A later refresh puts activates off even more. -/
lemma ActsFrom.move (h : ActsFrom limit rk) (hlimit : limit ≤ add64 now p.tRFC) (hmove : RankMove off now rk rk') :
    ActsFrom limit rk' ∧ NewActsFrom limit rk rk' := by
  cases hmove with
  | served hserved => exact h.served hserved
  | activate _ hrun =>
    rcases processActivateEvent_cases hrun with ⟨-, rfl⟩ | ⟨-, -, rfl⟩
    · exact ⟨h, .of_eq rfl⟩
    · exact ⟨h, .of_eq rfl⟩
  | precharge _ hrun =>
    rcases processPrechargeEvent_cases hrun with ⟨-, rfl⟩ | ⟨-, -, rfl⟩
    · exact ⟨h, .of_eq rfl⟩
    · exact ⟨h, .of_eq rfl⟩
  | refresh _ hrun =>
    rcases processRefreshEvent_cases hrun with ⟨-, hrun⟩ | ⟨due, -, -, ⟨rfl, -⟩ | hpre⟩
    · obtain ⟨-, -, -, -, rfl⟩ := refreshRun_cases hrun
      exact ⟨fun _ => hlimit, .of_eq rfl⟩
    · exact ⟨h, .of_eq rfl⟩
    · have hsame : ActsFrom limit { rk with refreshEvent := none, refreshState := .refPre, refreshDueAt := due } := h
      exact hsame.precharging hpre
  | power _ hrun =>
    cases processPowerEvent_cases hrun with
    | refreshDone => exact ⟨h, .of_eq rfl⟩
    | active => exact ⟨h, .of_eq rfl⟩
    | idle => exact ⟨h, .of_eq rfl⟩
    | refresh => exact ⟨fun _ => hlimit, .of_eq rfl⟩

/-- A refresh command is issued to closed banks, and puts off their activates. -/
lemma RankMove.refreshes (hmove : RankMove off now rk rk') :
    Proofs.refreshes rk'.cmdList = Proofs.refreshes rk.cmdList ∨
      rk'.numBanksActive = 0 ∧ ActsFrom (add64 now p.tRFC) rk' := by
  cases hmove with
  | served hserved =>
    refine .inl ?_
    induction hserved with
    | refl => rfl
    | tail _ hstep ih =>
      refine Eq.trans ?_ ih
      cases hstep with
      | access _ hchange => exact hchange.refreshes
      | held hheld => exact hheld.refreshes
      | drained => rfl
  | activate _ hrun =>
    rcases processActivateEvent_cases hrun with ⟨-, rfl⟩ | ⟨-, -, rfl⟩
    · exact .inl rfl
    · exact .inl rfl
  | precharge _ hrun =>
    rcases processPrechargeEvent_cases hrun with ⟨-, rfl⟩ | ⟨-, -, rfl⟩
    · exact .inl rfl
    · exact .inl rfl
  | refresh _ hrun =>
    rcases processRefreshEvent_cases hrun with ⟨-, hrun⟩ | ⟨due, -, -, ⟨rfl, -⟩ | hpre⟩
    · obtain ⟨hbanks, -, -, -, rfl⟩ := refreshRun_cases hrun
      exact .inr ⟨hbanks, fun _ => le_rfl⟩
    · exact .inl rfl
    · cases hpre with
      | idle => exact .inl rfl
      | active hactive hall =>
        have hsame := accessed_refreshes (prechargeAll_accessed hactive hall)
        exact .inl hsame
  | power _ hrun =>
    cases processPowerEvent_cases hrun with
    | refreshDone => exact .inl rfl
    | active => exact .inl rfl
    | idle => exact .inl rfl
    | refresh _ _ hbanks => exact .inr ⟨hbanks, fun _ => le_rfl⟩

end Acts

/-! ### Open banks -/

section Counted

variable {rk rk' : Rank p} {off now : Nat}

lemma AccessChange.counted (h : ActiveCounted rk) (hchange : AccessChange rk rk') : ActiveCounted rk' := by
  cases hchange with
  | activate off b t row hclosed hrow => exact h.activate (activated_activates rk off b t row) hclosed hrow
  | double b t ov hclosed =>
    have hrow : Row.doubleRow ≠ Row.noRow := by decide
    exact h.activate (doubleActivated_activates rk b t ov) hclosed hrow
  | precharge off b t trace hopen => exact h.precharge (precharged_precharges rk off b t trace) hopen
  | held hheld => exact h.congr hheld.numBanksActive hheld.openRow

lemma RankMove.counted (h : ActiveCounted rk) (hmove : RankMove off now rk rk') : ActiveCounted rk' := by
  cases hmove with
  | served hserved =>
    induction hserved with
    | refl => exact h
    | tail _ hstep ih =>
      cases hstep with
      | access _ hchange => exact hchange.counted ih
      | held hheld => exact ih.congr hheld.numBanksActive hheld.openRow
      | drained => exact ih
  | activate _ hrun =>
    have hsame : ActiveCounted { rk with activateEvent := none } := h
    exact (processActivateEvent_counted hsame now).2 _ hrun
  | precharge _ hrun =>
    have hsame : ActiveCounted { rk with prechargeEvent := none } := h
    exact (processPrechargeEvent_counted hsame now).2 _ hrun
  | refresh _ hrun =>
    have hsame : ActiveCounted { rk with refreshEvent := none } := h
    exact (processRefreshEvent_counted hsame off now _).2 _ hrun
  | power _ hrun =>
    have hsame : ActiveCounted { rk with powerEvent := none } := h
    exact (processPowerEvent_counted hsame off now).2 _ hrun

lemma run_counted {start : Nat} {es : List (Nat × Event p)} {s : DRAMCtrl p} (h : run p start es = .ok s) :
    AllCounted s.channel := by
  refine invariant_of_run DRAMCtrl.step (fun s => AllCounted s.channel) (fun s e s' hs hstep r => ?_)
    (allCounted_startup start) h
  exact ((step_move hstep).2.2.ranks r).counted (hs r)

end Counted

/-- A refresh command goes to a rank with all banks closed, and whatever happens afterwards, the rank is activated
only when the refresh is over, as long as the end of a refresh fits in 64 bits. -/
theorem refresh_excludes_activates {start : Nat} {es : List (Nat × Event p)} {s s' : DRAMCtrl p}
    {e : Nat × Event p} (h : run p start es = .ok s) (hstep : s.step e = .ok s') {r : Fin p.ranksPerChannel}
    (hrefresh : refreshes (s'.channel.ranks r).cmdList ≠ refreshes (s.channel.ranks r).cmdList) :
    (∀ b, ((s'.channel.ranks r).banks b).openRow = Row.noRow) ∧
      ∀ es' t, (∀ f ∈ e :: es', f.1 + p.tRFC < 2 ^ 64) → runFrom DRAMCtrl.step s' es' = .ok t →
        NewActsFrom (e.1 + p.tRFC) (s'.channel.ranks r) (t.channel.ranks r) := by
  obtain ⟨-, hcur, hmove⟩ := step_move hstep
  obtain ⟨hbanks, hacts⟩ := (hmove.ranks r).refreshes.resolve_left hrefresh
  have hcounted : ActiveCounted (s'.channel.ranks r) := (hmove.ranks r).counted (run_counted h r)
  constructor
  · intro b
    by_contra hopen
    exact hcounted.ne_zero hopen hbanks
  · intro es' t hfit hrun
    obtain ⟨hend, hfits⟩ := List.forall_mem_cons.mp hfit
    rw [add64_of_lt hend] at hacts
    have hsteps : Steps DRAMCtrl.step s' es' (fun _ f => f.1 + p.tRFC < 2 ^ 64) := fun pre f _ hpre _ =>
      hfits f (hpre.subset (by simp))
    refine (along_of_steps DRAMCtrl.step (I := fun u => e.1 ≤ u.curTick ∧ ActsFrom (e.1 + p.tRFC) (u.channel.ranks r) ∧
      NewActsFrom (e.1 + p.tRFC) (s'.channel.ranks r) (u.channel.ranks r)) (fun u f v hu hf hstep' => ?_)
      ⟨hcur.ge, hacts, .of_eq rfl⟩ hsteps es' t List.prefix_rfl hrun).2.2
    obtain ⟨hlate, hlimit, hnew⟩ := hu
    obtain ⟨hnext, hcur', hmove'⟩ := step_move hstep'
    have hafter : e.1 ≤ f.1 := hlate.trans hnext
    have hlater : e.1 + p.tRFC ≤ add64 f.1 p.tRFC := by
      rw [add64_of_lt hf]
      omega
    obtain ⟨hlimit', hnew'⟩ := hlimit.move hlater (hmove'.ranks r)
    exact ⟨hafter.trans hcur'.ge, hlimit', hnew.trans hnew'⟩

theorem refresh_excludes_activates_begun : ∃ s s', run ddr3_1600_x64 0 refreshBegun = .ok s ∧
    s.step (7786250, .power ⟨0, ddr3_1600_x64.ranks_pos⟩) = .ok s' ∧
    ∀ es' t, (∀ f ∈ (7786250, .power ⟨0, ddr3_1600_x64.ranks_pos⟩) :: es', f.1 + 260000 < 2 ^ 64) →
      runFrom DRAMCtrl.step s' es' = .ok t → NewActsFrom (7786250 + 260000)
      (s'.channel.ranks ⟨0, ddr3_1600_x64.ranks_pos⟩) (t.channel.ranks ⟨0, ddr3_1600_x64.ranks_pos⟩) := by
  obtain ⟨s, hrun, hs⟩ := exists_of_okWith (x := run ddr3_1600_x64 0 refreshBegun)
    (P := fun s => okWith (s.step (7786250, .power ⟨0, ddr3_1600_x64.ranks_pos⟩)) fun s' =>
      decide (refreshes (s'.channel.ranks ⟨0, ddr3_1600_x64.ranks_pos⟩).cmdList ≠
        refreshes (s.channel.ranks ⟨0, ddr3_1600_x64.ranks_pos⟩).cmdList)) (by decide +kernel)
  obtain ⟨s', hstep, hs'⟩ := exists_of_okWith hs
  exact ⟨s, s', hrun, hstep, (refresh_excludes_activates hrun hstep (of_decide_eq_true hs')).2⟩

end MimdramLean.Proofs

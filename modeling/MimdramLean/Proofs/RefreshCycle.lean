import MimdramLean.Proofs.TickRuns

/-!
# The refresh cycle

Each rank is refreshed over and over. Two state machines, one for refreshes and one for power states, hand the
refresh to each other through four events and the request loop.
-/

namespace MimdramLean.Proofs
open Library Rank

variable {p : Params}

/-! ### Pending activates and precharges -/

/-- After an activate at tick `t` the rank is going to be precharged. -/
def Covered (rk : Rank p) (t : Nat) : Prop :=
  (∃ b, (rk.banks b).openRow ≠ Row.noRow ∧ t + p.tRAS ≤ (rk.banks b).preAllowedAt) ∨
    ∃ u, rk.prechargeEvent = some u ∧ t + p.tRAS + p.tRP ≤ u

/-- An event whose tick is in the past was missed, and counts no more. -/
structure PowerOk (now : Nat) (rk : Rank p) : Prop where
  counted : ActiveCounted rk
  activate : ∀ t, rk.activateEvent = some t → now ≤ t → Covered rk t
  power : ∀ t, rk.powerEvent = some t → rk.pwrStateTrans = .pwrAct → now ≤ t → Covered rk t
  toAct : rk.powerEvent ≠ none → rk.pwrStateTrans = .pwrAct → rk.pwrState ≠ .pwrAct
  toRef : rk.powerEvent ≠ none → rk.pwrStateTrans = .pwrRef → rk.pwrState = .pwrIdle
  active : rk.pwrState = .pwrAct → rk.numBanksActive ≠ 0 ∨ rk.prechargeEvent ≠ none ∨ rk.powerEvent ≠ none

section Power

variable {rk rk' : Rank p} {now t : Nat} {b : Fin p.banksPerRank}

lemma Covered.activates {row u pre col : Nat} (h : Covered rk t) (hclosed : (rk.banks b).openRow = Row.noRow)
    (hact : Activates rk rk' b row u pre col) (hfields : ActivateFields rk rk' u) : Covered rk' t := by
  rcases h with ⟨i, hopen, hpre⟩ | hev
  · have hi : i ≠ b := by
      rintro rfl
      exact hopen hclosed
    refine .inl ⟨i, ?_, ?_⟩
    · rwa [hact.openRow, if_neg hi]
    · rwa [hact.preAllowedAt, if_neg hi]
  · refine .inr ?_
    rwa [hfields.prechargeEvent]

lemma Covered.precharges {u : Nat} (h : Covered rk t) (hu : (rk.banks b).preAllowedAt ≤ u)
    (hfit : u + totalDelay p < 2 ^ 64) (hpre : Precharges rk rk' b u) (hfields : PrechargeFields rk rk' u) :
    Covered rk' t := by
  obtain ⟨v, hv, hlate, hmax⟩ := hfields.prechargeEvent
  rw [add64_tRP hfit] at hlate
  rcases h with ⟨i, hopen, hready⟩ | ⟨w, hw, hle⟩
  · by_cases hi : i = b
    · subst hi
      exact .inr ⟨v, hv, by omega⟩
    · refine .inl ⟨i, ?_, ?_⟩
      · rwa [hpre.openRow, if_neg hi]
      · rwa [hpre.preAllowedAt, if_neg hi]
  · exact .inr ⟨v, hv, hle.trans (hmax w hw)⟩

lemma Covered.banksDelayed (h : Covered rk t) (hheld : BanksDelayed rk rk') : Covered rk' t := by
  rcases h with ⟨i, hopen, hpre⟩ | hev
  · exact .inl ⟨i, by rwa [hheld.openRow], hpre.trans (hheld.preAllowedAt i)⟩
  · refine .inr ?_
    rwa [hheld.prechargeEvent]

/-- A change that leaves the control of the rank alone. -/
lemma PowerOk.of_control (h : PowerOk now rk) (hcontrol : control rk' = control rk) (hcounted : ActiveCounted rk')
    (hactivate : ∀ t, rk'.activateEvent = some t → now ≤ t → Covered rk' t)
    (hcovered : ∀ t, Covered rk t → Covered rk' t)
    (hactive : rk.numBanksActive ≠ 0 ∨ rk.prechargeEvent ≠ none → rk'.numBanksActive ≠ 0 ∨ rk'.prechargeEvent ≠ none) :
    PowerOk now rk' := by
  have hpower : rk'.powerEvent = rk.powerEvent := congrArg RankControl.powerEvent hcontrol
  have htrans : rk'.pwrStateTrans = rk.pwrStateTrans := congrArg RankControl.pwrStateTrans hcontrol
  have hpwr : rk'.pwrState = rk.pwrState := congrArg RankControl.pwrState hcontrol
  refine ⟨hcounted, hactivate, ?_, ?_, ?_, ?_⟩
  · rw [hpower, htrans]
    exact fun t hev hto hnow => hcovered t (h.power t hev hto hnow)
  · rw [hpower, htrans, hpwr]
    exact h.toAct
  · rw [hpower, htrans, hpwr]
    exact h.toRef
  · rw [hpower, hpwr]
    intro hact
    rcases h.active hact with hbanks | hpre | hev
    · exact (hactive (.inl hbanks)).imp_right .inl
    · exact (hactive (.inr hpre)).imp_right .inl
    · exact .inr (.inr hev)

lemma PowerOk.activates {row u pre col : Nat} (h : PowerOk now rk) (hclosed : (rk.banks b).openRow = Row.noRow)
    (hrow : row ≠ Row.noRow) (hact : Activates rk rk' b row u pre col) (hpre : u + p.tRAS ≤ pre)
    (hfields : ActivateFields rk rk' u) : PowerOk now rk' := by
  refine h.of_control hfields.control (h.counted.activate hact hclosed hrow) (fun v hv hnow => ?_)
    (fun v hcov => hcov.activates hclosed hact hfields) (fun _ => .inl (by rw [hact.numBanksActive]; omega))
  obtain ⟨w, hw, hor⟩ := hfields.activateEvent
  obtain rfl := Option.some.inj (hv.symm.trans hw)
  rcases hor with rfl | hold
  · refine .inl ⟨b, ?_, ?_⟩
    · rwa [hact.openRow, if_pos rfl]
    · rwa [hact.preAllowedAt, if_pos rfl]
  · exact (h.activate v hold hnow).activates hclosed hact hfields

lemma PowerOk.banksDelayed (h : PowerOk now rk) (hheld : BanksDelayed rk rk') : PowerOk now rk' := by
  refine h.of_control hheld.control (h.counted.congr hheld.numBanksActive hheld.openRow) (fun v hv hnow => ?_)
    (fun v hcov => hcov.banksDelayed hheld) ?_
  · exact (h.activate v (hheld.activateEvent ▸ hv) hnow).banksDelayed hheld
  · rw [hheld.numBanksActive, hheld.prechargeEvent]
    exact id

/-- The commands of a rank leave room for one more delay. -/
def HistoryFits (rk : Rank p) : Prop := ∀ c ∈ rk.history, tickOf c + totalDelay p < 2 ^ 64

lemma HistoryFits.of_le (h : HistoryFits rk') (hle : rk.history <+: rk'.history) : HistoryFits rk :=
  fun c hc => h c (hle.subset hc)

lemma PowerOk.accessChange (h : PowerOk now rk) (hchange : AccessChange rk rk') (hfit : HistoryFits rk') :
    PowerOk now rk' := by
  cases hchange with
  | activate off b t row hclosed hrow =>
    have hact := activated_activates rk off b t row
    have ht : t + totalDelay p < 2 ^ 64 := hfit (.act b row t) (by simp [hact.history])
    exact h.activates hclosed hrow hact (add64_tRAS ht).ge (activated_fields rk off t row b)
  | double b t ov hclosed =>
    have hact := doubleActivated_activates rk b t ov
    have ht : t + totalDelay p < 2 ^ 64 := hfit (.act b Row.doubleRow t) (by simp [hact.history])
    rw [add64_tRAS_tWL ht] at hact
    exact h.activates hclosed (by decide) hact (Nat.le_add_right _ _) (doubleActivated_fields rk t b ov)
  | precharge off b t trace hopen hready =>
    have hpre := precharged_precharges rk off b t trace
    have hfields := precharged_fields rk off t b trace
    have ht : t + totalDelay p < 2 ^ 64 := hfit (.pre b t) (by simp [hpre.history])
    obtain ⟨u, hu, -⟩ := hfields.prechargeEvent
    refine h.of_control hfields.control (h.counted.precharge hpre hopen) (fun v hv hnow => ?_)
      (fun v hcov => hcov.precharges hready ht hpre hfields) (fun _ => .inr (by rw [hu]; simp))
    exact (h.activate v (hfields.activateEvent ▸ hv) hnow).precharges hready ht hpre hfields
  | held hheld => exact h.banksDelayed hheld

lemma PowerOk.accessed (h : PowerOk now rk) (haccess : Accessed rk rk') (hfit : HistoryFits rk') :
    PowerOk now rk' := by
  induction haccess with
  | refl => exact h
  | tail _ hchange ih => exact (ih (hfit.of_le hchange.history)).accessChange hchange hfit

lemma PowerOk.later {later : Nat} (h : PowerOk now rk) (hle : now ≤ later) : PowerOk later rk where
  counted := h.counted
  activate := fun t ht hnow => h.activate t ht (hle.trans hnow)
  power := fun t ht hto hnow => h.power t ht hto (hle.trans hnow)
  toAct := h.toAct
  toRef := h.toRef
  active := h.active

end Power

/-! ### Phases -/

/-- The tick at which refresh number `k` is due. -/
def refreshDue (p : Params) (start k : Nat) : Nat := start + (k + 1) * (p.tREFI - p.tRP)

lemma refreshDue_succ (start k : Nat) : refreshDue p start (k + 1) = refreshDue p start k + p.tREFI - p.tRP := by
  have hinterval := p.refresh_interval.1
  rw [refreshDue, refreshDue, Nat.succ_mul (k + 1)]
  omega

/-- Refreshes at the ticks `ts`: each starts when it is due or later, is over in time for the next one, and none
starts before the last one is over. -/
structure OnSchedule (p : Params) (start : Nat) (ts : List Nat) : Prop where
  due : ∀ k t, ts[k]? = some t → refreshDue p start k ≤ t ∧ t + p.tRFC ≤ refreshDue p start k + p.tREFI
  apart : ts.Pairwise fun t u => t + p.tRFC ≤ u

lemma onSchedule_nil (p : Params) (start : Nat) : OnSchedule p start [] := ⟨by simp, .nil⟩

lemma OnSchedule.snoc {start t : Nat} {ts : List Nat} (h : OnSchedule p start ts)
    (hdue : refreshDue p start ts.length ≤ t) (htime : t + p.tRFC ≤ refreshDue p start ts.length + p.tREFI)
    (hpast : ∀ u ∈ ts, u + p.tRFC ≤ t) : OnSchedule p start (ts ++ [t]) := by
  refine ⟨fun k u hk => ?_, List.pairwise_append.mpr ⟨h.apart, List.pairwise_singleton .., by simpa using hpast⟩⟩
  rw [List.getElem?_append] at hk
  split at hk
  · exact h.due k u hk
  · have hlen : k = ts.length := by
      have hlt := (List.getElem?_eq_some_iff.mp hk).1
      simp only [List.length_singleton] at hlt
      omega
    subst hlen
    obtain rfl : t = u := by simpa using hk
    exact ⟨hdue, htime⟩

/-- A refresh is due and has not been issued. -/
structure Due (start now : Nat) (ts : List Nat) (rk : Rank p) : Prop where
  pwrState : rk.pwrState ≠ .pwrRef
  past : ∀ t ∈ ts, t + p.tRFC ≤ now
  dueAt : rk.refreshDueAt = refreshDue p start ts.length
  now : rk.refreshDueAt ≤ now

/-- Where a rank is in its cycle, after refreshes at the ticks `ts`. -/
inductive RefreshPhase (start now : Nat) (ts : List Nat) (rk : Rank p) : Prop
  | idle (hstate : rk.refreshState = .refIdle) (hpwr : rk.pwrState ≠ .pwrRef) (hpast : ∀ t ∈ ts, t + p.tRFC ≤ now)
      (hev : rk.refreshEvent = some (refreshDue p start ts.length))
  | drain (hstate : rk.refreshState = .refDrain) (hdue : Due start now ts rk) (hev : rk.refreshEvent = none)
  | pre (hstate : rk.refreshState = .refPre) (hdue : Due start now ts rk) (hev : rk.refreshEvent ≠ none)
  | closing (hstate : rk.refreshState = .refRun) (hdue : Due start now ts rk) (hev : rk.refreshEvent = none)
      (hbanks : rk.numBanksActive = 0)
      (hidle : rk.pwrState = .pwrIdle → rk.powerEvent ≠ none ∧ rk.pwrStateTrans = .pwrRef)
  | refreshing {t : Nat} (hstate : rk.refreshState = .refRun) (hpwr : rk.pwrState = .pwrRef)
      (hbanks : rk.numBanksActive = 0) (hlast : ∀ u ∈ ts, u ≤ t)
      (hev : rk.refreshEvent = some (refreshDue p start ts.length)) (hpower : rk.powerEvent = some (t + p.tRFC))
      (htrans : rk.pwrStateTrans = .pwrIdle)

structure CycleInv (start off now : Nat) (ts : List Nat) (rk : Rank p) : Prop where
  power : PowerOk now rk
  log : refreshes rk.cmdList = ts.map fun t => (.ref, 0, timeStamp p off t)
  schedule : OnSchedule p start ts
  phase : RefreshPhase start now ts rk

section Cycle

variable {start off now : Nat} {ts : List Nat} {rk rk' : Rank p}

lemma Due.congr (h : Due start now ts rk) (hpwr : rk'.pwrState = rk.pwrState)
    (hdue : rk'.refreshDueAt = rk.refreshDueAt) : Due start now ts rk' :=
  ⟨by rw [hpwr]; exact h.pwrState, h.past, by rw [hdue]; exact h.dueAt, by rw [hdue]; exact h.now⟩

lemma Due.later {later : Nat} (h : Due start now ts rk) (hle : now ≤ later) : Due start later ts rk :=
  ⟨h.pwrState, fun t ht => (h.past t ht).trans hle, h.dueAt, h.now.trans hle⟩

lemma CycleInv.later {later : Nat} (h : CycleInv start off now ts rk) (hle : now ≤ later) :
    CycleInv start off later ts rk := by
  refine ⟨h.power.later hle, h.log, h.schedule, ?_⟩
  cases h.phase with
  | idle hstate hpwr hpast hev => exact .idle hstate hpwr (fun t ht => (hpast t ht).trans hle) hev
  | drain hstate hdue hev => exact .drain hstate (hdue.later hle) hev
  | pre hstate hdue hev => exact .pre hstate (hdue.later hle) hev
  | closing hstate hdue hev hbanks hidle => exact .closing hstate (hdue.later hle) hev hbanks hidle
  | refreshing hstate hpwr hbanks hlast hev hpower htrans =>
    exact .refreshing hstate hpwr hbanks hlast hev hpower htrans

lemma RefreshPhase.of_control (h : RefreshPhase start now ts rk) (hcontrol : control rk' = control rk)
    (hbanks : rk.refreshState = .refRun → rk'.numBanksActive = rk.numBanksActive) : RefreshPhase start now ts rk' := by
  have hstate' : rk'.refreshState = rk.refreshState := congrArg RankControl.refreshState hcontrol
  have hdue' : rk'.refreshDueAt = rk.refreshDueAt := congrArg RankControl.refreshDueAt hcontrol
  have hpwr' : rk'.pwrState = rk.pwrState := congrArg RankControl.pwrState hcontrol
  have htrans' : rk'.pwrStateTrans = rk.pwrStateTrans := congrArg RankControl.pwrStateTrans hcontrol
  have hev' : rk'.refreshEvent = rk.refreshEvent := congrArg RankControl.refreshEvent hcontrol
  have hpower' : rk'.powerEvent = rk.powerEvent := congrArg RankControl.powerEvent hcontrol
  cases h with
  | idle hstate hpwr hpast hev =>
    exact .idle (hstate'.trans hstate) (by rwa [hpwr']) hpast (hev'.trans hev)
  | drain hstate hdue hev => exact .drain (hstate'.trans hstate) (hdue.congr hpwr' hdue') (hev'.trans hev)
  | pre hstate hdue hev => exact .pre (hstate'.trans hstate) (hdue.congr hpwr' hdue') (by rwa [hev'])
  | closing hstate hdue hev hzero hidle =>
    refine .closing (hstate'.trans hstate) (hdue.congr hpwr' hdue') (hev'.trans hev) ((hbanks hstate).trans hzero) ?_
    rwa [hpwr', hpower', htrans']
  | refreshing hstate hpwr hzero hlast hev hpower htrans =>
    exact .refreshing (hstate'.trans hstate) (hpwr'.trans hpwr) ((hbanks hstate).trans hzero) hlast (hev'.trans hev)
      (hpower'.trans hpower) (htrans'.trans htrans)

lemma AccessChange.refreshes (h : AccessChange rk rk') : refreshes rk'.cmdList = refreshes rk.cmdList := by
  cases h with
  | activate off b t row => exact (activated_fields rk off t row b).refreshes
  | double b t ov => exact (doubleActivated_fields rk t b ov).refreshes
  | precharge off b t trace => exact (precharged_fields rk off t b trace).refreshes
  | held h => exact h.refreshes

lemma accessed_control (h : Accessed rk rk') : control rk' = control rk := by
  induction h with
  | refl => rfl
  | tail _ hchange ih => exact hchange.control.trans ih

lemma accessed_refreshes (h : Accessed rk rk') : refreshes rk'.cmdList = refreshes rk.cmdList := by
  induction h with
  | refl => rfl
  | tail _ hchange ih => exact hchange.refreshes.trans ih

lemma ServeStep.history (h : ServeStep now rk rk') : rk.history <+: rk'.history := by
  cases h with
  | access _ hchange => exact hchange.history
  | held hheld => exact hheld.history
  | drained => exact List.prefix_rfl

lemma CycleInv.serveStep (h : CycleInv start off now ts rk) (hstep : ServeStep now rk rk') (hfit : HistoryFits rk') :
    CycleInv start off now ts rk' := by
  cases hstep with
  | access hav hchange =>
    refine ⟨h.power.accessChange hchange hfit, hchange.refreshes.trans h.log, h.schedule, ?_⟩
    exact h.phase.of_control hchange.control fun hrun => by simp [hav] at hrun
  | held hheld =>
    refine ⟨h.power.banksDelayed hheld, hheld.refreshes.trans h.log, h.schedule, ?_⟩
    exact h.phase.of_control hheld.control fun _ => hheld.numBanksActive
  | drained hstate =>
    have hpower := h.power
    refine ⟨⟨hpower.counted, hpower.activate, hpower.power, hpower.toAct, hpower.toRef, hpower.active⟩, h.log,
      h.schedule, ?_⟩
    cases h.phase with
    | drain _ hdue _ => exact .pre rfl (hdue.congr rfl rfl) (by simp)
    | idle hstate' | pre hstate' | closing hstate' | refreshing hstate' => simp [hstate] at hstate'

lemma CycleInv.served (h : CycleInv start off now ts rk) (hserved : Served now rk rk') (hfit : HistoryFits rk') :
    CycleInv start off now ts rk' := by
  induction hserved with
  | refl => exact h
  | tail _ hstep ih => exact (ih (hfit.of_le hstep.history)).serveStep hstep hfit

lemma CycleInv.activate (h : CycleInv start off now ts rk) (hev : rk.activateEvent = some now)
    (hrun : { rk with activateEvent := none }.processActivateEvent now = .ok rk') : CycleInv start off now ts rk' := by
  have hcovered := h.power.activate now hev le_rfl
  rcases processActivateEvent_cases hrun with ⟨-, rfl⟩ | ⟨hpwr, hnone, rfl⟩
  · refine ⟨?_, h.log, h.schedule, h.phase.of_control rfl fun _ => rfl⟩
    exact ⟨h.power.counted, by simp, h.power.power, h.power.toAct, h.power.toRef, h.power.active⟩
  · refine ⟨⟨h.power.counted, by simp, ?_, fun _ _ => hpwr, by simp, by simp⟩, h.log, h.schedule, ?_⟩
    · intro t ht _ _
      obtain rfl := Option.some.inj ht
      exact hcovered
    · cases h.phase with
      | idle hstate hpwr hpast hev => exact .idle hstate hpwr hpast hev
      | drain hstate hdue hev => exact .drain hstate (hdue.congr rfl rfl) hev
      | pre hstate hdue hev => exact .pre hstate (hdue.congr rfl rfl) hev
      | closing _ hdue _ _ hidle =>
        have hpwrIdle : rk.pwrState = .pwrIdle := by
          have hne := hdue.pwrState
          cases hstate : rk.pwrState <;> simp_all
        exact absurd hnone (hidle hpwrIdle).1
      | refreshing _ _ _ _ _ hpower => simp [hpower] at hnone

/-- When the precharge event fires, an activate that is still to come has its bank open. -/
lemma Covered.fired (hpos : 0 < p.tRAS + p.tRP) {t : Nat} (h : Covered rk t) (hev : rk.prechargeEvent = some now)
    (hnow : now ≤ t) : Covered { rk with prechargeEvent := none } t := by
  rcases h with hopen | ⟨u, hu, hle⟩
  · exact .inl hopen
  · obtain rfl := Option.some.inj (hev.symm.trans hu)
    omega

lemma CycleInv.precharge (hpos : 0 < p.tRAS + p.tRP) (h : CycleInv start off now ts rk)
    (hev : rk.prechargeEvent = some now)
    (hrun : { rk with prechargeEvent := none }.processPrechargeEvent now = .ok rk') :
    CycleInv start off now ts rk' := by
  have hacts := fun t ht hnow => (h.power.activate t ht hnow).fired hpos hev hnow
  rcases processPrechargeEvent_cases hrun with ⟨hbanks, rfl⟩ | ⟨hbanks, hnone, rfl⟩
  · refine ⟨?_, h.log, h.schedule, h.phase.of_control rfl fun _ => rfl⟩
    refine ⟨h.power.counted, hacts, fun t ht hto hnow => ?_, h.power.toAct, h.power.toRef, fun _ => .inl hbanks⟩
    exact (h.power.power t ht hto hnow).fired hpos hev hnow
  · refine ⟨⟨h.power.counted, hacts, by simp, by simp, by simp, by simp⟩, h.log, h.schedule, ?_⟩
    cases h.phase with
    | idle hstate hpwr hpast hev => exact .idle hstate hpwr hpast hev
    | drain hstate hdue hev => exact .drain hstate (hdue.congr rfl rfl) hev
    | pre hstate hdue hev => exact .pre hstate (hdue.congr rfl rfl) hev
    | closing hstate hdue hev hzero hidle =>
      refine .closing hstate (hdue.congr rfl rfl) hev hzero fun hpwr => absurd hnone (hidle hpwr).1
    | refreshing _ _ _ _ _ hpower => simp [hpower] at hnone

/-- All banks are being precharged for a refresh that is due. -/
lemma CycleInv.precharging (hpower : PowerOk now rk)
    (hlog : refreshes rk.cmdList = ts.map fun t => (.ref, 0, timeStamp p off t))
    (hschedule : OnSchedule p start ts) (hdue : Due start now ts rk) (hev : rk.refreshEvent = none)
    (h : Precharging off now rk rk') (hfit : HistoryFits rk') : CycleInv start off now ts rk' := by
  cases h with
  | idle hidle hnone hbanks =>
    refine ⟨⟨hpower.counted, hpower.activate, by simp, by simp, fun _ _ => hidle, by simp [hidle]⟩, hlog, hschedule, ?_⟩
    exact .closing rfl (hdue.congr rfl rfl) hev hbanks fun _ => ⟨by simp, rfl⟩
  | @active mid hactive hall hbanks =>
    have haccess := prechargeAll_accessed hactive hall
    have hcontrol := accessed_control haccess
    have hpwr : mid.pwrState = rk.pwrState := congrArg RankControl.pwrState hcontrol
    have hmid := hpower.accessed haccess hfit
    refine ⟨⟨hmid.counted, hmid.activate, hmid.power, hmid.toAct, hmid.toRef, hmid.active⟩,
      (accessed_refreshes haccess).trans hlog, hschedule, ?_⟩
    refine .closing rfl (hdue.congr hpwr (congrArg RankControl.refreshDueAt hcontrol))
      ((congrArg RankControl.refreshEvent hcontrol).trans hev) hbanks fun hidle => ?_
    exact absurd (hpwr.symm.trans hidle) hactive

lemma CycleInv.refresh {awaiting : Bool} (h : CycleInv start off now ts rk) (hev : rk.refreshEvent = some now)
    (hrun : { rk with refreshEvent := none }.processRefreshEvent off now awaiting = .ok rk') (hfit : HistoryFits rk') :
    CycleInv start off now ts rk' := by
  have hpower := h.power
  have hkeep : ∀ due st, PowerOk now { rk with refreshEvent := none, refreshDueAt := due, refreshState := st } :=
    fun due st => ⟨hpower.counted, hpower.activate, hpower.power, hpower.toAct, hpower.toRef, hpower.active⟩
  rcases processRefreshEvent_cases hrun with ⟨hstate, hrun⟩ | ⟨due, hdue, hstate, hcase⟩
  · -- the power event that ends the refresh is pending
    obtain ⟨-, -, -, hnone, -⟩ := refreshRun_cases hrun
    cases h.phase with
    | refreshing _ _ _ _ _ hpower' => simp [hpower'] at hnone
    | closing _ _ hev' => simp [hev] at hev'
    | idle hstate' | drain hstate' | pre hstate' => simp_all
  · have hdue' : Due start now ts { rk with refreshEvent := none, refreshDueAt := due, refreshState := .refPre } := by
      cases h.phase with
      | idle hstate' hpwr hpast hev' =>
        have hnow : now = refreshDue p start ts.length := Option.some.inj (hev.symm.trans hev')
        obtain ⟨-, rfl⟩ | ⟨hne, -⟩ := hdue
        · exact ⟨hpwr, hpast, hnow, le_rfl⟩
        · exact absurd hstate' hne
      | pre hstate' hwait _ =>
        obtain ⟨hidle, -⟩ | ⟨-, rfl⟩ := hdue
        · simp [hstate'] at hidle
        · exact hwait.congr rfl rfl
      | drain _ _ hev' => simp [hev] at hev'
      | closing hstate' | refreshing hstate' => exact absurd hstate' hstate
    rcases hcase with ⟨rfl, -⟩ | hcase
    · exact ⟨hkeep _ _, h.log, h.schedule, .drain rfl (hdue'.congr rfl rfl) rfl⟩
    · exact CycleInv.precharging (hkeep due .refPre) h.log h.schedule hdue' rfl hcase hfit

/-- A refresh command is issued. -/
lemma CycleInv.issueRefresh (h : CycleInv start off now ts rk) (hdue : Due start now ts rk)
    (hstate : rk.refreshState = .refRun) (hbanks : rk.numBanksActive = 0)
    (htime : add64 now p.tRFC ≤ add64 rk.refreshDueAt p.tREFI) (hfit : now + totalDelay p < 2 ^ 64) :
    CycleInv start off now (ts ++ [now]) (refreshed { rk with powerEvent := none, pwrState := .pwrRef } off now) := by
  have hpower := h.power
  have hnow := hdue.now
  have hdone : add64 now p.tRFC = now + p.tRFC := add64_of_lt (by unfold totalDelay at hfit; omega)
  have hnext : add64 rk.refreshDueAt p.tREFI = rk.refreshDueAt + p.tREFI :=
    add64_of_lt (by unfold totalDelay at hfit; omega)
  rw [hdone, hnext] at htime
  constructor
  · refine ⟨hpower.counted, fun t ht hnow => ?_, by simp [refreshed], by simp [refreshed], by simp [refreshed],
      by simp [refreshed]⟩
    exact hpower.activate t ht hnow
  · simp only [refreshed, refreshes, List.filter_append, List.map_append]
    exact congrArg (· ++ _) h.log
  · refine h.schedule.snoc ?_ ?_ hdue.past
    · rw [← hdue.dueAt]
      exact hdue.now
    · rwa [← hdue.dueAt]
  · refine .refreshing (t := now) hstate rfl hbanks ?_ ?_ (congrArg some hdone) rfl
    · intro u hu
      rcases List.mem_append.mp hu with hu | hu
      · exact (Nat.le_add_right _ _).trans (hdue.past u hu)
      · exact (List.mem_singleton.mp hu).le
    · have hinterval := p.refresh_interval.1
      rw [List.length_append, List.length_singleton, refreshDue_succ, ← hdue.dueAt]
      simp only [refreshed, hnext]
      rw [sub64_of_le (by omega)]

lemma CycleInv.powered {kick : Bool} (h : CycleInv start off now ts rk) (hev : rk.powerEvent = some now)
    (hrun : { rk with powerEvent := none }.processPowerEvent off now = .ok (rk', kick))
    (hfit : now + totalDelay p < 2 ^ 64) :
    CycleInv start off now ts rk' ∨ CycleInv start off now (ts ++ [now]) rk' := by
  have hpower := h.power
  cases processPowerEvent_cases hrun with
  | refreshDone htrans hpwr =>
    refine .inl ⟨⟨hpower.counted, hpower.activate, by simp, by simp, by simp, by simp⟩, h.log, h.schedule, ?_⟩
    cases h.phase with
    | @refreshing t _ _ _ hlast hrefresh hpend =>
      have hnow : now = t + p.tRFC := Option.some.inj (hev.symm.trans hpend)
      refine .idle rfl (by simp) (fun u hu => ?_) hrefresh
      rw [hnow]
      exact Nat.add_le_add_right (hlast u hu) _
    | idle _ hpwr' => exact absurd hpwr hpwr'
    | drain _ hdue | pre _ hdue | closing _ hdue => exact absurd hpwr hdue.pwrState
  | active htrans =>
    have hcovered := hpower.power now hev htrans le_rfl
    have hactive : rk.numBanksActive ≠ 0 ∨ rk.prechargeEvent ≠ none := by
      rcases hcovered with ⟨b, hopen, -⟩ | ⟨u, hu, -⟩
      · exact .inl (hpower.counted.ne_zero hopen)
      · exact .inr (by simp [hu])
    refine .inl ⟨⟨hpower.counted, hpower.activate, by simp, by simp, by simp, fun _ => hactive.imp_right .inl⟩, h.log,
      h.schedule, ?_⟩
    cases h.phase with
    | idle hstate _ hpast hev' => exact .idle hstate (by simp) hpast hev'
    | drain hstate hdue hev' => exact .drain hstate ⟨by simp, hdue.past, hdue.dueAt, hdue.now⟩ hev'
    | pre hstate hdue hev' => exact .pre hstate ⟨by simp, hdue.past, hdue.dueAt, hdue.now⟩ hev'
    | closing hstate hdue hev' hbanks hidle =>
      have hne := hpower.toAct (by simp [hev]) htrans
      have hpwr := hdue.pwrState
      cases hstate : rk.pwrState with
      | pwrIdle => simp [(hidle hstate).2] at htrans
      | pwrAct => exact absurd hstate hne
      | pwrRef => exact absurd hstate hpwr
    | refreshing _ _ _ _ _ _ hto => simp [hto] at htrans
  | idle htrans hpwr hstate =>
    refine .inl ⟨⟨hpower.counted, hpower.activate, by simp, by simp, by simp, by simp⟩, h.log, h.schedule, ?_⟩
    cases h.phase with
    | idle hstate _ hpast hev' => exact .idle hstate (by simp) hpast hev'
    | drain hstate hdue hev' => exact .drain hstate ⟨by simp, hdue.past, hdue.dueAt, hdue.now⟩ hev'
    | pre hstate hdue hev' => exact .pre hstate ⟨by simp, hdue.past, hdue.dueAt, hdue.now⟩ hev'
    | closing hstate' | refreshing hstate' => exact absurd hstate' hstate
  | refresh htrans hstate hbanks htime =>
    refine .inr ?_
    cases h.phase with
    | closing _ hdue => exact h.issueRefresh hdue hstate hbanks htime hfit
    | idle hstate' | drain hstate' | pre hstate' => simp_all
    | refreshing _ hpwr _ _ _ _ hto =>
      rcases htrans with href | ⟨-, hact⟩
      · simp [hto] at href
      · simp [hpwr] at hact

/-- Whatever happens to a rank, it stays in its cycle. -/
lemma CycleInv.move (hpos : 0 < p.tRAS + p.tRP) (h : CycleInv start off now ts rk) (hmove : RankMove off now rk rk')
    (hnow : now + totalDelay p < 2 ^ 64) (hfit : HistoryFits rk') :
    CycleInv start off now ts rk' ∨ CycleInv start off now (ts ++ [now]) rk' := by
  cases hmove with
  | served hserved => exact .inl (h.served hserved hfit)
  | activate hev hrun => exact .inl (h.activate hev hrun)
  | precharge hev hrun => exact .inl (h.precharge hpos hev hrun)
  | refresh hev hrun => exact .inl (h.refresh hev hrun hfit)
  | power hev hrun => exact h.powered hev hrun hnow

end Cycle

/-! ### Runs -/

section Run

open DRAMCtrl

/-- Every rank is in its refresh cycle. -/
structure CyclesInv (start : Nat) (s : DRAMCtrl p) : Prop where
  offset : s.channel.timeStampOffset = (startup p start).channel.timeStampOffset
  ranks : ∀ r, ∃ ts, CycleInv start s.channel.timeStampOffset s.curTick ts (s.channel.ranks r)

lemma cyclesInv_startup {start : Nat} (hfit : start + totalDelay p < 2 ^ 64) : CyclesInv start (startup p start) := by
  refine ⟨rfl, fun r => ⟨[], ?_, rfl, onSchedule_nil p start, ?_⟩⟩
  · refine ⟨?_, by simp [startup, Channel.startup, Rank.init], by simp [startup, Channel.startup, Rank.init],
      by simp [startup, Channel.startup, Rank.init], by simp [startup, Channel.startup, Rank.init],
      by simp [startup, Channel.startup, Rank.init]⟩
    simp [ActiveCounted, openBanks, startup, Channel.startup, Rank.init]
  · refine .idle rfl (by simp [startup, Channel.startup, Rank.init]) (by simp) ?_
    have hinterval := p.refresh_interval.1
    have hsum : add64 start p.tREFI = start + p.tREFI := add64_of_lt (by unfold totalDelay at hfit; omega)
    simp only [startup, Channel.startup, refreshDue, List.length_nil, Option.some.injEq, hsum]
    rw [sub64_of_le (by omega)]
    omega

lemma step_move {s s' : DRAMCtrl p} {e : Nat × Event p} (h : s.step e = .ok s') :
    s.curTick ≤ e.1 ∧ s'.curTick = e.1 ∧ ChannelMove e.1 s.channel s'.channel := by
  obtain ⟨htick, hhandle⟩ := step_eq_ok.mp h
  exact ⟨htick, handle_curTick hhandle, handle_move hhandle⟩

lemma CyclesInv.step (hpos : 0 < p.tRAS + p.tRP) {start T : Nat} {s s' : DRAMCtrl p} {e : Nat × Event p}
    (hwithin : ChannelWithin T s.channel) (he : e.1 ≤ T) (hT : T + reach p + totalDelay p < 2 ^ 64)
    (h : CyclesInv start s) (hstep : s.step e = .ok s') : CyclesInv start s' := by
  obtain ⟨htick, hcur, hmove⟩ := step_move hstep
  refine ⟨hmove.timeStampOffset.trans h.offset, fun r => ?_⟩
  obtain ⟨ts, hinv⟩ := h.ranks r
  rw [hmove.timeStampOffset, hcur]
  have hfit : HistoryFits (s'.channel.ranks r) := by
    intro c hc
    have hle := ((step_within hwithin he (by omega) hstep).ranks r).history c hc
    omega
  rcases (hinv.later htick).move hpos (hmove.ranks r) (by omega) hfit with hsame | hmore
  · exact ⟨ts, hsame⟩
  · exact ⟨_, hmore⟩

lemma run_cyclesInv (hpos : 0 < p.tRAS + p.tRP) {start last : Nat} {es : List (Nat × Event p)} {s : DRAMCtrl p}
    (hfit : RunFits start last es) (h : run p start es = .ok s) : CyclesInv start s := by
  have hstart := hfit.start
  have hroom := hfit.room
  rw [Nat.succ_mul] at hroom
  refine (hfit.invariant (CyclesInv start) ?_ (cyclesInv_startup (by unfold reach at hroom; omega)) h).1
  exact fun T s e s' hwithin he hT hs hstep => hs.step hpos hwithin he hT hstep

/-- However long its refreshes are put off by requests, a rank never loses one and never drifts: refresh number `k`
is due at a tick that depends on `k` only, and starts in time to be over before it is too late. -/
theorem refresh_on_schedule (hpos : 0 < p.tRAS + p.tRP) {start last : Nat} {es : List (Nat × Event p)} {s : DRAMCtrl p}
    (hfit : RunFits start last es) (h : run p start es = .ok s) (r : Fin p.ranksPerChannel) :
    ∃ ts, OnSchedule p start ts ∧
      refreshes (s.channel.ranks r).cmdList =
        ts.map (fun t => (.ref, 0, timeStamp p (startup p start).channel.timeStampOffset t)) ∧
      ((s.channel.ranks r).refreshState = .refIdle →
        (s.channel.ranks r).refreshEvent = some (refreshDue p start ts.length)) ∧
      ((s.channel.ranks r).refreshState ≠ .refIdle → (s.channel.ranks r).pwrState ≠ .pwrRef →
        (s.channel.ranks r).refreshDueAt = refreshDue p start ts.length) := by
  obtain ⟨hoff, hranks⟩ := run_cyclesInv hpos hfit h
  obtain ⟨ts, hinv⟩ := hranks r
  refine ⟨ts, hinv.schedule, hoff ▸ hinv.log, fun hidle => ?_, fun hbusy hpwr => ?_⟩
  · cases hinv.phase with
    | idle _ _ _ hev => exact hev
    | drain hstate | pre hstate | closing hstate | refreshing hstate => simp [hidle] at hstate
  · cases hinv.phase with
    | idle hstate => exact absurd hstate hbusy
    | drain _ hdue | pre _ hdue | closing _ hdue => exact hdue.dueAt
    | refreshing _ href => exact absurd href hpwr

/-- Rank 0 is refreshed once. -/
def refreshOnce : List (Nat × Event ddr3_1600_x64) :=
  [(7786250, .refresh ⟨0, ddr3_1600_x64.ranks_pos⟩), (7786250, .power ⟨0, ddr3_1600_x64.ranks_pos⟩),
    (8046250, .power ⟨0, ddr3_1600_x64.ranks_pos⟩)]

lemma refreshOnce_fits : RunFits 0 8046250 refreshOnce := ⟨by decide, by simp [refreshOnce], by decide⟩

theorem refresh_on_schedule_once : ∃ s, run ddr3_1600_x64 0 refreshOnce = .ok s ∧
    ∃ ts, OnSchedule ddr3_1600_x64 0 ts ∧ ts.length = 1 ∧
      (s.channel.ranks ⟨0, ddr3_1600_x64.ranks_pos⟩).refreshEvent = some (2 * 7786250) := by
  obtain ⟨s, hrun, hs⟩ := exists_of_okWith (x := run ddr3_1600_x64 0 refreshOnce)
    (P := fun s => decide (refreshes (s.channel.ranks ⟨0, ddr3_1600_x64.ranks_pos⟩).cmdList = [(.ref, 0, 6229)] ∧
      (s.channel.ranks ⟨0, ddr3_1600_x64.ranks_pos⟩).refreshState = .refIdle)) (by decide +kernel)
  obtain ⟨hlog, hidle⟩ := of_decide_eq_true hs
  obtain ⟨ts, hts, hlog', hev, -⟩ :=
    refresh_on_schedule (by decide) refreshOnce_fits hrun ⟨0, ddr3_1600_x64.ranks_pos⟩
  have hlen : ts.length = 1 := by simpa [hlog] using (congrArg List.length hlog').symm
  refine ⟨s, hrun, ts, hts, hlen, ?_⟩
  rw [hev hidle, hlen]
  rfl

end Run

end MimdramLean.Proofs

import MimdramLean.Library.Loops
import MimdramLean.Proofs.RankSteps

/-!
# The events of a rank

What the handlers of the refresh, power, activate and precharge events do, one case for each state of the two
state machines of a rank.
-/

namespace MimdramLean.Proofs
open Library Rank

variable {p : Params}

/-! ### Precharging all banks -/

section PrechargeAll

variable {rk rk' : Rank p} {off now : Nat}

lemma preAllowedAt_le_preAllAt (rk : Rank p) (now : Nat) (b : Fin p.banksPerRank) :
    (rk.banks b).preAllowedAt ≤ rk.preAllAt now :=
  (le_foldl_max (fun b => (rk.banks b).preAllowedAt) _ now).2 b (List.mem_finRange b)

lemma banksDelayed_setBank {b : Fin p.banksPerRank} {bank : Bank} (hrow : bank.openRow = (rk.banks b).openRow)
    (hpre : (rk.banks b).preAllowedAt ≤ bank.preAllowedAt) (hact : (rk.banks b).actAllowedAt ≤ bank.actAllowedAt) :
    BanksDelayed rk (rk.setBank b bank) := by
  have hbank : ∀ i, (rk.setBank b bank).banks i = if i = b then bank else rk.banks i := fun i =>
    Function.update_apply ..
  refine ⟨rfl, rfl, rfl, rfl, fun i => ?_, fun i => ?_, fun i => ?_, rfl, rfl, rfl, fun _ => rfl, List.prefix_rfl⟩
  all_goals
    rw [hbank]
    split
    · subst i
      assumption
    · rfl

lemma prechargeOrHold_accessed {preAt : Nat} {b : Fin p.banksPerRank}
    (hpre : ∀ i, (rk.banks i).preAllowedAt ≤ preAt) (h : prechargeOrHold off preAt rk b = .ok rk') :
    Accessed rk rk' ∧ ∀ i, (rk'.banks i).preAllowedAt ≤ preAt := by
  unfold prechargeOrHold at h
  split at h
  · refine ⟨prechargeBank_accessed (hpre b) h, fun i => ?_⟩
    obtain ⟨-, -, rfl⟩ := prechargeBank_eq_ok.mp h
    rw [(precharged_precharges rk off b preAt false).preAllowedAt]
    split
    · exact le_rfl
    · exact hpre i
  · cases h
    refine ⟨.single (.held (banksDelayed_setBank rfl (le_max_left _ _) (le_max_left _ _))), fun i => ?_⟩
    simp only [setBank, Function.update_apply]
    split
    · exact max_le (hpre b) le_rfl
    · exact hpre i

lemma prechargeAll_accessed (hactive : rk.pwrState ≠ .pwrIdle) (h : rk.prechargeAll off now = .ok rk') :
    Accessed rk rk' := by
  unfold prechargeAll at h
  rw [if_pos hactive] at h
  obtain ⟨mid, hfold, h⟩ := bind_eq_ok.mp h
  cases h
  rw [foldlM_eq_runFrom] at hfold
  have hinv := invariant_of_run _
    (fun t : Rank p => Accessed rk t ∧ ∀ i, (t.banks i).preAllowedAt ≤ rk.preAllAt now)
    (fun t b t' ht hstep => by
      obtain ⟨haccess, hpre⟩ := prechargeOrHold_accessed ht.2 hstep
      exact ⟨ht.1.trans haccess, hpre⟩)
    ⟨.refl, preAllowedAt_le_preAllAt rk now⟩ hfold
  exact hinv.1.tail (.held (banksDelayed_doCommand (by simp) 0))

end PrechargeAll

/-! ### What the handlers do -/

section Handlers

variable {rk rk' : Rank p} {off now : Nat}

lemma schedulePowerEvent_eq_ok {st : PowerState} {t : Nat} : rk.schedulePowerEvent st t = .ok rk' ↔
    rk.powerEvent = none ∧ { rk with pwrStateTrans := st, powerEvent := some t } = rk' := by
  simp only [schedulePowerEvent, bind_eq_ok, ensure_eq_ok, Except.ok.injEq, exists_const]

/-- The refresh is under way: the power state machine takes over once all banks are precharged. -/
inductive Precharging (off now : Nat) (rk : Rank p) : Rank p → Prop
  | idle (hidle : rk.pwrState = .pwrIdle) (hpower : rk.powerEvent = none) (hbanks : rk.numBanksActive = 0) :
      Precharging off now rk
        { rk with pwrStateTrans := .pwrRef, powerEvent := some now, refreshState := .refRun }
  | active {mid : Rank p} (hactive : rk.pwrState ≠ .pwrIdle) (hall : rk.prechargeAll off now = .ok mid)
      (hbanks : mid.numBanksActive = 0) :
      Precharging off now rk { mid with refreshState := .refRun }

lemma refreshPrecharge_cases (h : rk.refreshPrecharge off now = .ok rk') : Precharging off now rk rk' := by
  obtain ⟨mid, hall, h⟩ := bind_eq_ok.mp h
  obtain ⟨_, hbanks, h⟩ := bind_eq_ok.mp h
  cases h
  by_cases hidle : rk.pwrState = .pwrIdle
  · unfold prechargeAll at hall
    rw [if_neg (not_not.mpr hidle)] at hall
    obtain ⟨hpower, rfl⟩ := schedulePowerEvent_eq_ok.mp hall
    exact .idle hidle hpower (ensure_eq_ok.mp hbanks)
  · exact .active hidle hall (ensure_eq_ok.mp hbanks)

/-- The rank after a refresh command at tick `now`. -/
def refreshed (rk : Rank p) (off now : Nat) : Rank p :=
  { rk with
    banks := fun b => { rk.banks b with actAllowedAt := add64 now p.tRFC }
    cmdList := rk.cmdList ++ [(.ref, 0, timeStamp p off now)]
    refreshEvent := some (sub64 (add64 rk.refreshDueAt p.tREFI) p.tRP)
    pwrStateTrans := .pwrIdle
    powerEvent := some (add64 now p.tRFC) }

lemma refreshRun_cases (h : rk.refreshRun off now = .ok rk') : rk.numBanksActive = 0 ∧ rk.pwrState = .pwrRef ∧
    add64 now p.tRFC ≤ add64 rk.refreshDueAt p.tREFI ∧ rk.powerEvent = none ∧ rk' = refreshed rk off now := by
  obtain ⟨_, hbanks, h⟩ := bind_eq_ok.mp h
  obtain ⟨_, hpwr, h⟩ := bind_eq_ok.mp h
  obtain ⟨_, htime, h⟩ := bind_eq_ok.mp h
  obtain ⟨hpower, rfl⟩ := schedulePowerEvent_eq_ok.mp h
  exact ⟨ensure_eq_ok.mp hbanks, ensure_eq_ok.mp hpwr, ensure_eq_ok.mp htime, hpower, rfl⟩

/-- What `processRefreshEvent` does in each refresh state. -/
lemma processRefreshEvent_cases {awaiting : Bool} (h : rk.processRefreshEvent off now awaiting = .ok rk') :
    (rk.refreshState = .refRun ∧ rk.refreshRun off now = .ok rk') ∨
    ∃ due, (rk.refreshState = .refIdle ∧ due = now ∨ rk.refreshState ≠ .refIdle ∧ due = rk.refreshDueAt) ∧
      rk.refreshState ≠ .refRun ∧
      (rk' = { rk with refreshState := .refDrain, refreshDueAt := due } ∧ awaiting = true ∧ rk.refreshState ≠ .refPre ∨
        Precharging off now { rk with refreshState := .refPre, refreshDueAt := due } rk') := by
  have hstart : rk.refreshState ≠ .refIdle → rk.startRefresh now = rk := fun hne => if_neg hne
  unfold processRefreshEvent at h
  cases hstate : rk.refreshState with
  | refIdle =>
    have hdrain : rk.startRefresh now = { rk with refreshDueAt := now, refreshState := .refDrain } := if_pos hstate
    rw [hdrain] at h
    refine .inr ⟨now, .inl ⟨rfl, rfl⟩, by simp, ?_⟩
    split at h
    · rename_i hawait
      cases h
      exact .inl ⟨rfl, hawait.2, by simp⟩
    · exact .inr (refreshPrecharge_cases h)
  | refDrain =>
    rw [hstart (by simp [hstate])] at h
    refine .inr ⟨rk.refreshDueAt, .inr ⟨by simp, rfl⟩, by simp, ?_⟩
    split at h
    · rename_i hawait
      cases h
      exact .inl ⟨by rw [← hstate], hawait.2, by simp⟩
    · simp only [leaveDrain, continueRefresh, if_pos hstate] at h
      exact .inr (refreshPrecharge_cases h)
  | refPre =>
    rw [hstart (by simp [hstate]), if_neg (by simp [hstate])] at h
    simp only [leaveDrain, continueRefresh, hstate, reduceCtorEq, if_false, if_true] at h
    refine .inr ⟨rk.refreshDueAt, .inr ⟨by simp, rfl⟩, by simp, .inr ?_⟩
    rw [← hstate]
    exact refreshPrecharge_cases h
  | refRun =>
    rw [hstart (by simp [hstate]), if_neg (by simp [hstate])] at h
    simp only [leaveDrain, continueRefresh, hstate, reduceCtorEq, if_false] at h
    exact .inl ⟨rfl, h⟩

/-- What `processPowerEvent` does in each power state. -/
inductive Powering (off now : Nat) (rk : Rank p) : Rank p → Prop
  | refreshDone (htrans : rk.pwrStateTrans = .pwrIdle) (hpwr : rk.pwrState = .pwrRef) :
      Powering off now rk { rk with pwrState := .pwrIdle, refreshState := .refIdle }
  | active (htrans : rk.pwrStateTrans = .pwrAct) : Powering off now rk { rk with pwrState := .pwrAct }
  | idle (htrans : rk.pwrStateTrans = .pwrIdle) (hpwr : rk.pwrState = .pwrAct) (hstate : rk.refreshState ≠ .refRun) :
      Powering off now rk { rk with pwrState := .pwrIdle }
  | refresh (htrans : rk.pwrStateTrans = .pwrRef ∨ rk.pwrStateTrans = .pwrIdle ∧ rk.pwrState = .pwrAct)
      (hstate : rk.refreshState = .refRun) (hbanks : rk.numBanksActive = 0)
      (htime : add64 now p.tRFC ≤ add64 rk.refreshDueAt p.tREFI) :
      Powering off now rk (refreshed { rk with pwrState := .pwrRef } off now)

lemma kickRefresh_cases (hpwr : rk.pwrState = .pwrRef) (h : rk.kickRefresh off now = .ok rk') :
    rk.refreshState = .refRun ∧ rk.refreshRun off now = .ok rk' := by
  unfold kickRefresh at h
  rw [if_pos hpwr] at h
  obtain ⟨_, hstate, h⟩ := bind_eq_ok.mp h
  have hstate := ensure_eq_ok.mp hstate
  rcases processRefreshEvent_cases h with hrun | ⟨due, -, hne, -⟩
  · exact hrun
  · exact absurd hstate hne

lemma processPowerEvent_cases {kick : Bool} (h : rk.processPowerEvent off now = .ok (rk', kick)) :
    Powering off now rk rk' := by
  unfold processPowerEvent at h
  split at h
  · rename_i hdone
    cases h
    exact .refreshDone hdone.1 hdone.2
  · obtain ⟨_, hact, h⟩ := bind_eq_ok.mp h
    obtain ⟨mid, hkick, h⟩ := bind_eq_ok.mp h
    cases h
    have hact := ensure_eq_ok.mp hact
    cases htrans : rk.pwrStateTrans with
    | pwrAct =>
      have henter : ({ rk with pwrState := rk.pwrStateTrans } : Rank p).enterRefresh =
          { rk with pwrState := .pwrAct } := by simp [enterRefresh, htrans]
      rw [henter, kickRefresh, if_neg (by simp)] at hkick
      cases hkick
      exact .active htrans
    | pwrRef =>
      have henter : ({ rk with pwrState := rk.pwrStateTrans } : Rank p).enterRefresh =
          { rk with pwrState := .pwrRef } := by simp [enterRefresh, htrans]
      rw [henter] at hkick
      obtain ⟨hstate, hrun⟩ := kickRefresh_cases rfl hkick
      obtain ⟨hbanks, -, htime, -, rfl⟩ := refreshRun_cases hrun
      exact .refresh (.inl htrans) hstate hbanks htime
    | pwrIdle =>
      by_cases hstate : rk.refreshState = .refRun
      · have henter : ({ rk with pwrState := rk.pwrStateTrans } : Rank p).enterRefresh =
            { rk with pwrState := .pwrRef } := by simp [enterRefresh, htrans, hstate]
        rw [henter] at hkick
        obtain ⟨-, hrun⟩ := kickRefresh_cases rfl hkick
        obtain ⟨hbanks, -, htime, -, rfl⟩ := refreshRun_cases hrun
        exact .refresh (.inr ⟨htrans, hact htrans⟩) hstate hbanks htime
      · have henter : ({ rk with pwrState := rk.pwrStateTrans } : Rank p).enterRefresh =
            { rk with pwrState := .pwrIdle } := by simp [enterRefresh, htrans, hstate]
        rw [henter, kickRefresh, if_neg (by simp)] at hkick
        cases hkick
        exact .idle htrans (hact htrans) hstate

lemma processActivateEvent_cases (h : rk.processActivateEvent now = .ok rk') :
    rk.pwrState = .pwrAct ∧ rk' = rk ∨ rk.pwrState ≠ .pwrAct ∧ rk.powerEvent = none ∧
      rk' = { rk with pwrStateTrans := .pwrAct, powerEvent := some now } := by
  unfold processActivateEvent at h
  split at h
  · rename_i hpwr
    obtain ⟨hnone, rfl⟩ := schedulePowerEvent_eq_ok.mp h
    exact .inr ⟨hpwr, hnone, rfl⟩
  · rename_i hpwr
    cases h
    exact .inl ⟨not_not.mp hpwr, rfl⟩

lemma processPrechargeEvent_cases (h : rk.processPrechargeEvent now = .ok rk') :
    rk.numBanksActive ≠ 0 ∧ rk' = rk ∨ rk.numBanksActive = 0 ∧ rk.powerEvent = none ∧
      rk' = { rk with pwrStateTrans := .pwrIdle, powerEvent := some now } := by
  unfold processPrechargeEvent at h
  split at h
  · rename_i hbanks
    obtain ⟨hnone, rfl⟩ := schedulePowerEvent_eq_ok.mp h
    exact .inr ⟨hbanks, hnone, rfl⟩
  · rename_i hbanks
    cases h
    exact .inl ⟨hbanks, rfl⟩

end Handlers

end MimdramLean.Proofs

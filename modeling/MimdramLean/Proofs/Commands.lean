import MimdramLean.Access
import Mathlib.Logic.Relation

/-!
# What the bank commands do

`activateBank` and `aapBank` are two separately written routines. Both activate a bank in the
sense of `Activates`, which lists what the later proofs need; `Precharges` does the same for
`prechargeBank`. The commands of a row operation are sequences of the two.
-/

namespace MimdramLean.Proofs
open Library Rank

variable {p : Params}

/-- `rk'` is `rk` after an activate of bank `b` at `t`. The bank may be precharged from `pre` on
and takes column commands from `col` on. -/
structure Activates (rk rk' : Rank p) (b : Fin p.banksPerRank) (row : Nat) (t pre col : Nat) : Prop where
  refreshState : rk'.refreshState = rk.refreshState
  history : rk'.history = rk.history ++ [.act b row t]
  numBanksActive : rk'.numBanksActive = rk.numBanksActive + 1
  actTicks : rk'.actTicks = if rk.actTicks = [] then [] else t :: rk.actTicks.dropLast
  openRow : ∀ i, (rk'.banks i).openRow = if i = b then row else (rk.banks i).openRow
  preAllowedAt : ∀ i, (rk'.banks i).preAllowedAt = if i = b then pre else (rk.banks i).preAllowedAt
  colAllowedAt : ∀ i, (rk'.banks i).colAllowedAt =
    if i = b then max col (rk.banks i).colAllowedAt else (rk.banks i).colAllowedAt
  actAllowedAt : ∀ i, (rk.banks i).actAllowedAt ≤ (rk'.banks i).actAllowedAt
  actAtMost : ∀ i, (rk'.banks i).actAllowedAt ≤
    max (max (t + rrdDelay p b i) (rk.banks i).actAllowedAt) (rk'.oldestAct + p.tXAW)
  rrd : ∀ i, add64 t (rrdDelay p b i) ≤ (rk'.banks i).actAllowedAt
  xaw : ∀ i, t ≤ add64 t (rrdDelay p b i) → rk'.oldestAct ≠ 0 → rk'.oldestAct ≤ t →
    add64 rk'.oldestAct p.tXAW ≤ (rk'.banks i).actAllowedAt

/-- `rk'` is `rk` after a precharge of bank `b` at `t`. -/
structure Precharges (rk rk' : Rank p) (b : Fin p.banksPerRank) (t : Nat) : Prop where
  refreshState : rk'.refreshState = rk.refreshState
  history : rk'.history = rk.history ++ [.pre b t]
  numBanksActive : rk'.numBanksActive = rk.numBanksActive - 1
  actTicks : rk'.actTicks = rk.actTicks
  openRow : ∀ i, (rk'.banks i).openRow = if i = b then Row.noRow else (rk.banks i).openRow
  preAllowedAt : ∀ i, (rk'.banks i).preAllowedAt = if i = b then t else (rk.banks i).preAllowedAt
  colAllowedAt : ∀ i, (rk'.banks i).colAllowedAt = (rk.banks i).colAllowedAt
  actAllowedAt : ∀ i, (rk.banks i).actAllowedAt ≤ (rk'.banks i).actAllowedAt
  actAtMost : ∀ i, (rk'.banks i).actAllowedAt ≤ max (rk.banks i).actAllowedAt (t + p.tRP)
  rp : add64 t p.tRP ≤ (rk'.banks b).actAllowedAt

/-! ### The window -/

/-- Both window routines leave everything but the window and `actAllowedAt` alone. -/
structure Windowed (rk rk' : Rank p) (t : Nat) : Prop where
  rest : rk' = { rk with actTicks := rk'.actTicks, banks := rk'.banks }
  actTicks : rk'.actTicks = if rk.actTicks = [] then [] else t :: rk.actTicks.dropLast
  bank : ∀ i, rk'.banks i = { rk.banks i with actAllowedAt := (rk'.banks i).actAllowedAt }
  actAllowedAt : ∀ i, (rk.banks i).actAllowedAt ≤ (rk'.banks i).actAllowedAt
  actAtMost : ∀ i, (rk'.banks i).actAllowedAt ≤ max (rk.banks i).actAllowedAt (rk'.oldestAct + p.tXAW)
  xaw : ∀ i, t ≤ (rk.banks i).actAllowedAt → rk'.oldestAct ≠ 0 → rk'.oldestAct ≤ t →
    add64 rk'.oldestAct p.tXAW ≤ (rk'.banks i).actAllowedAt

lemma oldestAct_of_nil {rk : Rank p} (h : rk.actTicks = []) : rk.oldestAct = 0 := by
  simp [oldestAct, h]

lemma oldestAct_le {rk : Rank p} {T : Nat} (h : ∀ t ∈ rk.actTicks, t ≤ T) : rk.oldestAct ≤ T := by
  unfold oldestAct
  rw [List.getLastD_eq_getLast?]
  cases hl : rk.actTicks.getLast? with
  | none => exact Nat.zero_le _
  | some y => exact h y (List.mem_of_getLast? hl)

/-- Without an activation limit there is no window. -/
lemma windowed_of_nil {rk : Rank p} (hnil : rk.actTicks = []) (t : Nat) : Windowed rk rk t :=
  ⟨rfl, by simp [hnil], fun _ => rfl, fun _ => le_rfl, fun _ => le_max_left _ _,
    fun _ _ hne => absurd (oldestAct_of_nil hnil) hne⟩

lemma windowed_holdActs {rk : Rank p} (hne : rk.actTicks ≠ []) (t : Nat) :
    Windowed rk ((rk.pushAct t).holdActs (add64 (rk.pushAct t).oldestAct p.tXAW)) t := by
  refine ⟨rfl, by simp [holdActs, pushAct, hne], fun _ => rfl, ?_, ?_, ?_⟩
  · exact fun i => le_max_right _ _
  · intro i
    exact max_le (le_trans (add64_le _ _) (le_max_right _ _)) (le_max_left _ _)
  · exact fun i _ _ _ => le_max_left _ _

lemma windowed_pushAct {rk : Rank p} (hne : rk.actTicks ≠ []) {t : Nat}
    (hout : (rk.pushAct t).oldestAct ≠ 0 → (rk.pushAct t).oldestAct ≤ t →
      add64 (rk.pushAct t).oldestAct p.tXAW ≤ t) : Windowed rk (rk.pushAct t) t := by
  refine ⟨rfl, by simp [pushAct, hne], fun _ => rfl, fun _ => le_rfl, fun _ => le_max_left _ _, ?_⟩
  intro i ht hold hle
  exact le_trans (hout hold hle) ht

lemma windowed_enforceXAW (rk : Rank p) (t : Nat) : Windowed rk (rk.enforceXAW t) t := by
  by_cases hnil : rk.actTicks = []
  · have h : rk.enforceXAW t = rk := by simp [enforceXAW, hnil]
    rw [h]
    exact windowed_of_nil hnil t
  · by_cases hin : (rk.pushAct t).WithinXAW t
    · have h : rk.enforceXAW t = (rk.pushAct t).holdActs (add64 (rk.pushAct t).oldestAct p.tXAW) := by
        simp [enforceXAW, hnil, hin]
      rw [h]
      exact windowed_holdActs hnil t
    · have h : rk.enforceXAW t = rk.pushAct t := by simp [enforceXAW, hnil, hin]
      rw [h]
      refine windowed_pushAct hnil fun hne hle => ?_
      have hout : ¬sub64 t (rk.pushAct t).oldestAct < p.tXAW := fun hlt => hin ⟨hne, hlt⟩
      have hlimit := add64_le (rk.pushAct t).oldestAct p.tXAW
      rw [sub64_of_le hle] at hout
      omega

lemma windowed_enforceXAWOfAap (rk : Rank p) (t : Nat) : Windowed rk (rk.enforceXAWOfAap t) t := by
  by_cases hnil : rk.actTicks = []
  · have h : rk.enforceXAWOfAap t = rk := by simp [enforceXAWOfAap, hnil]
    rw [h]
    exact windowed_of_nil hnil t
  · by_cases hin : (rk.pushAct t).oldestAct ≠ 0 ∧ t < add64 (rk.pushAct t).oldestAct p.tXAW
    · have h : rk.enforceXAWOfAap t = (rk.pushAct t).holdActs (add64 (rk.pushAct t).oldestAct p.tXAW) := by
        simp only [enforceXAWOfAap, if_neg hnil, if_pos hin]
      rw [h]
      exact windowed_holdActs hnil t
    · have h : rk.enforceXAWOfAap t = rk.pushAct t := by
        simp only [enforceXAWOfAap, if_neg hnil, if_neg hin]
      rw [h]
      refine windowed_pushAct hnil fun hne _ => ?_
      exact Nat.le_of_not_lt fun hlt => hin ⟨hne, hlt⟩

/-! ### Activates and precharges -/

lemma scheduleActivate_eq (rk : Rank p) (t : Nat) :
    rk.scheduleActivate t = { rk with activateEvent := (rk.scheduleActivate t).activateEvent } := by
  unfold scheduleActivate
  split
  · rfl
  · split <;> rfl

lemma schedulePrecharge_eq (rk : Rank p) (t : Nat) :
    rk.schedulePrecharge t = { rk with prechargeEvent := (rk.schedulePrecharge t).prechargeEvent } := by
  unfold schedulePrecharge
  split
  · rfl
  · split <;> rfl

/-- The common end of the two activate routines: from a rank whose bank has been opened, enforce
tRRD and the window, schedule the activate event and record the command. -/
lemma activates_of_opened {rk opened windowed : Rank p} {b : Fin p.banksPerRank} {row t pre col : Nat}
    (hw : Windowed (opened.enforceRRD b t) windowed t)
    (hrest : opened.refreshState = rk.refreshState ∧ opened.history = rk.history ∧
      opened.numBanksActive = rk.numBanksActive + 1 ∧ opened.actTicks = rk.actTicks)
    (hopened : opened.banks = Function.update rk.banks b
      ⟨row, max col (rk.banks b).colAllowedAt, pre, (rk.banks b).actAllowedAt, 0⟩) :
    Activates rk ((windowed.scheduleActivate t).record (.act b row t)) b row t pre col := by
  obtain ⟨hrs, hh, hn, ha⟩ := hrest
  have hrrd : ∀ i, ((opened.enforceRRD b t).banks i).actAllowedAt =
      max (add64 t (rrdDelay p b i)) (rk.banks i).actAllowedAt := by
    intro i
    by_cases hi : i = b
    · subst hi
      simp [enforceRRD, hopened]
    · simp [enforceRRD, hopened, hi]
  -- apart from `actAllowedAt`, the banks are those of the opened rank
  have hbank : ∀ i, windowed.banks i =
      { opened.banks i with actAllowedAt := (windowed.banks i).actAllowedAt } := hw.bank
  have hrs' : windowed.refreshState = opened.refreshState := by rw [hw.rest]; rfl
  have hh' : windowed.history = opened.history := by rw [hw.rest]; rfl
  have hn' : windowed.numBanksActive = opened.numBanksActive := by rw [hw.rest]; rfl
  rw [scheduleActivate_eq]
  refine ⟨hrs'.trans hrs, ?_, hn'.trans hn, ?_, ?_, ?_, ?_, ?_, ?_, ?_, ?_⟩
  · simp only [record, hh', hh]
  · simpa only [record, enforceRRD, ha] using hw.actTicks
  · intro i
    simp only [record]
    rw [hbank i, hopened, Function.update_apply]
    split <;> rfl
  · intro i
    simp only [record]
    rw [hbank i, hopened, Function.update_apply]
    split <;> rfl
  · intro i
    simp only [record]
    rw [hbank i, hopened, Function.update_apply]
    split
    · subst i
      rfl
    · rfl
  · intro i
    exact le_trans (by rw [hrrd]; exact le_max_right _ _) (hw.actAllowedAt i)
  · intro i
    refine le_trans (hw.actAtMost i) (max_le_max_right _ ?_)
    rw [hrrd]
    exact max_le_max_right _ (add64_le _ _)
  · intro i
    exact le_trans (by rw [hrrd]; exact le_max_left _ _) (hw.actAllowedAt i)
  · intro i ht hne hle
    exact hw.xaw i (by rw [hrrd]; exact le_trans ht (le_max_left _ _)) hne hle

lemma Activates.le_colAllowedAt {rk rk' : Rank p} {b : Fin p.banksPerRank} {row t pre col : Nat}
    (h : Activates rk rk' b row t pre col) (i : Fin p.banksPerRank) :
    (rk.banks i).colAllowedAt ≤ (rk'.banks i).colAllowedAt := by
  rw [h.colAllowedAt]
  split
  · exact le_max_right _ _
  · exact le_rfl

lemma activated_activates (rk : Rank p) (off : Nat) (b : Fin p.banksPerRank) (t row : Nat) :
    Activates rk (rk.activated off b t row) b row t (add64 t p.tRAS) (add64 t p.tRCD) := by
  refine activates_of_opened (windowed_enforceXAW _ t) ⟨rfl, rfl, rfl, rfl⟩ ?_
  simp [setBank, openBank, doCommand]

lemma doubleActivated_activates (rk : Rank p) (b : Fin p.banksPerRank) (t : Nat) (ov : Bool) :
    Activates rk (rk.doubleActivated b t ov) b Row.doubleRow t
      (add64 (add64 t p.tRAS) (if ov then p.tWLOV else p.tWL)) 0 := by
  refine activates_of_opened (windowed_enforceXAWOfAap _ t) ⟨rfl, rfl, rfl, rfl⟩ ?_
  simp [setBank, openBank]

lemma precharged_eq (rk : Rank p) (off : Nat) (b : Fin p.banksPerRank) (t : Nat) (trace : Bool) :
    ∃ ev cmds, rk.precharged off b t trace =
      { rk with
        banks := Function.update rk.banks b { rk.banks b with
          openRow := Row.noRow
          preAllowedAt := t
          actAllowedAt := max (rk.banks b).actAllowedAt (add64 t p.tRP) }
        numBanksActive := rk.numBanksActive - 1
        prechargeEvent := ev
        cmdList := cmds
        history := rk.history ++ [.pre b t] } := by
  simp only [precharged]
  rw [schedulePrecharge_eq]
  cases trace <;> exact ⟨_, _, rfl⟩

lemma precharged_precharges (rk : Rank p) (off : Nat) (b : Fin p.banksPerRank) (t : Nat) (trace : Bool) :
    Precharges rk (rk.precharged off b t trace) b t := by
  obtain ⟨ev, cmds, heq⟩ := precharged_eq rk off b t trace
  rw [heq]
  refine ⟨rfl, rfl, rfl, rfl, ?_, ?_, ?_, ?_, ?_, ?_⟩
  · intro i
    simp only [Function.update_apply]
    split <;> rfl
  · intro i
    simp only [Function.update_apply]
    split <;> rfl
  · intro i
    simp only [Function.update_apply]
    split
    · subst i
      rfl
    · rfl
  · intro i
    simp only [Function.update_apply]
    split
    · subst i
      exact le_max_left _ _
    · exact le_rfl
  · intro i
    simp only [Function.update_apply]
    split
    · subst i
      exact max_le_max_left _ (add64_le _ _)
    · exact le_max_left _ _
  · simp only [Function.update_self]
    exact le_max_right _ _

lemma canOpen_eq_ok {rk : Rank p} {b : Fin p.banksPerRank} {u : Unit} :
    rk.canOpen b = .ok u ↔
      (rk.banks b).openRow = Row.noRow ∧ rk.numBanksActive + 1 ≤ p.banksPerRank := by
  simp [canOpen, bind_eq_ok]

lemma activateBank_eq_ok {rk rk' : Rank p} {off : Nat} {b : Fin p.banksPerRank} {t row : Nat} :
    rk.activateBank off b t row = .ok rk' ↔
      rk.actTicks.length = p.activationLimit ∧ (rk.banks b).openRow = Row.noRow ∧
      rk.numBanksActive + 1 ≤ p.banksPerRank ∧ (rk.actTicks = [] ∨ ¬rk.WithinXAW t) ∧
      rk.activated off b t row = rk' := by
  simp only [activateBank, bind_eq_ok, ensure_eq_ok, canOpen_eq_ok, Except.ok.injEq, exists_const,
    and_assoc]

lemma prechargeBank_eq_ok {rk rk' : Rank p} {off : Nat} {b : Fin p.banksPerRank} {t : Nat} {trace : Bool} :
    rk.prechargeBank off b t trace = .ok rk' ↔
      (rk.banks b).openRow ≠ Row.noRow ∧ rk.numBanksActive ≠ 0 ∧ rk.precharged off b t trace = rk' := by
  simp only [prechargeBank, bind_eq_ok, ensure_eq_ok, Except.ok.injEq, exists_const]

/-! ### Sequences of commands -/

/-- `rk'` is `rk` after one activate or one precharge. -/
def CommandStep (rk rk' : Rank p) : Prop :=
  (∃ b row t pre col, Activates rk rk' b row t pre col) ∨ ∃ b t, Precharges rk rk' b t

/-- `rk'` is `rk` after some activates and precharges. -/
abbrev Commanded : Rank p → Rank p → Prop := Relation.ReflTransGen CommandStep

lemma Activates.commanded {rk rk' : Rank p} {b : Fin p.banksPerRank} {row t pre col : Nat}
    (h : Activates rk rk' b row t pre col) : Commanded rk rk' :=
  .single (.inl ⟨b, row, t, pre, col, h⟩)

lemma Precharges.commanded {rk rk' : Rank p} {b : Fin p.banksPerRank} {t : Nat}
    (h : Precharges rk rk' b t) : Commanded rk rk' :=
  .single (.inr ⟨b, t, h⟩)

lemma prechargeBank_commanded {rk rk' : Rank p} {off : Nat} {b : Fin p.banksPerRank} {t : Nat}
    {trace : Bool} (h : rk.prechargeBank off b t trace = .ok rk') : Commanded rk rk' := by
  obtain ⟨-, -, rfl⟩ := prechargeBank_eq_ok.mp h
  exact (precharged_precharges rk off b t trace).commanded

lemma activateBank_commanded {rk rk' : Rank p} {off : Nat} {b : Fin p.banksPerRank} {t row : Nat}
    (h : rk.activateBank off b t row = .ok rk') : Commanded rk rk' := by
  obtain ⟨-, -, -, -, rfl⟩ := activateBank_eq_ok.mp h
  exact (activated_activates rk off b t row).commanded

lemma issue_commanded {rk rk' : Rank p} {off : Nat} {b : Fin p.banksPerRank} {t : Nat} {c : BankCommand}
    (h : rk.issue off b t c = .ok rk') : Commanded rk rk' := by
  cases c with
  | ap row =>
    obtain ⟨mid, hact, hpre⟩ := bind_eq_ok.mp h
    exact (activateBank_commanded hact).trans (prechargeBank_commanded hpre)
  | aap row1 row2 ov =>
    obtain ⟨-, -, hpre⟩ := bind_eq_ok.mp h
    exact (doubleActivated_activates rk b t ov).commanded.trans (prechargeBank_commanded hpre)

lemma issueAll_commanded {rk : Rank p} {off : Nat} {b : Fin p.banksPerRank} {t : Nat}
    {cs : List BankCommand} {r : Rank p × Nat} (h : rk.issueAll off b t cs = .ok r) : Commanded rk r.1 := by
  induction cs generalizing rk t with
  | nil =>
    cases h
    exact .refl
  | cons c cs ih =>
    obtain ⟨mid, hc, hrest⟩ := bind_eq_ok.mp h
    exact (issue_commanded hc).trans (ih hrest)

lemma closeBank_commanded {rk rk' : Rank p} {off : Nat} {b : Fin p.banksPerRank} {now : Nat}
    (h : rk.closeBank off b now = .ok rk') : Commanded rk rk' := by
  unfold closeBank at h
  split at h
  · exact prechargeBank_commanded h
  · cases h
    exact .refl

lemma openRow_commanded {c : Channel p} {now : Nat} {d : DRAMPacket p} {r : Rank p × Nat}
    (h : c.openRow now d = .ok r) : Commanded (c.ranks d.rank) r.1 := by
  unfold Channel.openRow at h
  split at h
  · cases h
    exact .refl
  · obtain ⟨mid, hclose, h⟩ := bind_eq_ok.mp h
    obtain ⟨rk, hact, h⟩ := bind_eq_ok.mp h
    cases h
    exact (closeBank_commanded hclose).trans (activateBank_commanded hact)

lemma closeRow_commanded {rk rk' : Rank p} {off now : Nat} {d : DRAMPacket p} {rest : List (DRAMPacket p)}
    (h : Channel.closeRow rk off now d rest = .ok rk') : Commanded rk rk' := by
  unfold Channel.closeRow at h
  split at h
  · exact prechargeBank_commanded h
  · cases h
    exact .refl

lemma commanded_refreshState {rk rk' : Rank p} (h : Commanded rk rk') :
    rk'.refreshState = rk.refreshState := by
  induction h with
  | refl => rfl
  | tail _ hstep ih =>
    rcases hstep with ⟨b, row, t, pre, col, hact⟩ | ⟨b, t, hpre⟩
    · exact hact.refreshState.trans ih
    · exact hpre.refreshState.trans ih

/-- No command lets a bank take column commands earlier. -/
lemma commanded_colAllowedAt {rk rk' : Rank p} (h : Commanded rk rk') (b : Fin p.banksPerRank) :
    (rk.banks b).colAllowedAt ≤ (rk'.banks b).colAllowedAt := by
  induction h with
  | refl => exact le_rfl
  | tail _ hstep ih =>
    rcases hstep with ⟨b', row, t, pre, col, hact⟩ | ⟨b', t, hpre⟩
    · exact le_trans ih (hact.le_colAllowedAt b)
    · rwa [hpre.colAllowedAt]

lemma countAccess_ranks (c : Channel p) (d : DRAMPacket p) : (c.countAccess d).ranks = c.ranks := by
  unfold Channel.countAccess
  split <;> rfl

lemma countAccess_pendingRowOps (c : Channel p) (d : DRAMPacket p) :
    (c.countAccess d).pendingRowOps = c.pendingRowOps := by
  unfold Channel.countAccess
  split <;> rfl

lemma countAccess_busBusyUntil (c : Channel p) (d : DRAMPacket p) :
    (c.countAccess d).busBusyUntil = c.busBusyUntil := by
  unfold Channel.countAccess
  split <;> rfl

lemma countAccess_timeStampOffset (c : Channel p) (d : DRAMPacket p) :
    (c.countAccess d).timeStampOffset = c.timeStampOffset := by
  unfold Channel.countAccess
  split <;> rfl

/-! ### Failures of commands -/

/-- The assertions of `activateBank`, `aapBank` and `prechargeBank`. -/
def CommandFailure (e : Failure) : Prop :=
  e = .actTicksSize ∨ e = .bankOpen ∨ e = .tooManyActive ∨ e = .activationWindow ∨
    e = .bankClosed ∨ e = .noneActive

lemma canOpen_raises (rk : Rank p) (b : Fin p.banksPerRank) : Raises (rk.canOpen b) CommandFailure :=
  (raises_ensure (fun _ => by simp [CommandFailure])).bind
    fun _ _ => raises_ensure (fun _ => by simp [CommandFailure])

lemma prechargeBank_raises (rk : Rank p) (off : Nat) (b : Fin p.banksPerRank) (t : Nat) (trace : Bool) :
    Raises (rk.prechargeBank off b t trace) CommandFailure := by
  refine (raises_ensure (fun _ => by simp [CommandFailure])).bind fun _ _ => ?_
  exact (raises_ensure (fun _ => by simp [CommandFailure])).bind fun _ _ => raises_ok

lemma activateBank_raises (rk : Rank p) (off : Nat) (b : Fin p.banksPerRank) (t row : Nat) :
    Raises (rk.activateBank off b t row) CommandFailure := by
  refine (raises_ensure (fun _ => by simp [CommandFailure])).bind fun _ _ => ?_
  refine (canOpen_raises rk b).bind fun _ _ => ?_
  exact (raises_ensure (fun _ => by simp [CommandFailure])).bind fun _ _ => raises_ok

lemma issueAll_raises (rk : Rank p) (off : Nat) (b : Fin p.banksPerRank) (t : Nat)
    (cs : List BankCommand) : Raises (rk.issueAll off b t cs) CommandFailure := by
  induction cs generalizing rk t with
  | nil => exact raises_ok
  | cons c cs ih =>
    refine Raises.bind ?_ fun mid _ => ih mid _
    cases c with
    | ap row =>
      exact (activateBank_raises rk off b t row).bind fun mid _ => prechargeBank_raises mid off b _ true
    | aap row1 row2 ov =>
      exact (canOpen_raises rk b).bind fun _ _ => prechargeBank_raises _ off b _ true

lemma closeBank_raises (rk : Rank p) (off : Nat) (b : Fin p.banksPerRank) (now : Nat) :
    Raises (rk.closeBank off b now) CommandFailure := by
  unfold closeBank
  split
  · exact prechargeBank_raises rk off b _ true
  · exact raises_ok

lemma openRow_raises (c : Channel p) (now : Nat) (d : DRAMPacket p) :
    Raises (c.openRow now d) CommandFailure := by
  unfold Channel.openRow
  split
  · exact raises_ok
  · refine (closeBank_raises _ _ _ _).bind fun mid _ => ?_
    exact (activateBank_raises mid _ _ _ _).bind fun _ _ => raises_ok

lemma closeRow_raises (rk : Rank p) (off now : Nat) (d : DRAMPacket p) (rest : List (DRAMPacket p)) :
    Raises (Channel.closeRow rk off now d rest) CommandFailure := by
  unfold Channel.closeRow
  split
  · exact prechargeBank_raises rk off d.bank _ true
  · exact raises_ok

/-- The data of a column command at `t` is on the bus after `bus`. -/
def BurstFits (p : Params) (bus t : Nat) : Prop :=
  p.tBURST ≤ sub64 (add64 (add64 (max t (sub64 bus p.tCL)) p.tCL) p.tBURST) bus

/-- An access fails in one of its commands, or because its burst does not fit on the data bus. -/
theorem doDRAMAccess_raises {c : Channel p} {now : Nat} {d : DRAMPacket p} {P : Failure → Prop}
    (hcommand : ∀ e, CommandFailure e → P e)
    (hburst : ∀ r, c.openRow now d = .ok r → BurstFits p c.busBusyUntil r.2 ∨ P .busOverlap)
    (rest : List (DRAMPacket p)) : Raises (c.doDRAMAccess now d rest) P := by
  unfold Channel.doDRAMAccess
  split
  · refine ((closeBank_raises _ _ _ _).mono hcommand).bind fun mid _ => ?_
    exact ((issueAll_raises _ _ _ _ _).mono hcommand).bind fun _ _ => raises_ok
  · refine ((openRow_raises _ _ _).mono hcommand).bind fun r hopen => ?_
    refine Raises.bind (raises_ensure ?_) fun _ _ => ?_
    · exact (hburst r hopen).resolve_left
    · exact ((closeRow_raises _ _ _ _ _).mono hcommand).bind fun _ _ => raises_ok

end MimdramLean.Proofs

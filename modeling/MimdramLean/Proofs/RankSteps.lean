import MimdramLean.Proofs.Timing
import MimdramLean.Proofs.QueueInvariants

/-!
# What happens to a rank

Everything that an event of the controller does to one rank is a sequence of small changes: activates and
precharges of an available rank, column commands, the end of a drain, and the rank's own events.
-/

namespace MimdramLean.Proofs
open Library Rank

variable {p : Params}

/-! ### Accesses -/

/-- What only the events of a rank change. -/
structure RankControl where
  refreshState : RefreshState
  refreshDueAt : Nat
  pwrState : PowerState
  pwrStateTrans : PowerState
  refreshEvent : Option Nat
  powerEvent : Option Nat

def control (rk : Rank p) : RankControl :=
  ⟨rk.refreshState, rk.refreshDueAt, rk.pwrState, rk.pwrStateTrans, rk.refreshEvent, rk.powerEvent⟩

/-- The refreshes in a log of commands. -/
def refreshes (log : List (MemCommand × Nat × Nat)) : List (MemCommand × Nat × Nat) :=
  log.filter fun c => decide (c.1 = .ref)

/-- `rk'` is `rk` with banks that have to wait longer. Column commands, of this rank or another one, do that. -/
structure BanksDelayed (rk rk' : Rank p) : Prop where
  control : control rk' = control rk
  numBanksActive : rk'.numBanksActive = rk.numBanksActive
  activateEvent : rk'.activateEvent = rk.activateEvent
  prechargeEvent : rk'.prechargeEvent = rk.prechargeEvent
  openRow : ∀ i, (rk'.banks i).openRow = (rk.banks i).openRow
  preAllowedAt : ∀ i, (rk.banks i).preAllowedAt ≤ (rk'.banks i).preAllowedAt
  actAllowedAt : ∀ i, (rk.banks i).actAllowedAt ≤ (rk'.banks i).actAllowedAt
  refreshes : refreshes rk'.cmdList = refreshes rk.cmdList
  actTicks : rk'.actTicks = rk.actTicks
  activates : activates rk'.history = activates rk.history
  rowCommands : ∀ b, rowCommands b rk'.history = rowCommands b rk.history
  history : rk.history <+: rk'.history

lemma BanksDelayed.refl (rk : Rank p) : BanksDelayed rk rk :=
  ⟨rfl, rfl, rfl, rfl, fun _ => rfl, fun _ => le_rfl, fun _ => le_rfl, rfl, rfl, rfl, fun _ => rfl, List.prefix_rfl⟩

lemma BanksDelayed.trans {rk₁ rk₂ rk₃ : Rank p} (h : BanksDelayed rk₁ rk₂) (h' : BanksDelayed rk₂ rk₃) :
    BanksDelayed rk₁ rk₃ where
  control := h'.control.trans h.control
  numBanksActive := h'.numBanksActive.trans h.numBanksActive
  activateEvent := h'.activateEvent.trans h.activateEvent
  prechargeEvent := h'.prechargeEvent.trans h.prechargeEvent
  openRow := fun i => (h'.openRow i).trans (h.openRow i)
  preAllowedAt := fun i => (h.preAllowedAt i).trans (h'.preAllowedAt i)
  actAllowedAt := fun i => (h.actAllowedAt i).trans (h'.actAllowedAt i)
  refreshes := h'.refreshes.trans h.refreshes
  actTicks := h'.actTicks.trans h.actTicks
  activates := h'.activates.trans h.activates
  rowCommands := fun b => (h'.rowCommands b).trans (h.rowCommands b)
  history := h.history.trans h'.history

/-- One change of a rank by an access. -/
inductive AccessChange (rk : Rank p) : Rank p → Prop
  | activate (off : Nat) (b : Fin p.banksPerRank) (t row : Nat) (hclosed : (rk.banks b).openRow = Row.noRow)
      (hrow : row ≠ Row.noRow) (ht : (rk.banks b).actAllowedAt ≤ t) : AccessChange rk (rk.activated off b t row)
  | double (b : Fin p.banksPerRank) (t : Nat) (ov : Bool) (hclosed : (rk.banks b).openRow = Row.noRow)
      (ht : (rk.banks b).actAllowedAt ≤ t) : AccessChange rk (rk.doubleActivated b t ov)
  | precharge (off : Nat) (b : Fin p.banksPerRank) (t : Nat) (trace : Bool)
      (hopen : (rk.banks b).openRow ≠ Row.noRow) (ht : (rk.banks b).preAllowedAt ≤ t) :
      AccessChange rk (rk.precharged off b t trace)
  | held {rk' : Rank p} (h : BanksDelayed rk rk') : AccessChange rk rk'

abbrev Accessed : Rank p → Rank p → Prop := Relation.ReflTransGen AccessChange

section Commands

variable {rk rk' : Rank p} {off now t : Nat} {b : Fin p.banksPerRank}

lemma prechargeBank_accessed {trace : Bool} (ht : (rk.banks b).preAllowedAt ≤ t)
    (h : rk.prechargeBank off b t trace = .ok rk') : Accessed rk rk' := by
  obtain ⟨hopen, -, rfl⟩ := prechargeBank_eq_ok.mp h
  exact .single (.precharge off b t trace hopen ht)

lemma activateBank_accessed {row : Nat} (hrow : row ≠ Row.noRow) (ht : (rk.banks b).actAllowedAt ≤ t)
    (h : rk.activateBank off b t row = .ok rk') : Accessed rk rk' := by
  obtain ⟨-, hclosed, -, -, rfl⟩ := activateBank_eq_ok.mp h
  exact .single (.activate off b t row hclosed hrow ht)

lemma closeBank_accessed (h : rk.closeBank off b now = .ok rk') : Accessed rk rk' := by
  unfold closeBank at h
  split at h
  · exact prechargeBank_accessed (le_max_left _ _) h
  · cases h
    exact .refl

lemma issue_accessed {c : BankCommand} (hc : c ≠ .ap Row.noRow) (ht : (rk.banks b).actAllowedAt ≤ t)
    (h : rk.issue off b t c = .ok rk') : Accessed rk rk' := by
  cases c with
  | ap row =>
    obtain ⟨mid, hact, hpre⟩ := bind_eq_ok.mp h
    have hrow : row ≠ Row.noRow := fun hrow => hc (hrow ▸ rfl)
    exact (activateBank_accessed hrow ht hact).trans (prechargeBank_accessed le_rfl hpre)
  | aap row1 row2 ov =>
    obtain ⟨_, hcan, hpre⟩ := bind_eq_ok.mp h
    obtain ⟨hclosed, -⟩ := canOpen_eq_ok.mp hcan
    exact .head (.double b t ov hclosed ht) (prechargeBank_accessed le_rfl hpre)

lemma issueAll_accessed {cs : List BankCommand} {r : Rank p × Nat} (hcs : ∀ c ∈ cs, c ≠ .ap Row.noRow)
    (ht : (rk.banks b).actAllowedAt ≤ t) (h : rk.issueAll off b t cs = .ok r) : Accessed rk r.1 := by
  induction cs generalizing rk t with
  | nil =>
    cases h
    exact .refl
  | cons c cs ih =>
    obtain ⟨mid, hc, hrest⟩ := bind_eq_ok.mp h
    exact (issue_accessed (hcs c (by simp)) ht hc).trans (ih (fun c' hc' => hcs c' (by simp [hc'])) le_rfl hrest)

lemma openRow_accessed {c : Channel p} {d : DRAMPacket p} {r : Rank p × Nat} (h : c.openRow now d = .ok r) :
    Accessed (c.ranks d.rank) r.1 := by
  unfold Channel.openRow at h
  split at h
  · cases h
    exact .refl
  · obtain ⟨mid, hclose, h⟩ := bind_eq_ok.mp h
    obtain ⟨rk, hact, h⟩ := bind_eq_ok.mp h
    cases h
    exact (closeBank_accessed hclose).trans (activateBank_accessed d.row.isLt.ne (le_max_left _ _) hact)

lemma closeRow_accessed {d : DRAMPacket p} {rest : List (DRAMPacket p)}
    (h : Channel.closeRow rk off now d rest = .ok rk') : Accessed rk rk' := by
  unfold Channel.closeRow at h
  split at h
  · exact prechargeBank_accessed (le_max_right _ _) h
  · cases h
    exact .refl

lemma refreshes_snoc {log : List (MemCommand × Nat × Nat)} {c : MemCommand × Nat × Nat} (hc : c.1 ≠ .ref) :
    refreshes (log ++ [c]) = refreshes log := by
  simp [refreshes, List.filter_append, hc]

lemma banksDelayed_doCommand {cmd : MemCommand} (hcmd : cmd ≠ .ref) (i : Nat) :
    BanksDelayed rk (rk.doCommand off cmd i t) where
  control := rfl
  numBanksActive := rfl
  activateEvent := rfl
  prechargeEvent := rfl
  openRow := fun _ => rfl
  preAllowedAt := fun _ => le_rfl
  actAllowedAt := fun _ => le_rfl
  refreshes := refreshes_snoc hcmd
  actTicks := rfl
  activates := rfl
  rowCommands := fun _ => rfl
  history := List.prefix_rfl

end Commands

section Channel

variable {c : Channel p} {now : Nat} {d : DRAMPacket p} {rest : List (DRAMPacket p)} {r : DRAMPacket p × Channel p}

lemma doRowOp_accessed {op : RowOp} (h : c.doRowOp now d op = .ok r) :
    Accessed (c.ranks d.rank) (r.2.ranks d.rank) ∧ (∀ i, i ≠ d.rank → r.2.ranks i = c.ranks i) ∧
      r.2.timeStampOffset = c.timeStampOffset := by
  obtain ⟨mid, hclose, h⟩ := bind_eq_ok.mp h
  obtain ⟨⟨rk, cmdAt⟩, hissue, h⟩ := bind_eq_ok.mp h
  cases h
  have haccess := (closeBank_accessed hclose).trans
    (issueAll_accessed (rowOpCommands_ne _ _ _ _) (le_max_right _ _) hissue)
  refine ⟨?_, fun i hi => ?_, rfl⟩
  · simpa [Channel.setBusy, Channel.setRank] using haccess
  · simp [Channel.setBusy, Channel.setRank, hi]

/-- A column command holds back the other columns of the channel. -/
lemma banksDelayed_holdCols (c : Channel p) (d : DRAMPacket p) (cmdAt : Nat) (i : Fin p.ranksPerChannel) :
    BanksDelayed (c.ranks i) ((c.holdCols d cmdAt).ranks i) :=
  ⟨rfl, rfl, rfl, rfl, fun _ => rfl, fun _ => le_rfl, fun _ => le_rfl, rfl, rfl, rfl, fun _ => rfl, List.prefix_rfl⟩

lemma banksDelayed_record (rk : Rank p) (b : Fin p.banksPerRank) (row t : Nat) :
    BanksDelayed rk (rk.record (.col b row t)) where
  control := rfl
  numBanksActive := rfl
  activateEvent := rfl
  prechargeEvent := rfl
  openRow := fun _ => rfl
  preAllowedAt := fun _ => le_rfl
  actAllowedAt := fun _ => le_rfl
  refreshes := rfl
  actTicks := rfl
  activates := activates_col ..
  rowCommands := fun i => rowCommands_col ..
  history := List.prefix_append ..

lemma banksDelayed_finishBank (rk : Rank p) (d : DRAMPacket p) (cmdAt readyTime : Nat) :
    BanksDelayed rk (rk.setBank d.bank (Channel.finishBank (rk.banks d.bank) d cmdAt readyTime)) := by
  have hbank : ∀ i, (rk.setBank d.bank (Channel.finishBank (rk.banks d.bank) d cmdAt readyTime)).banks i =
      if i = d.bank then Channel.finishBank (rk.banks d.bank) d cmdAt readyTime else rk.banks i := fun i =>
    Function.update_apply ..
  refine ⟨rfl, rfl, rfl, rfl, fun i => ?_, fun i => ?_, fun i => ?_, rfl, rfl, rfl, fun _ => rfl, List.prefix_rfl⟩
  · rw [hbank]
    split
    · subst i
      rfl
    · rfl
  · rw [hbank]
    split
    · subst i
      exact le_max_left _ _
    · exact le_rfl
  · rw [hbank]
    split
    · subst i
      exact le_rfl
    · exact le_rfl

lemma doBurst_accessed (h : c.doBurst now d rest = .ok r) :
    Accessed (c.ranks d.rank) (r.2.ranks d.rank) ∧ (∀ i, i ≠ d.rank → BanksDelayed (c.ranks i) (r.2.ranks i)) ∧
      r.2.timeStampOffset = c.timeStampOffset := by
  obtain ⟨⟨rk, cmdAt⟩, hopen, h⟩ := bind_eq_ok.mp h
  obtain ⟨_, -, h⟩ := bind_eq_ok.mp h
  obtain ⟨rk', hclose, h⟩ := bind_eq_ok.mp h
  cases h
  generalize max cmdAt (sub64 c.busBusyUntil p.tCL) = t at hclose ⊢
  have hopened := openRow_accessed hopen
  have hset : (c.setRank d.rank (rk.record (.col d.bank d.row.val t))).ranks d.rank =
      rk.record (.col d.bank d.row.val t) := Function.update_self ..
  have hheld := banksDelayed_holdCols (c.setRank d.rank (rk.record (.col d.bank d.row.val t))) d t d.rank
  rw [hset] at hheld
  have hcol := ((banksDelayed_record rk d.bank d.row.val t).trans hheld).trans
    (banksDelayed_finishBank _ d t (add64 (add64 t p.tCL) p.tBURST))
  have hcmd : BanksDelayed rk' (rk'.doCommand c.timeStampOffset (if d.isRead then .rd else .wr) d.bank t) :=
    banksDelayed_doCommand (by split <;> simp) _
  refine ⟨?_, fun i hi => ?_, countAccess_timeStampOffset _ _⟩
  · rw [countAccess_ranks]
    have hrank := (hopened.tail (.held hcol)).trans ((closeRow_accessed hclose).tail (.held hcmd))
    simpa [Channel.setBusy, Channel.setRank, Channel.holdCols] using hrank
  · rw [countAccess_ranks]
    have hother := banksDelayed_holdCols (c.setRank d.rank (rk.record (.col d.bank d.row.val t))) d t i
    simpa [Channel.setBusy, Channel.setRank, hi] using hother

lemma doDRAMAccess_accessed (h : c.doDRAMAccess now d rest = .ok r) :
    Accessed (c.ranks d.rank) (r.2.ranks d.rank) ∧ (∀ i, i ≠ d.rank → BanksDelayed (c.ranks i) (r.2.ranks i)) ∧
      r.2.timeStampOffset = c.timeStampOffset := by
  unfold Channel.doDRAMAccess at h
  split at h
  · obtain ⟨hrank, hother, hoff⟩ := doRowOp_accessed h
    exact ⟨hrank, fun i hi => by rw [hother i hi]; exact .refl _, hoff⟩
  · exact doBurst_accessed h

end Channel

/-! ### Steps -/

/-- One change of a rank by the request loop at tick `now`. -/
inductive ServeStep (now : Nat) (rk : Rank p) : Rank p → Prop
  | access {rk' : Rank p} (hav : rk.refreshState = .refIdle) (h : AccessChange rk rk') : ServeStep now rk rk'
  | held {rk' : Rank p} (h : BanksDelayed rk rk') : ServeStep now rk rk'
  | drained (h : rk.refreshState = .refDrain) :
      ServeStep now rk { rk with refreshState := .refPre, refreshEvent := some now }

abbrev Served (now : Nat) : Rank p → Rank p → Prop := Relation.ReflTransGen (ServeStep now)

/-- What an event at tick `now` does to a rank. -/
inductive RankMove (off now : Nat) (rk : Rank p) : Rank p → Prop
  | served {rk' : Rank p} (h : Served now rk rk') : RankMove off now rk rk'
  | activate {rk' : Rank p} (hev : rk.activateEvent = some now)
      (h : { rk with activateEvent := none }.processActivateEvent now = .ok rk') : RankMove off now rk rk'
  | precharge {rk' : Rank p} (hev : rk.prechargeEvent = some now)
      (h : { rk with prechargeEvent := none }.processPrechargeEvent now = .ok rk') : RankMove off now rk rk'
  | refresh {rk' : Rank p} {awaiting : Bool} (hev : rk.refreshEvent = some now)
      (h : { rk with refreshEvent := none }.processRefreshEvent off now awaiting = .ok rk') : RankMove off now rk rk'
  | power {rk' : Rank p} {kick : Bool} (hev : rk.powerEvent = some now)
      (h : { rk with powerEvent := none }.processPowerEvent off now = .ok (rk', kick)) : RankMove off now rk rk'

/-! ### The fields that commands change -/

section Fields

variable (rk : Rank p) (off t row : Nat) (b : Fin p.banksPerRank)

lemma scheduleActivate_event : ∃ u, (rk.scheduleActivate t).activateEvent = some u ∧
    (u = t ∨ rk.activateEvent = some u) := by
  unfold scheduleActivate
  split
  · exact ⟨t, rfl, .inl rfl⟩
  · rename_i u hev
    split
    · exact ⟨t, rfl, .inl rfl⟩
    · exact ⟨u, hev, .inr hev⟩

lemma schedulePrecharge_event : ∃ u, (rk.schedulePrecharge t).prechargeEvent = some u ∧ t ≤ u ∧
    ∀ v, rk.prechargeEvent = some v → v ≤ u := by
  unfold schedulePrecharge
  split
  · rename_i hev
    exact ⟨t, rfl, le_rfl, by simp [hev]⟩
  · rename_i u hev
    split
    · rename_i hlt
      exact ⟨t, rfl, le_rfl, by simpa [hev] using hlt.le⟩
    · rename_i hle
      exact ⟨u, hev, by omega, by simp [hev]⟩

/-- An activate, besides what it does to the banks. -/
structure ActivateFields (rk rk' : Rank p) (t : Nat) : Prop where
  control : control rk' = control rk
  prechargeEvent : rk'.prechargeEvent = rk.prechargeEvent
  activateEvent : ∃ u, rk'.activateEvent = some u ∧ (u = t ∨ rk.activateEvent = some u)
  refreshes : refreshes rk'.cmdList = refreshes rk.cmdList

lemma activateFields_of_windowed {rk opened windowed : Rank p} {b : Fin p.banksPerRank} {row t : Nat}
    (hw : Windowed (opened.enforceRRD b t) windowed t) (hcontrol : control opened = control rk)
    (hpre : opened.prechargeEvent = rk.prechargeEvent) (hact : opened.activateEvent = rk.activateEvent)
    (hrefs : refreshes opened.cmdList = refreshes rk.cmdList) :
    ActivateFields rk ((windowed.scheduleActivate t).record (.act b row t)) t := by
  obtain ⟨banks, ticks, rfl⟩ : ∃ banks ticks, windowed = { opened with banks := banks, actTicks := ticks } :=
    ⟨_, _, hw.rest⟩
  obtain ⟨u, hu, hor⟩ := scheduleActivate_event { opened with banks := banks, actTicks := ticks } t
  rw [scheduleActivate_eq]
  refine ⟨hcontrol, hpre, ⟨u, hu, ?_⟩, hrefs⟩
  rwa [hact] at hor

lemma activated_fields : ActivateFields rk (rk.activated off b t row) t :=
  activateFields_of_windowed (windowed_enforceXAW _ t) rfl rfl rfl (refreshes_snoc (by simp))

lemma doubleActivated_fields (ov : Bool) : ActivateFields rk (rk.doubleActivated b t ov) t :=
  activateFields_of_windowed (windowed_enforceXAWOfAap _ t) rfl rfl rfl rfl

/-- A precharge, besides what it does to the banks. -/
structure PrechargeFields (rk rk' : Rank p) (t : Nat) : Prop where
  control : control rk' = control rk
  activateEvent : rk'.activateEvent = rk.activateEvent
  prechargeEvent : ∃ u, rk'.prechargeEvent = some u ∧ add64 t p.tRP ≤ u ∧ ∀ v, rk.prechargeEvent = some v → v ≤ u
  refreshes : refreshes rk'.cmdList = refreshes rk.cmdList

lemma precharged_fields (trace : Bool) : PrechargeFields rk (rk.precharged off b t trace) t := by
  simp only [precharged]
  rw [schedulePrecharge_eq]
  cases trace with
  | true => exact ⟨rfl, rfl, schedulePrecharge_event _ _, refreshes_snoc (by simp)⟩
  | false => exact ⟨rfl, rfl, schedulePrecharge_event _ _, rfl⟩

end Fields

lemma AccessChange.control {rk rk' : Rank p} (h : AccessChange rk rk') : control rk' = control rk := by
  cases h with
  | activate off b t row => exact (activated_fields rk off t row b).control
  | double b t ov => exact (doubleActivated_fields rk t b ov).control
  | precharge off b t trace => exact (precharged_fields rk off t b trace).control
  | held h => exact h.control

/-- An access only adds commands. -/
lemma AccessChange.history {rk rk' : Rank p} (h : AccessChange rk rk') : rk.history <+: rk'.history := by
  cases h with
  | activate off b t row =>
    rw [(activated_activates rk off b t row).history]
    exact List.prefix_append ..
  | double b t ov =>
    rw [(doubleActivated_activates rk b t ov).history]
    exact List.prefix_append ..
  | precharge off b t trace =>
    rw [(precharged_precharges rk off b t trace).history]
    exact List.prefix_append ..
  | held h => exact h.history

/-- Activates and precharges of an access alternate. -/
lemma AccessChange.order {rk rk' : Rank p} (h : AccessChange rk rk') (ho : RankOrder rk) : RankOrder rk' := by
  cases h with
  | activate off b t row hclosed hrow => exact ho.activate (activated_activates rk off b t row) hclosed hrow
  | double b t ov hclosed =>
    have hrow : Row.doubleRow ≠ Row.noRow := by decide
    exact ho.activate (doubleActivated_activates rk b t ov) hclosed hrow
  | precharge off b t trace hopen => exact ho.precharge (precharged_precharges rk off b t trace) hopen
  | held h => exact ho.congr h.rowCommands h.activates h.actTicks h.numBanksActive h.openRow

lemma accessed_order {rk rk' : Rank p} (h : Accessed rk rk') (ho : RankOrder rk) : RankOrder rk' := by
  induction h with
  | refl => exact ho
  | tail _ hchange ih => exact hchange.order ih

lemma served_of_accessed {now : Nat} {rk rk' : Rank p} (hav : rk.refreshState = .refIdle) (h : Accessed rk rk') :
    Served now rk rk' := by
  suffices Served now rk rk' ∧ control rk' = control rk from this.1
  induction h with
  | refl => exact ⟨.refl, rfl⟩
  | tail _ hchange ih =>
    obtain ⟨hsteps, hcontrol⟩ := ih
    have hav' := (congrArg RankControl.refreshState hcontrol).trans hav
    exact ⟨hsteps.tail (.access hav' hchange), hchange.control.trans hcontrol⟩

/-! ### The controller -/

section Controller

open DRAMCtrl

/-- The request loop works on the ranks of a channel at tick `now`. -/
structure ChannelServed (now : Nat) (c c' : Channel p) : Prop where
  timeStampOffset : c'.timeStampOffset = c.timeStampOffset
  ranks : ∀ r, Served now (c.ranks r) (c'.ranks r)

lemma ChannelServed.refl (now : Nat) (c : Channel p) : ChannelServed now c c := ⟨rfl, fun _ => .refl⟩

lemma ChannelServed.trans {now : Nat} {c₁ c₂ c₃ : Channel p} (h : ChannelServed now c₁ c₂)
    (h' : ChannelServed now c₂ c₃) : ChannelServed now c₁ c₃ :=
  ⟨h'.timeStampOffset.trans h.timeStampOffset, fun r => (h.ranks r).trans (h'.ranks r)⟩

lemma channelServed_of_eq {now : Nat} {c c' : Channel p} (hoff : c'.timeStampOffset = c.timeStampOffset)
    (hranks : c'.ranks = c.ranks) : ChannelServed now c c' :=
  ⟨hoff, fun r => by rw [hranks]⟩

lemma bubbledAccess_channelServed {c : Channel p} {switched : Bool} {now bubble : Nat} {d : DRAMPacket p}
    {rest : List (DRAMPacket p)} {r : DRAMPacket p × Channel p} (hav : c.available d = true)
    (h : (addBubble c switched d bubble).doDRAMAccess now d rest = .ok r) : ChannelServed now c r.2 := by
  obtain ⟨t, ht⟩ := addBubble_eq c switched d bubble
  rw [ht] at h
  obtain ⟨hrank, hother, hoff⟩ := doDRAMAccess_accessed h
  refine ⟨hoff, fun i => ?_⟩
  by_cases hi : i = d.rank
  · subst hi
    exact served_of_accessed (by simpa [Channel.available, isAvailable] using hav) hrank
  · exact .single (.held (hother i hi))

lemma serveRead_channelServed {s s' : DRAMCtrl p} {switched : Bool} {d : DRAMPacket p} {rest : List (DRAMPacket p)}
    (h : s.serveRead switched d rest = .ok s') : ChannelServed s.curTick s.channel s'.channel := by
  obtain ⟨_, hav, -⟩ := bind_eq_ok.mp h
  obtain ⟨served, channel, t, bus, hacc, -, rfl⟩ := serveRead_cases h
  exact bubbledAccess_channelServed (ensure_eq_ok.mp hav) hacc

lemma serveWrite_channelServed {s s' : DRAMCtrl p} {switched : Bool} {d : DRAMPacket p} {rest : List (DRAMPacket p)}
    (h : s.serveWrite switched d rest = .ok s') : ChannelServed s.curTick s.channel s'.channel := by
  obtain ⟨_, hav, -⟩ := bind_eq_ok.mp h
  obtain ⟨served, channel, bus, hacc, -, rfl⟩ := serveWrite_cases h
  exact bubbledAccess_channelServed (ensure_eq_ok.mp hav) hacc

lemma serveRequest_channelServed {s : DRAMCtrl p} {switched : Bool} {r : DRAMCtrl p × Bool}
    (h : s.serveRequest switched = .ok r) : ChannelServed s.curTick s.channel r.1.channel := by
  unfold serveRequest at h
  split at h
  · rcases readBranch_cases h with ⟨-, -, rfl⟩ | ⟨-, -, ds, rfl⟩ | ⟨-, rfl, -⟩ | ⟨pre, d, post, t, -, ht, rfl⟩
    · exact .refl ..
    · exact .refl ..
    · exact .refl ..
    · exact serveRead_channelServed ht
  · rcases writeBranch_cases h with ⟨-, rfl, -⟩ | ⟨pre, d, post, t, -, -, ht, rfl⟩
    · exact .refl ..
    · exact serveWrite_channelServed ht

lemma checkDrains_channelServed (s : DRAMCtrl p) : ChannelServed s.curTick s.channel s.checkDrains.channel := by
  refine ⟨rfl, fun r => ?_⟩
  simp only [checkDrains, checkDrainDone]
  split
  · exact .refl
  · split
    · rename_i hdrain
      exact .single (.drained hdrain)
    · exact .refl

lemma switchBus_channel (s : DRAMCtrl p) : s.switchBus.1.channel.ranks = s.channel.ranks ∧
    s.switchBus.1.channel.timeStampOffset = s.channel.timeStampOffset := by
  unfold switchBus
  split <;> exact ⟨rfl, rfl⟩

lemma processNextReqEvent_channelServed {s s' : DRAMCtrl p} (h : s.processNextReqEvent = .ok s') :
    ChannelServed s.curTick s.channel s'.channel := by
  obtain ⟨hranks, hoff⟩ := switchBus_channel s.checkDrains
  obtain ⟨-, -, htick, -⟩ := switchBus_fst s.checkDrains
  have hswitch := (checkDrains_channelServed s).trans (channelServed_of_eq hoff hranks)
  simp only [processNextReqEvent] at h
  split at h
  · cases h
    exact checkDrains_channelServed s
  · generalize hsw : s.checkDrains.switchBus = sw at h hswitch htick
    obtain ⟨⟨u, goesOn⟩, hserve, h⟩ := bind_eq_ok.mp h
    have hserved := hswitch.trans (htick ▸ serveRequest_channelServed hserve)
    cases h
    split
    · rw [(finishNextReq_spec u).2.1]
      exact hserved
    · exact hserved

lemma scheduleNextReq_curTick (s : DRAMCtrl p) (t : Nat) : (s.scheduleNextReq t).curTick = s.curTick := by
  obtain ⟨ev, heq⟩ := scheduleNextReq_eq s t
  rw [heq]

lemma recvTimingReq_frame {s : DRAMCtrl p} {pkt : Packet} {r : DRAMCtrl p × Bool}
    (h : s.recvTimingReq pkt = .ok r) :
    (∃ n, r.1.channel = { s.channel with pendingRowOps := n }) ∧ r.1.curTick = s.curTick ∧
      (s.nextReqEvent ≠ none → r.1.nextReqEvent ≠ none) := by
  cases recvTimingReq_cases h with
  | dropped _ => exact ⟨⟨_, rfl⟩, rfl, id⟩
  | other _ _ => exact ⟨⟨_, rfl⟩, rfl, id⟩
  | refuseRead => exact ⟨⟨_, rfl⟩, rfl, id⟩
  | refuseWrite => exact ⟨⟨_, rfl⟩, rfl, id⟩
  | @read _ _ t _ _ hadd =>
    obtain ⟨_, -, hadd⟩ := bind_eq_ok.mp hadd
    obtain ⟨⟨u, helper, serviced⟩, hloop, hadd⟩ := bind_eq_ok.mp hadd
    obtain ⟨rs, hu, -⟩ := addReadBursts_spec hloop
    obtain ⟨hs, rfl⟩ : ∃ hs, u = { s with readQueue := s.readQueue ++ rs, burstHelpers := hs } := ⟨_, hu⟩
    suffices t.channel = s.channel ∧ t.curTick = s.curTick ∧ (s.nextReqEvent ≠ none → t.nextReqEvent ≠ none) from
      ⟨⟨s.channel.pendingRowOps, this.1⟩, this.2⟩
    simp only at hadd
    split at hadd
    · cases hadd
      exact ⟨rfl, rfl, id⟩
    · cases hadd
      rw [scheduleNextReq_channel, scheduleNextReq_curTick, ← and_assoc]
      refine ⟨?_, fun _ => scheduleNextReq_ne_none _ _⟩
      unfold setServiced
      split <;> exact ⟨rfl, rfl⟩
  | @write t _ hkind _ hadd =>
    obtain ⟨u, hpackets, hadd⟩ := bind_eq_ok.mp hadd
    cases hadd
    rw [scheduleNextReq_channel, scheduleNextReq_curTick, ← and_assoc]
    refine ⟨?_, fun _ => scheduleNextReq_ne_none _ _⟩
    rcases hkind with ⟨addr, size, hkind⟩ | ⟨addrs, hkind⟩
    · simp only [addWritePackets, hkind] at hpackets
      obtain ⟨ws, rfl, -⟩ := addWriteBursts_spec hpackets
      exact ⟨⟨_, rfl⟩, rfl⟩
    · simp only [addWritePackets, hkind] at hpackets
      obtain ⟨d, -, hpackets⟩ := bind_eq_ok.mp hpackets
      cases hpackets
      exact ⟨⟨_, rfl⟩, rfl⟩

lemma drain_channel (s : DRAMCtrl p) : s.drain.channel = s.channel ∧ s.drain.curTick = s.curTick := by
  simp only [drain]
  split
  · exact ⟨rfl, rfl⟩
  · split
    · rw [scheduleNextReq_channel, scheduleNextReq_curTick]
      exact ⟨rfl, rfl⟩
    · exact ⟨rfl, rfl⟩

lemma processRespondEvent_curTick {s s' : DRAMCtrl p} (h : s.processRespondEvent = .ok s') :
    s'.curTick = s.curTick := by
  unfold processRespondEvent at h
  split at h
  · cases h
  · rename_i d ds _
    obtain ⟨t, hnext, h⟩ := bind_eq_ok.mp h
    cases h
    obtain ⟨hs, rs, heq⟩ := sendResponse_eq s d
    rw [heq] at hnext
    unfold nextResponse at hnext
    split at hnext
    · obtain ⟨_, -, hnext⟩ := bind_eq_ok.mp hnext
      cases hnext
      rfl
    · cases hnext
      unfold signalDrainDone
      split
      · split <;> rfl
      · rfl

/-- What an event does to the ranks of a channel. -/
structure ChannelMove (now : Nat) (c c' : Channel p) : Prop where
  timeStampOffset : c'.timeStampOffset = c.timeStampOffset
  ranks : ∀ r, RankMove c.timeStampOffset now (c.ranks r) (c'.ranks r)

lemma ChannelServed.move {now : Nat} {c c' : Channel p} (h : ChannelServed now c c') : ChannelMove now c c' :=
  ⟨h.timeStampOffset, fun r => .served (h.ranks r)⟩

lemma channelMove_setRank {now : Nat} {c : Channel p} {r : Fin p.ranksPerChannel} {rk : Rank p}
    (h : RankMove c.timeStampOffset now (c.ranks r) rk) : ChannelMove now c (c.setRank r rk) := by
  refine ⟨rfl, fun i => ?_⟩
  by_cases hi : i = r
  · subst hi
    simpa [Channel.setRank] using h
  · simpa [Channel.setRank, hi] using RankMove.served .refl

theorem handle_move {s s' : DRAMCtrl p} {e : Event p} (h : s.handle e = .ok s') :
    ChannelMove s.curTick s.channel s'.channel := by
  cases e with
  | recvTimingReq pkt =>
    obtain ⟨r, hr, h⟩ := bind_eq_ok.mp h
    cases h
    obtain ⟨⟨n, hn⟩, -⟩ := recvTimingReq_frame hr
    exact (channelServed_of_eq (by rw [hn]) (by rw [hn])).move
  | nextReq =>
    obtain ⟨_, -, h⟩ := bind_eq_ok.mp h
    have hserved := processNextReqEvent_channelServed h
    exact ⟨hserved.timeStampOffset, fun r => .served (hserved.ranks r)⟩
  | respond =>
    obtain ⟨_, -, h⟩ := bind_eq_ok.mp h
    obtain ⟨-, hc, -, -⟩ := processRespondEvent_frame h
    exact (channelServed_of_eq (by rw [hc]) (by rw [hc])).move
  | activate r =>
    obtain ⟨_, hev, h⟩ := bind_eq_ok.mp h
    obtain ⟨rk, hrk, h⟩ := bind_eq_ok.mp h
    cases h
    exact channelMove_setRank (.activate (ensure_eq_ok.mp hev) hrk)
  | precharge r =>
    obtain ⟨_, hev, h⟩ := bind_eq_ok.mp h
    obtain ⟨rk, hrk, h⟩ := bind_eq_ok.mp h
    cases h
    exact channelMove_setRank (.precharge (ensure_eq_ok.mp hev) hrk)
  | refresh r =>
    obtain ⟨_, hev, h⟩ := bind_eq_ok.mp h
    obtain ⟨rk, hrk, h⟩ := bind_eq_ok.mp h
    cases h
    exact channelMove_setRank (.refresh (ensure_eq_ok.mp hev) hrk)
  | power r =>
    obtain ⟨_, hev, h⟩ := bind_eq_ok.mp h
    obtain ⟨⟨rk, kick⟩, hrk, h⟩ := bind_eq_ok.mp h
    cases h
    have hset := channelMove_setRank (.power (ensure_eq_ok.mp hev) hrk)
    split
    · rw [scheduleNextReq_channel]
      exact hset
    · exact hset
  | drain =>
    cases h
    exact (channelServed_of_eq (by rw [(drain_channel s).1]) (by rw [(drain_channel s).1])).move
  | drainResume =>
    obtain ⟨_, -, h⟩ := bind_eq_ok.mp h
    cases h
    exact (ChannelServed.refl ..).move

lemma serveRequest_curTick {s : DRAMCtrl p} {switched : Bool} {r : DRAMCtrl p × Bool}
    (h : s.serveRequest switched = .ok r) : r.1.curTick = s.curTick := by
  unfold serveRequest at h
  split at h
  · rcases readBranch_cases h with ⟨-, -, rfl⟩ | ⟨-, -, ds, rfl⟩ | ⟨-, rfl, -⟩ | ⟨pre, d, post, t, -, ht, rfl⟩
    · rfl
    · rfl
    · rfl
    · obtain ⟨served, channel, ev, bus, -, -, rfl⟩ := serveRead_cases ht
      rfl
  · rcases writeBranch_cases h with ⟨-, rfl, -⟩ | ⟨pre, d, post, t, -, -, ht, rfl⟩
    · rfl
    · obtain ⟨served, channel, bus, -, -, rfl⟩ := serveWrite_cases ht
      rfl

lemma processNextReqEvent_curTick {s s' : DRAMCtrl p} (h : s.processNextReqEvent = .ok s') :
    s'.curTick = s.curTick := by
  obtain ⟨-, -, htick, -⟩ := switchBus_fst s.checkDrains
  simp only [processNextReqEvent] at h
  split at h
  · cases h
    rfl
  · obtain ⟨⟨u, goesOn⟩, hserve, h⟩ := bind_eq_ok.mp h
    have hserved : u.curTick = s.curTick := (serveRequest_curTick hserve).trans htick
    cases h
    split
    · simp only [finishNextReq]
      split <;> simp only [scheduleNextReq_curTick, hserved]
    · exact hserved

lemma handle_curTick {s s' : DRAMCtrl p} {e : Event p} (h : s.handle e = .ok s') : s'.curTick = s.curTick := by
  cases handle_cases h with
  | recvTimingReq hr => exact (recvTimingReq_frame hr).2.1
  | nextReq h => exact (processNextReqEvent_curTick h).trans rfl
  | respond h => exact (processRespondEvent_curTick h).trans rfl
  | activate => rfl
  | precharge => rfl
  | refresh => rfl
  | power =>
    split
    · rw [scheduleNextReq_curTick]
      rfl
    · rfl
  | drain => exact (drain_channel s).2
  | drainResume => rfl

end Controller

end MimdramLean.Proofs

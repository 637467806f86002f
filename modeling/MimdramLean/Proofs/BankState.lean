import MimdramLean.Refresh
import MimdramLean.Proofs.Timing

/-!
# Open banks are counted

`numBanksActive` is a count kept by hand in four routines. Accesses and the handlers of the rank
events, in any order and at any ticks, keep it equal to the number of banks with an open row, so
that none of the assertions about open banks and about the count can fail.
-/

namespace MimdramLean.Proofs
open Library Rank Channel

variable {p : Params}

/-- The assertions of `activateBank`, `aapBank` and `prechargeBank` about the bank's row and about
`numBanksActive`. -/
def BankFailure (e : Failure) : Prop :=
  e = .bankOpen ∨ e = .tooManyActive ∨ e = .bankClosed ∨ e = .noneActive

/-- A computation on a rank that ends with the open banks counted and `Q`, and fails in none of
the assertions about banks. -/
abbrev KeepsCount {α : Type} (x : Except Failure α) (Q : α → Prop) : Prop :=
  Outcome x (fun e => ¬BankFailure e) Q

lemma keepsCount_ensure {c : Prop} [Decidable c] {e : Failure} (he : ¬BankFailure e) :
    KeepsCount (ensure c e) fun _ => c := outcome_ensure fun _ => he

/-! ### The bank commands -/

lemma canOpen_counted {rk : Rank p} (h : ActiveCounted rk) {b : Fin p.banksPerRank}
    (hclosed : (rk.banks b).openRow = Row.noRow) : rk.canOpen b = .ok () :=
  canOpen_eq_ok.mpr ⟨hclosed, h.room hclosed⟩

lemma activateBank_counted {rk : Rank p} (h : ActiveCounted rk) (off : Nat) {b : Fin p.banksPerRank}
    (t : Nat) {row : Nat} (hclosed : (rk.banks b).openRow = Row.noRow) (hrow : row ≠ Row.noRow) :
    KeepsCount (rk.activateBank off b t row) fun rk' =>
      ActiveCounted rk' ∧ (rk'.banks b).openRow = row := by
  have hact := activated_activates rk off b t row
  refine (keepsCount_ensure (by simp [BankFailure])).bind fun _ _ => ?_
  rw [canOpen_counted h hclosed, ok_bind]
  refine (keepsCount_ensure (by simp [BankFailure])).bind fun _ _ => outcome_ok ⟨?_, ?_⟩
  · exact h.activate hact hclosed hrow
  · rw [hact.openRow, if_pos rfl]

lemma prechargeBank_counted {rk : Rank p} (h : ActiveCounted rk) (off : Nat) {b : Fin p.banksPerRank}
    (t : Nat) (trace : Bool) (hopen : (rk.banks b).openRow ≠ Row.noRow) :
    KeepsCount (rk.prechargeBank off b t trace) fun rk' =>
      ActiveCounted rk' ∧ (rk'.banks b).openRow = Row.noRow := by
  have hpre := precharged_precharges rk off b t trace
  have hok : rk.prechargeBank off b t trace = .ok (rk.precharged off b t trace) :=
    prechargeBank_eq_ok.mpr ⟨hopen, h.ne_zero hopen, rfl⟩
  rw [hok]
  refine outcome_ok ⟨h.precharge hpre hopen, ?_⟩
  rw [hpre.openRow, if_pos rfl]

lemma closeBank_counted {rk : Rank p} (h : ActiveCounted rk) (off : Nat) (b : Fin p.banksPerRank)
    (now : Nat) : KeepsCount (rk.closeBank off b now) fun rk' =>
      ActiveCounted rk' ∧ (rk'.banks b).openRow = Row.noRow := by
  unfold closeBank
  split
  · rename_i hopen
    exact prechargeBank_counted h off _ true hopen
  · rename_i hclosed
    exact outcome_ok ⟨h, not_not.mp hclosed⟩

/-- Both commands of a row operation leave the bank as they find it. -/
lemma issue_counted {rk : Rank p} (h : ActiveCounted rk) (off : Nat) {b : Fin p.banksPerRank} (t : Nat)
    {c : BankCommand} (hc : c ≠ .ap Row.noRow) (hclosed : (rk.banks b).openRow = Row.noRow) :
    KeepsCount (rk.issue off b t c) fun rk' =>
      ActiveCounted rk' ∧ (rk'.banks b).openRow = Row.noRow := by
  cases c with
  | ap row =>
    have hrow : row ≠ Row.noRow := fun hrow => hc (hrow ▸ rfl)
    refine (activateBank_counted h off t hclosed hrow).bind fun mid hmid => ?_
    exact prechargeBank_counted hmid.1 off _ true (hmid.2 ▸ hrow)
  | aap row1 row2 ov =>
    have hact := doubleActivated_activates rk b t ov
    have hdouble : Row.doubleRow ≠ Row.noRow := by decide
    simp only [issue, aapBank]
    rw [canOpen_counted h hclosed, ok_bind]
    apply prechargeBank_counted (h.activate hact hclosed hdouble)
    rwa [hact.openRow, if_pos rfl]

lemma issueAll_counted {rk : Rank p} (h : ActiveCounted rk) (off : Nat) {b : Fin p.banksPerRank} (t : Nat)
    (cs : List BankCommand) (hcs : ∀ c ∈ cs, c ≠ .ap Row.noRow)
    (hclosed : (rk.banks b).openRow = Row.noRow) :
    KeepsCount (rk.issueAll off b t cs) fun r =>
      ActiveCounted r.1 ∧ (r.1.banks b).openRow = Row.noRow := by
  induction cs generalizing rk t with
  | nil => exact outcome_ok ⟨h, hclosed⟩
  | cons c cs ih =>
    refine (issue_counted h off t (hcs c (by simp)) hclosed).bind fun mid hmid => ?_
    exact ih hmid.1 _ (fun c' hc' => hcs c' (by simp [hc'])) hmid.2

/-! ### Accesses -/

/-- The open banks of every rank are counted. -/
def AllCounted (c : Channel p) : Prop := ∀ r, ActiveCounted (c.ranks r)

lemma AllCounted.setRank {c : Channel p} (h : AllCounted c) {r : Fin p.ranksPerChannel} {rk : Rank p}
    (hrk : ActiveCounted rk) : AllCounted (c.setRank r rk) := by
  intro i
  simp only [Channel.setRank, Function.update_apply]
  split
  · exact hrk
  · exact h i

lemma doRowOp_counted {c : Channel p} (h : AllCounted c) (now : Nat) (d : DRAMPacket p) (op : RowOp) :
    KeepsCount (c.doRowOp now d op) fun r => AllCounted r.2 ∧ (r.2.bank d).openRow = Row.noRow := by
  refine (closeBank_counted (h d.rank) c.timeStampOffset d.bank now).bind fun mid hmid => ?_
  refine (issueAll_counted hmid.1 c.timeStampOffset _ _ (rowOpCommands_ne _ _ _ _) hmid.2).bind fun r hr => ?_
  refine outcome_ok ⟨h.setRank hr.1, ?_⟩
  simpa [Channel.bank, Channel.setBusy, Channel.setRank] using hr.2

lemma openRow_counted {c : Channel p} (h : AllCounted c) (now : Nat) (d : DRAMPacket p) :
    KeepsCount (c.openRow now d) fun r => ActiveCounted r.1 ∧ (r.1.banks d.bank).openRow = d.row.val := by
  unfold Channel.openRow
  split
  · rename_i hhit
    exact outcome_ok ⟨h d.rank, hhit⟩
  · refine (closeBank_counted (h d.rank) c.timeStampOffset d.bank now).bind fun mid hmid => ?_
    refine (activateBank_counted hmid.1 _ _ hmid.2 d.row.isLt.ne).bind fun rk hrk => ?_
    exact outcome_ok hrk

lemma closeRow_counted {rk : Rank p} (h : ActiveCounted rk) (off now : Nat) (d : DRAMPacket p)
    (rest : List (DRAMPacket p)) (hopen : (rk.banks d.bank).openRow ≠ Row.noRow) :
    KeepsCount (closeRow rk off now d rest) ActiveCounted := by
  unfold closeRow
  split
  · exact (prechargeBank_counted h off _ true hopen).mono fun _ hrk => hrk.1
  · exact outcome_ok h

lemma doBurst_counted {c : Channel p} (h : AllCounted c) (now : Nat) (d : DRAMPacket p)
    (rest : List (DRAMPacket p)) : KeepsCount (c.doBurst now d rest) fun r => AllCounted r.2 := by
  refine (openRow_counted h now d).bind fun r hr => ?_
  refine (keepsCount_ensure (by simp [BankFailure])).bind fun _ _ => ?_
  -- a column command pushes ticks back and leaves the open rows alone
  have hheld : ∀ t, AllCounted ((c.setRank d.rank (r.1.record (.col d.bank d.row.val t))).holdCols d t) :=
    fun t => h.setRank hr.1
  refine Outcome.bind (Q := ActiveCounted) ?_ fun rk hrk => outcome_ok ?_
  · apply closeRow_counted
    · refine (hheld _ d.rank).congr rfl fun b => ?_
      by_cases hb : b = d.bank
      · subst hb
        simp [setBank, Channel.finishBank, Channel.bank]
      · simp [setBank, hb]
    · simpa [setBank, Channel.finishBank, Channel.bank, Channel.holdCols, Channel.setRank, record, hr.2]
        using d.row.isLt.ne
  · intro i
    rw [countAccess_ranks]
    exact (hheld _).setRank (show ActiveCounted (rk.doCommand _ _ _ _) from hrk) i

lemma doDRAMAccess_counted {c : Channel p} (h : AllCounted c) (now : Nat) (d : DRAMPacket p)
    (rest : List (DRAMPacket p)) : KeepsCount (c.doDRAMAccess now d rest) fun r =>
      AllCounted r.2 ∧ (d.isRowOp → (r.2.bank d).openRow = Row.noRow) := by
  unfold doDRAMAccess
  cases hop : d.rowOp with
  | some op => exact (doRowOp_counted h now d op).mono fun r hr => ⟨hr.1, fun _ => hr.2⟩
  | none =>
    refine (doBurst_counted h now d rest).mono fun r hr => ⟨hr, fun hrow => ?_⟩
    simp [DRAMPacket.isRowOp, hop] at hrow

/-! ### Rank events -/

lemma schedulePowerEvent_counted {rk : Rank p} (h : ActiveCounted rk) (st : PowerState) (t : Nat) :
    KeepsCount (rk.schedulePowerEvent st t) ActiveCounted :=
  (keepsCount_ensure (by simp [BankFailure])).bind fun _ _ => outcome_ok h

lemma prechargeOrHold_counted {rk : Rank p} (off preAt : Nat) (b : Fin p.banksPerRank)
    (h : ActiveCounted rk) : KeepsCount (prechargeOrHold off preAt rk b) ActiveCounted := by
  unfold prechargeOrHold
  split
  · rename_i hopen
    exact (prechargeBank_counted h off preAt false hopen).mono fun _ hrk => hrk.1
  · refine outcome_ok (h.congr rfl fun i => ?_)
    by_cases hi : i = b
    · subst hi
      simp [setBank]
    · simp [setBank, hi]

lemma prechargeAll_counted {rk : Rank p} (h : ActiveCounted rk) (off now : Nat) :
    KeepsCount (rk.prechargeAll off now) ActiveCounted := by
  unfold prechargeAll
  split
  · refine Outcome.bind (Q := ActiveCounted) ?_ fun rk' hrk' => outcome_ok hrk'
    rw [foldlM_eq_runFrom]
    exact outcome_run _ (fun rk' b => prechargeOrHold_counted off (rk.preAllAt now) b) h _
  · exact schedulePowerEvent_counted h .pwrRef now

lemma refreshPrecharge_counted {rk : Rank p} (h : ActiveCounted rk) (off now : Nat) :
    KeepsCount (rk.refreshPrecharge off now) ActiveCounted := by
  refine (prechargeAll_counted h off now).bind fun rk' hrk' => ?_
  exact (keepsCount_ensure (by simp [BankFailure])).bind fun _ _ => outcome_ok hrk'

lemma refreshRun_counted {rk : Rank p} (h : ActiveCounted rk) (off now : Nat) :
    KeepsCount (rk.refreshRun off now) ActiveCounted := by
  refine (keepsCount_ensure (by simp [BankFailure])).bind fun _ _ => ?_
  refine (keepsCount_ensure (by simp [BankFailure])).bind fun _ _ => ?_
  refine (keepsCount_ensure (by simp [BankFailure])).bind fun _ _ => ?_
  apply schedulePowerEvent_counted
  exact h

lemma processRefreshEvent_counted {rk : Rank p} (h : ActiveCounted rk) (off now : Nat) (awaiting : Bool) :
    KeepsCount (rk.processRefreshEvent off now awaiting) ActiveCounted := by
  have hstart : ActiveCounted (rk.startRefresh now) := by
    unfold startRefresh
    split <;> exact h
  have hleave : ActiveCounted (rk.startRefresh now).leaveDrain := by
    unfold leaveDrain
    split <;> exact hstart
  unfold processRefreshEvent
  split
  · exact outcome_ok hstart
  · unfold continueRefresh
    split
    · exact refreshPrecharge_counted hleave off now
    · exact refreshRun_counted hleave off now

lemma processActivateEvent_counted {rk : Rank p} (h : ActiveCounted rk) (now : Nat) :
    KeepsCount (rk.processActivateEvent now) ActiveCounted := by
  unfold processActivateEvent
  split
  · exact schedulePowerEvent_counted h .pwrAct now
  · exact outcome_ok h

lemma processPrechargeEvent_counted {rk : Rank p} (h : ActiveCounted rk) (now : Nat) :
    KeepsCount (rk.processPrechargeEvent now) ActiveCounted := by
  unfold processPrechargeEvent
  split
  · exact schedulePowerEvent_counted h .pwrIdle now
  · exact outcome_ok h

lemma processPowerEvent_counted {rk : Rank p} (h : ActiveCounted rk) (off now : Nat) :
    KeepsCount (rk.processPowerEvent off now) fun r => ActiveCounted r.1 := by
  unfold processPowerEvent
  split
  · exact outcome_ok h
  · refine (keepsCount_ensure (by simp [BankFailure])).bind fun _ _ => ?_
    have henter : ActiveCounted { rk with pwrState := rk.pwrStateTrans }.enterRefresh := by
      unfold enterRefresh
      split <;> exact h
    refine Outcome.bind (Q := ActiveCounted) ?_ fun rk' hrk' => outcome_ok hrk'
    unfold kickRefresh
    split
    · refine (keepsCount_ensure (by simp [BankFailure])).bind fun _ _ => ?_
      exact processRefreshEvent_counted henter off now false
    · exact outcome_ok henter

/-! ### Any sequence of accesses and rank events -/

lemma onRank_counted {c : Channel p} (h : AllCounted c) {r : Fin p.ranksPerChannel}
    {handler : Rank p → Except Failure (Rank p)}
    (hhandler : KeepsCount (handler (c.ranks r)) ActiveCounted) :
    KeepsCount (c.onRank r handler) AllCounted :=
  hhandler.bind fun _ hrk => outcome_ok (h.setRank hrk)

lemma onEvent_counted (c : Channel p) (e : ChannelEvent p) (h : AllCounted c) :
    KeepsCount (c.onEvent e) AllCounted := by
  cases e with
  | access a =>
    rw [onEvent]
    refine Outcome.bind (Q := fun r => AllCounted r.2) ?_ fun r hr => outcome_ok hr
    refine (doDRAMAccess_counted ?_ a.now a.pkt a.rest).mono fun r hr => hr.1
    exact h
  | refreshPrecharge r now =>
    rw [onEvent]
    exact onRank_counted h (refreshPrecharge_counted (h r) _ now)
  | refresh r now awaiting =>
    rw [onEvent]
    apply onRank_counted h
    apply processRefreshEvent_counted
    exact h r
  | activate r now =>
    rw [onEvent]
    apply onRank_counted h
    apply processActivateEvent_counted
    exact h r
  | precharge r now =>
    rw [onEvent]
    apply onRank_counted h
    apply processPrechargeEvent_counted
    exact h r
  | power r now =>
    rw [onEvent]
    apply onRank_counted h
    refine Outcome.bind (Q := fun r => ActiveCounted r.1) ?_ fun r hr => outcome_ok hr
    apply processPowerEvent_counted
    exact h r

lemma allCounted_startup (now : Nat) : AllCounted (Channel.startup p now) := by
  intro r
  simp [ActiveCounted, Channel.startup, Rank.init, openBanks]

/-- Along every sequence of accesses and rank events the active banks of each rank are counted
and no assertion about open banks fails. A row operation closes its bank. -/
theorem banks_counted (p : Params) (now : Nat) (es : List (ChannelEvent p)) :
    Raises (runFrom Channel.onEvent (Channel.startup p now) es) (fun e => ¬BankFailure e) ∧
    ∀ c, runFrom Channel.onEvent (Channel.startup p now) es = .ok c →
      (∀ r, (c.ranks r).numBanksActive =
        (Finset.univ.filter fun b => ((c.ranks r).banks b).openRow ≠ Row.noRow).card) ∧
      ∀ a c', a.pkt.isRowOp → c.onEvent (.access a) = .ok c' → (c'.bank a.pkt).openRow = Row.noRow := by
  obtain ⟨hraises, hcounted⟩ := outcome_run Channel.onEvent onEvent_counted (allCounted_startup now) es
  refine ⟨hraises, fun c hc => ⟨hcounted c hc, ?_⟩⟩
  intro a c' hrow haccess
  obtain ⟨r, hr, hlast⟩ := bind_eq_ok.mp haccess
  obtain rfl : r.2 = c' := Except.ok.inj hlast
  have hbubble : AllCounted (c.advanceBus a.bubble) := hcounted c hc
  exact ((doDRAMAccess_counted hbubble a.now a.pkt a.rest).2 r hr).2 hrow

end MimdramLean.Proofs

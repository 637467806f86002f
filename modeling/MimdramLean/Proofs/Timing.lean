import MimdramLean.Proofs.Schedule

/-!
# Accesses keep to the timing of the device

Every access succeeds: no assertion of `activateBank`, `aapBank`, `prechargeBank` or `doDRAMAccess`
fails and the panic of `activateBank` is never reached. The commands that a sequence of accesses
issues to a rank are legal, and the data bursts of ordinary accesses do not overlap.
-/

namespace MimdramLean.Proofs
open Library Rank Channel

variable {p : Params} {P : Prop}

/-- The invariant of a rank. `P` says that all accesses happen at positive ticks. -/
structure RankOk (P : Prop) (rk : Rank p) : Prop where
  inv : RankInv rk
  ready : ∀ b, ColReady rk b
  pos : P → ∀ x ∈ activates rk.history, 0 < x.2

lemma RankOk.mono {rk rk' : Rank p} (h : RankOk P rk) (hh : rk'.history = rk.history)
    (ha : rk'.actTicks = rk.actTicks) (hn : rk'.numBanksActive = rk.numBanksActive)
    (ho : ∀ b, (rk'.banks b).openRow = (rk.banks b).openRow)
    (hp : ∀ b, (rk.banks b).preAllowedAt ≤ (rk'.banks b).preAllowedAt)
    (ht : ∀ b, (rk.banks b).actAllowedAt ≤ (rk'.banks b).actAllowedAt)
    (hc : ∀ b, (rk.banks b).colAllowedAt ≤ (rk'.banks b).colAllowedAt) : RankOk P rk' where
  inv := h.inv.mono hh ha hn ho hp ht
  ready := by
    intro b row t hlast
    rw [hh] at hlast
    exact le_trans (h.ready b row t hlast) (hc b)
  pos := by rw [hh]; exact h.pos

/-! ### The commands succeed -/

lemma prechargeBank_total {rk : Rank p} (h : RankOk P rk) (off : Nat) {b : Fin p.banksPerRank} {t : Nat}
    (trace : Bool) (hopen : (rk.banks b).openRow ≠ Row.noRow) (ht : (rk.banks b).preAllowedAt ≤ t)
    (hfit : t + totalDelay p < 2 ^ 64) :
    ∃ rk', rk.prechargeBank off b t trace = .ok rk' ∧ Precharges rk rk' b t ∧ RankOk P rk' := by
  have hactive : rk.numBanksActive ≠ 0 := ActiveCounted.ne_zero h.inv.active hopen
  have hpre := precharged_precharges rk off b t trace
  refine ⟨_, prechargeBank_eq_ok.mpr ⟨hopen, hactive, rfl⟩, hpre, ?_⟩
  refine ⟨h.inv.precharge hpre hopen ht hfit, fun i => hpre.colReady fun _ => h.ready i, ?_⟩
  rw [hpre.history, activates_pre]
  exact h.pos

/-- The checks at the start of both activate routines pass. -/
lemma RankInv.canOpen {rk : Rank p} (h : RankInv rk) {b : Fin p.banksPerRank}
    (hclosed : (rk.banks b).openRow = Row.noRow) : rk.canOpen b = .ok () :=
  canOpen_eq_ok.mpr ⟨hclosed, ActiveCounted.room h.active hclosed⟩

lemma RankInv.not_withinXAW {rk : Rank p} (h : RankInv rk) {b : Fin p.banksPerRank} {t : Nat}
    (ht : (rk.banks b).actAllowedAt ≤ t) : ¬rk.WithinXAW t := by
  rintro ⟨hne, hlt⟩
  have hx := h.xaw hne b
  rw [sub64_of_le (by omega)] at hlt
  omega

lemma activateBank_total {rk : Rank p} (h : RankInv rk) (off : Nat) {b : Fin p.banksPerRank} {t : Nat} (row : Nat)
    (hclosed : (rk.banks b).openRow = Row.noRow) (hrow : row ≠ Row.noRow)
    (ht : (rk.banks b).actAllowedAt ≤ t) (hfit : t + totalDelay p < 2 ^ 64) :
    ∃ rk', rk.activateBank off b t row = .ok rk' ∧
      Activates rk rk' b row t (t + p.tRAS) (t + p.tRCD) ∧ RankInv rk' := by
  have hact := activated_activates rk off b t row
  have hrcd : add64 t p.tRCD = t + p.tRCD := add64_of_lt (by unfold totalDelay at hfit; omega)
  rw [add64_tRAS hfit, hrcd] at hact
  have hlen : rk.actTicks.length = p.activationLimit := by rw [h.actTicks, length_window]
  obtain ⟨-, hroom⟩ := canOpen_eq_ok.mp (h.canOpen hclosed)
  exact ⟨_, activateBank_eq_ok.mpr ⟨hlen, hclosed, hroom, .inr (h.not_withinXAW ht), rfl⟩, hact,
    h.activate hact hclosed hrow ht le_rfl hfit⟩

lemma Activates.pos {rk rk' : Rank p} {b : Fin p.banksPerRank} {row t pre col : Nat}
    (hact : Activates rk rk' b row t pre col) (h : P → ∀ x ∈ activates rk.history, 0 < x.2)
    (ht : P → 0 < t) : P → ∀ x ∈ activates rk'.history, 0 < x.2 := by
  intro hP x hx
  rw [hact.history, activates_act] at hx
  rcases List.mem_append.mp hx with hx | hx
  · exact h hP x hx
  · obtain rfl : x = (b, t) := by simpa using hx
    exact ht hP

/-- An activate followed at once by the precharge that the bank allows first. -/
lemma activate_precharge_total {rk mid : Rank p} (h : RankOk P rk) (off : Nat) {b : Fin p.banksPerRank}
    {row t pre col : Nat} (hact : Activates rk mid b row t pre col) (hmid : RankInv mid)
    (hrow : row ≠ Row.noRow) (ht : P → 0 < t) (hfit : t + totalDelay p < 2 ^ 64)
    (hpre : (mid.banks b).preAllowedAt + totalDelay p < 2 ^ 64) :
    ∃ rk', mid.prechargeBank off b (mid.banks b).preAllowedAt true = .ok rk' ∧ RankOk P rk' ∧
      (rk'.banks b).openRow = Row.noRow ∧ t ≤ (rk'.banks b).actAllowedAt := by
  have hopen : (mid.banks b).openRow ≠ Row.noRow := by
    rw [hact.openRow, if_pos rfl]
    exact hrow
  have hactive : mid.numBanksActive ≠ 0 := by
    rw [hact.numBanksActive]
    omega
  have hclose := precharged_precharges mid off b (mid.banks b).preAllowedAt true
  refine ⟨_, prechargeBank_eq_ok.mpr ⟨hopen, hactive, rfl⟩, ⟨?_, ?_, ?_⟩, ?_, ?_⟩
  · exact hmid.precharge hclose hopen le_rfl hpre
  · exact fun i => hclose.colReady fun hi => hact.colReady_of_ne (h.ready i) hi
  · rw [hclose.history, activates_pre]
    exact hact.pos h.pos ht
  · rw [hclose.openRow, if_pos rfl]
  · have hrrd := hact.rrd b
    rw [add64_rrdDelay hfit] at hrrd
    exact le_trans (le_trans (Nat.le_add_right _ _) hrrd) (hclose.actAllowedAt b)

lemma issue_total {rk : Rank p} (h : RankOk P rk) {T : Nat} (hw : RankWithin T rk)
    (hT : T + 2 * totalDelay p < 2 ^ 64) (off : Nat) {b : Fin p.banksPerRank} {t : Nat} (c : BankCommand)
    (hc : c ≠ .ap Row.noRow) (hclosed : (rk.banks b).openRow = Row.noRow)
    (ht : (rk.banks b).actAllowedAt ≤ t) (hle : t ≤ T) (hpos : P → 0 < t) :
    ∃ rk', rk.issue off b t c = .ok rk' ∧ RankOk P rk' ∧ (rk'.banks b).openRow = Row.noRow ∧
      t ≤ (rk'.banks b).actAllowedAt := by
  have hfit : t + totalDelay p < 2 ^ 64 := by omega
  cases c with
  | ap row =>
    have hrow : row ≠ Row.noRow := fun heq => hc (by rw [heq])
    obtain ⟨mid, hmid, hact, hinv⟩ := activateBank_total h.inv off _ hclosed hrow ht hfit
    have hready : (mid.banks b).preAllowedAt + totalDelay p < 2 ^ 64 := by
      obtain ⟨-, -, -, -, rfl⟩ := activateBank_eq_ok.mp hmid
      have hpre := (activated_within hw hle off b row).pre b
      omega
    obtain ⟨rk', hpre, hrest⟩ := activate_precharge_total h off hact hinv hrow hpos hfit hready
    exact ⟨rk', bind_eq_ok.mpr ⟨mid, hmid, hpre⟩, hrest⟩
  | aap row1 row2 ov =>
    have hact := doubleActivated_activates rk b t ov
    have hrow : Row.doubleRow ≠ Row.noRow := by decide
    rw [add64_tRAS_tWL hfit] at hact
    have hinv := h.inv.activate hact hclosed hrow ht (Nat.le_add_right _ _) hfit
    have hready := (doubleActivated_within hw hle b ov).pre b
    obtain ⟨rk', hpre, hrest⟩ := activate_precharge_total h off hact hinv hrow hpos hfit (by omega)
    exact ⟨rk', bind_eq_ok.mpr ⟨(), h.inv.canOpen hclosed, hpre⟩, hrest⟩

lemma issueAll_total {rk : Rank p} (h : RankOk P rk) {T : Nat} (hw : RankWithin T rk) (off : Nat)
    {b : Fin p.banksPerRank} {t : Nat} (cs : List BankCommand)
    (hT : T + cs.length * (2 * totalDelay p) < 2 ^ 64) (hcs : ∀ c ∈ cs, c ≠ .ap Row.noRow)
    (hclosed : (rk.banks b).openRow = Row.noRow) (ht : (rk.banks b).actAllowedAt ≤ t) (hle : t ≤ T)
    (hpos : P → 0 < t) : ∃ r, rk.issueAll off b t cs = .ok r ∧ RankOk P r.1 := by
  induction cs generalizing rk t T with
  | nil => exact ⟨_, rfl, h⟩
  | cons c cs ih =>
    rw [List.length_cons, Nat.succ_mul] at hT
    obtain ⟨mid, hmid, hok, hclosed', hlater⟩ :=
      issue_total h hw (by omega) off c (hcs c (by simp)) hclosed ht hle hpos
    have hmidw := issue_within hw hle hmid
    obtain ⟨r, hr, hokr⟩ := ih hok hmidw (by omega) (fun c' hc' => hcs c' (by simp [hc'])) hclosed' le_rfl
      (hmidw.act b) (fun hP => lt_of_lt_of_le (hpos hP) hlater)
    exact ⟨r, bind_eq_ok.mpr ⟨mid, hmid, hr⟩, hokr⟩

lemma closeBank_total {rk : Rank p} (h : RankOk P rk) {T : Nat} (hw : RankWithin T rk)
    (hT : T + totalDelay p < 2 ^ 64) (off : Nat) (b : Fin p.banksPerRank) {now : Nat} (hnow : now ≤ T) :
    ∃ rk', rk.closeBank off b now = .ok rk' ∧ RankOk P rk' ∧ (rk'.banks b).openRow = Row.noRow := by
  unfold closeBank
  split
  · rename_i hopen
    have hmax := max_le (hw.pre b) hnow
    obtain ⟨rk', hok, hpre, hrk⟩ := prechargeBank_total h off (t := max (rk.banks b).preAllowedAt now)
      true hopen (le_max_left _ _) (by omega)
    refine ⟨rk', hok, hrk, ?_⟩
    rw [hpre.openRow, if_pos rfl]
  · rename_i hclosed
    exact ⟨rk, rfl, h, not_not.mp hclosed⟩

/-- No row operation activates the name of no row alone. -/
lemma rowOpCommands_ne (op : RowOp) (row src1Row src2Row : Nat) :
    ∀ c ∈ rowOpCommands op row src1Row src2Row, c ≠ .ap Row.noRow := by
  cases op <;> simp [rowOpCommands] <;> decide

/-! ### Accesses succeed -/

/-- The invariant of the channel. -/
def RanksOk (P : Prop) (c : Channel p) : Prop := ∀ r, RankOk P (c.ranks r)

lemma RanksOk.update {c : Channel p} (h : RanksOk P c) {r : Fin p.ranksPerChannel}
    {rk : Rank p} (hrk : RankOk P rk) : ∀ i, RankOk P (Function.update c.ranks r rk i) := by
  intro i
  rw [Function.update_apply]
  split
  · exact hrk
  · exact h i

section Accesses

variable {c : Channel p} {T now : Nat}

lemma doRowOp_total (h : RanksOk P c) (hw : ChannelWithin T c) (hT : T + 16 * totalDelay p < 2 ^ 64)
    (hle : now ≤ T) (hnow : P → 0 < now) (d : DRAMPacket p) (op : RowOp) :
    ∃ r, c.doRowOp now d op = .ok r ∧ RanksOk P r.2 := by
  obtain ⟨mid, hclose, hmid, hclosed⟩ :=
    closeBank_total (h d.rank) (hw.ranks d.rank) (by omega) c.timeStampOffset d.bank hle
  have hmidw := closeBank_within (hw.ranks d.rank) hle hclose
  have hlen := Nat.mul_le_mul_right (2 * totalDelay p) (rowOpCommands_length op d.row.val d.src1Row d.src2Row)
  obtain ⟨⟨rk, cmdAt⟩, hissue, hrk⟩ := issueAll_total hmid hmidw c.timeStampOffset
    (t := max (max (c.bank d).colAllowedAt now) (mid.banks d.bank).actAllowedAt)
    (rowOpCommands op d.row.val d.src1Row d.src2Row) (by omega) (rowOpCommands_ne _ _ _ _) hclosed (le_max_right _ _)
    (max_le (le_trans (max_le ((hw.ranks d.rank).col d.bank) hle) (Nat.le_add_right _ _)) (hmidw.act d.bank))
    (fun hP => lt_of_lt_of_le (hnow hP) (le_trans (le_max_right _ _) (le_max_left _ _)))
  exact ⟨_, bind_eq_ok.mpr ⟨mid, hclose, bind_eq_ok.mpr ⟨_, hissue, rfl⟩⟩, h.update hrk⟩

/-- After `openRow` the row is open, and the column command may be issued at the tick returned. -/
lemma openRow_total (h : RanksOk P c) (hw : ChannelWithin T c) (hT : T + 16 * totalDelay p < 2 ^ 64)
    (hle : now ≤ T) (hnow : P → 0 < now) (d : DRAMPacket p) :
    ∃ r, c.openRow now d = .ok r ∧ RankOk P r.1 ∧ (r.1.banks d.bank).openRow = d.row.val ∧
      (r.1.banks d.bank).colAllowedAt ≤ r.2 := by
  unfold Channel.openRow
  split
  · rename_i hhit
    exact ⟨_, rfl, h d.rank, hhit, le_max_left _ _⟩
  · obtain ⟨mid, hclose, hmid, hclosed⟩ :=
      closeBank_total (h d.rank) (hw.ranks d.rank) (by omega) c.timeStampOffset d.bank hle
    have hact := (closeBank_within (hw.ranks d.rank) hle hclose).act d.bank
    have hmax : max (mid.banks d.bank).actAllowedAt now ≤ T + totalDelay p := max_le hact (by omega)
    obtain ⟨rk, hok, hact, hinv⟩ := activateBank_total hmid.inv c.timeStampOffset
      (t := max (mid.banks d.bank).actAllowedAt now) d.row.val hclosed d.row.isLt.ne (le_max_left _ _) (by omega)
    refine ⟨_, bind_eq_ok.mpr ⟨mid, hclose, bind_eq_ok.mpr ⟨rk, hok, rfl⟩⟩, ⟨hinv, ?_, ?_⟩, ?_, le_rfl⟩
    · intro i
      by_cases hi : i = d.bank
      · subst hi
        exact hact.colReady_self
      · exact hact.colReady_of_ne (hmid.ready i) hi
    · exact hact.pos hmid.pos (fun hP => lt_of_lt_of_le (hnow hP) (le_max_right _ _))
    · rw [hact.openRow, if_pos rfl]

end Accesses

lemma RankOk.column {rk : Rank p} (h : RankOk P rk) {b : Fin p.banksPerRank} {row t : Nat}
    (hopen : (rk.banks b).openRow = row) (hrow : row ≠ Row.noRow)
    (ht : (rk.banks b).colAllowedAt ≤ t) : RankOk P (rk.record (.col b row t)) where
  inv := h.inv.column hopen hrow (h.ready b) ht
  ready := by
    intro i row' t' hlast
    simp only [record, rowCommands_col] at hlast
    exact h.ready i row' t' hlast
  pos := by
    simp only [record, activates_col]
    exact h.pos

lemma RanksOk.holdCols {c : Channel p} (h : RanksOk P c) (d : DRAMPacket p) (t : Nat) :
    RanksOk P (c.holdCols d t) := fun r =>
  (h r).mono rfl rfl rfl (fun _ => rfl) (fun _ => le_rfl) (fun _ => le_rfl) (fun _ => le_max_right _ _)

lemma RankOk.finishBank {rk : Rank p} (h : RankOk P rk) (d : DRAMPacket p) (cmdAt readyTime : Nat) :
    RankOk P (rk.setBank d.bank (finishBank (rk.banks d.bank) d cmdAt readyTime)) := by
  refine h.mono rfl rfl rfl ?_ ?_ ?_ ?_ <;> intro b <;> by_cases hb : b = d.bank
  · subst hb
    simp [setBank, Channel.finishBank]
  · simp [setBank, hb]
  · subst hb
    simp [setBank, Channel.finishBank]
  · simp [setBank, hb]
  · subst hb
    simp [setBank, Channel.finishBank]
  · simp [setBank, hb]
  · subst hb
    simp [setBank, Channel.finishBank]
  · simp [setBank, hb]

lemma closeRow_total {rk : Rank p} (h : RankOk P rk) {T : Nat} (hw : RankWithin T rk)
    (hT : T + totalDelay p < 2 ^ 64) (off now : Nat) (hle : now ≤ T) (d : DRAMPacket p)
    (rest : List (DRAMPacket p)) (hopen : (rk.banks d.bank).openRow ≠ Row.noRow) :
    ∃ rk', closeRow rk off now d rest = .ok rk' ∧ RankOk P rk' := by
  unfold closeRow
  split
  · have hmax := max_le hle (hw.pre d.bank)
    obtain ⟨rk', hok, -, hrk⟩ := prechargeBank_total h off
      (t := max now (rk.banks d.bank).preAllowedAt) true hopen (le_max_right _ _) (by omega)
    exact ⟨rk', hok, hrk⟩
  · exact ⟨rk, rfl, h⟩

section Calls

variable {c : Channel p} {T now : Nat}

lemma doBurst_total (h : RanksOk P c) (hw : ChannelWithin T c) (hT : T + 16 * totalDelay p < 2 ^ 64)
    (hle : now ≤ T) (hnow : P → 0 < now) (d : DRAMPacket p) (rest : List (DRAMPacket p)) :
    ∃ r, c.doBurst now d rest = .ok r ∧ RanksOk P r.2 := by
  obtain ⟨⟨rk, t⟩, hopen, hrk, hrow, hcol⟩ := openRow_total h hw hT hle hnow d
  obtain ⟨hrkw, ht⟩ := openRow_within (hw.ranks d.rank) hle hopen
  simp only at hrk hrow hcol
  have hfits := hw.burstFits hT ht
  have hcmd := hw.column_le ht
  set cmdAt := max t (sub64 c.busBusyUntil p.tCL) with hcmdAt
  have hrec := hrk.column hrow d.row.isLt.ne (le_trans hcol (le_max_left t (sub64 c.busBusyUntil p.tCL)))
  have hset : RanksOk P (c.setRank d.rank (rk.record (.col d.bank d.row.val cmdAt))) := h.update hrec
  have hheld := hset.holdCols d cmdAt
  have hfin := (hheld d.rank).finishBank d cmdAt (add64 (add64 cmdAt p.tCL) p.tBURST)
  have hfinw := (hw.column (d := d) hrkw hcmd d.row.val d.rank).burst (d := d) hcmd hT
  obtain ⟨rk', hclose, hrk'⟩ := closeRow_total hfin hfinw (by omega) c.timeStampOffset now (by omega) d rest (by
    simpa [setBank, Channel.finishBank, Channel.holdCols, Channel.setRank, record, hrow] using
      d.row.isLt.ne)
  refine ⟨_, bind_eq_ok.mpr ⟨_, hopen, bind_eq_ok.mpr ⟨(), ensure_eq_ok.mpr hfits,
    bind_eq_ok.mpr ⟨rk', hclose, rfl⟩⟩⟩, ?_⟩
  intro r
  rw [countAccess_ranks]
  refine hheld.update ?_ r
  exact hrk'.mono rfl rfl rfl (fun _ => rfl) (fun _ => le_rfl) (fun _ => le_rfl) (fun _ => le_rfl)

/-- Every access succeeds and keeps the invariant, as long as no time is near the end of the 64-bit range. -/
theorem doDRAMAccess_total (h : RanksOk P c) (hw : ChannelWithin T c) (hT : T + 16 * totalDelay p < 2 ^ 64)
    (hle : now ≤ T) (hnow : P → 0 < now) (d : DRAMPacket p) (rest : List (DRAMPacket p)) :
    ∃ r, c.doDRAMAccess now d rest = .ok r ∧ RanksOk P r.2 := by
  unfold doDRAMAccess
  split
  · exact doRowOp_total h hw hT hle hnow d _
  · exact doBurst_total h hw hT hle hnow d rest

/-! ### Sequences of accesses -/

lemma calls_total {s : Calls p} (h : RanksOk P s.channel) (hw : ChannelWithin T s.channel) (calls : List (Call p))
    (hle : ∀ a ∈ calls, a.now ≤ T) (hT : T + (calls.map Call.bubble).sum + calls.length * reach p < 2 ^ 64)
    (hnow : ∀ a ∈ calls, P → 0 < a.now) :
    ∃ t, runFrom Calls.access s calls = .ok t ∧ RanksOk P t.channel := by
  induction calls generalizing s T with
  | nil => exact ⟨s, rfl, h⟩
  | cons a calls ih =>
    simp only [List.map_cons, List.sum_cons, List.length_cons, Nat.succ_mul] at hT
    have hlea := hle a List.mem_cons_self
    have hroom : T + a.bubble + reach p < 2 ^ 64 := by omega
    have hreach : reach p = 17 * totalDelay p := rfl
    have hbubble : RanksOk P (s.channel.advanceBus a.bubble) := h
    obtain ⟨r, hr, hok⟩ := doDRAMAccess_total hbubble (hw.advanceBus a.bubble (by omega)) (by omega)
      (by omega) (hnow a List.mem_cons_self) a.pkt a.rest
    have haccess : s.access a = .ok ⟨r.2, s.served ++ [r.1]⟩ := bind_eq_ok.mpr ⟨r, hr, rfl⟩
    have hnext := access_within hw hlea hroom haccess
    obtain ⟨t, ht, htok⟩ := ih (s := ⟨r.2, s.served ++ [r.1]⟩) hok (T := T + a.bubble + reach p)
      (hnext.mono (by omega)) (fun a' ha' => by have := hle a' (List.mem_cons_of_mem a ha'); omega) (by omega)
      (fun a' ha' => hnow a' (List.mem_cons_of_mem a ha'))
    exact ⟨t, bind_eq_ok.mpr ⟨_, haccess, ht⟩, htok⟩

lemma ranksOk_startup (p : Params) (now : Nat) : RanksOk P (Channel.startup p now) := fun _ =>
  ⟨rankInv_init p _, fun _ _ _ h => by simp [Channel.startup, Rank.init, rowCommands] at h,
    fun _ x hx => by simp [Channel.startup, Rank.init, activates] at hx⟩

/-- From start-up, a sequence of calls with room for its ticks succeeds. -/
lemma CallsFit.total {start last : Nat} {calls : List (Call p)} (h : CallsFit start last calls)
    (hnow : ∀ a ∈ calls, P → 0 < a.now) :
    ∃ t, runFrom Calls.access (Calls.startup p start) calls = .ok t ∧ RanksOk P t.channel := by
  have hroom := h.room
  rw [Nat.succ_mul] at hroom
  refine calls_total (ranksOk_startup p start) h.startup calls (fun a ha => ?_) (by omega) hnow
  exact (h.now a ha).trans (Nat.le_add_right _ _)

end Calls

/-- Every sequence of accesses at positive ticks succeeds, and the commands it issues to each rank are legal,
if the ticks leave room for the delays of all accesses in 64 bits. -/
theorem accesses_issue_legal_commands (p : Params) (start last : Nat) (calls : List (Call p))
    (hpos : ∀ a ∈ calls, 0 < a.now) (hfit : CallsFit start last calls) :
    ∃ s, runFrom Calls.access (Calls.startup p start) calls = .ok s ∧
      ∀ r, Legal (s.channel.ranks r).history := by
  obtain ⟨s, hs, hok⟩ := hfit.total (P := True) (fun a ha _ => hpos a ha)
  exact ⟨s, hs, fun r => (hok r).inv.legal ((hok r).pos trivial)⟩

/-- A packet to row 7 of a bank. -/
def packetTo (rank : Fin p.ranksPerChannel) (bank : Fin p.banksPerRank) (rowOp : Option RowOp) : DRAMPacket p where
  entryTime := 1
  readyTime := 1
  pkt := ⟨0, .writeReq 917504 64, false⟩
  isRead := false
  rank := rank
  bank := bank
  row := ⟨7, by decide⟩
  src1Row := 5
  src2Row := 6
  rowOp := rowOp
  addr := 917504
  size := 64
  burstHelper := none

def packetToRow7 (rowOp : Option RowOp) : DRAMPacket ddr3_1600_x64 :=
  packetTo ⟨0, by decide⟩ ⟨0, by decide⟩ rowOp

/-- A write, and a row operation on the bank it leaves open. -/
def writeThenXor : List (Call ddr3_1600_x64) :=
  [⟨1, 0, packetToRow7 none, []⟩, ⟨2, 2500, packetToRow7 (some .rowXor), []⟩]

theorem accesses_issue_legal_commands_writeThenXor :
    ∃ s, runFrom Calls.access (Calls.startup ddr3_1600_x64 0) writeThenXor = .ok s ∧
      ∀ r, Legal (s.channel.ranks r).history :=
  accesses_issue_legal_commands ddr3_1600_x64 0 2 writeThenXor (by simp [writeThenXor])
    ⟨by decide, by simp [writeThenXor], by decide⟩

/-! ### Without room -/

/-- A row that has to stay open for nearly 2^64 ticks. -/
def longRAS : Params := { ddr3_1600_x64 with tRAS := 2 ^ 64 - 2048 }

def apAtTick4096 : List (Call longRAS) :=
  [⟨4096, 0, packetTo ⟨0, by decide⟩ ⟨0, by decide⟩ (some .rowAp), []⟩]

/-- The ROWAP precharges its bank at tick 2048. -/
theorem precharge_wraps_before_activate :
    ∃ s, runFrom Calls.access (Calls.startup longRAS 0) apAtTick4096 = .ok s ∧
      (s.channel.ranks ⟨0, by decide⟩).history = [.act ⟨0, by decide⟩ Row.bT0T1T2 4096, .pre ⟨0, by decide⟩ 2048] ∧
      ¬∀ r, Legal (s.channel.ranks r).history := by
  obtain ⟨s, hs, hP⟩ := exists_of_okWith (x := runFrom Calls.access (Calls.startup longRAS 0) apAtTick4096)
    (P := fun s => decide ((s.channel.ranks ⟨0, by decide⟩).history =
      [.act ⟨0, by decide⟩ Row.bT0T1T2 4096, .pre ⟨0, by decide⟩ 2048])) (by decide +kernel)
  have hhist := of_decide_eq_true hP
  refine ⟨s, hs, hhist, fun hlegal => ?_⟩
  have hcycle := (hlegal ⟨0, by decide⟩).cycle ⟨0, by decide⟩
  rw [hhist] at hcycle
  simp [rowCommands, Follows, longRAS] at hcycle

end MimdramLean.Proofs

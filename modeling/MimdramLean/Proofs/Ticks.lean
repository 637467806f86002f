import MimdramLean.Proofs.Commands

/-!
# How far ahead the times of a channel are

A `Tick` has 64 bits. Every time that the controller computes is a tick plus some timing parameters: an
access moves the latest time of a channel by a bounded amount, and no addition wraps as long as there is room
for that. `RankWithin` and `ChannelWithin` bound the times; the commands and accesses say by how much the
bound moves.
-/

namespace MimdramLean.Proofs
open Library Rank Channel

variable {p : Params}

/-- The sum of all timing parameters: no delay that is added to a tick is longer. -/
def totalDelay (p : Params) : Nat :=
  p.tWTR + p.tRTW + p.tCS + p.tBURST + p.tCCDL + p.tRCD + p.tCL + p.tRP + p.tRAS + p.tWR + p.tRTP + p.tRFC +
    p.tREFI + p.tRRD + p.tRRDL + p.tXAW + p.tWL + p.tWLOV

/-- An access moves the latest time by no more than this, its bubble on the data bus included. A row
operation is a precharge and up to seven times an activate and a precharge. -/
def reach (p : Params) : Nat := 17 * totalDelay p

lemma rrdDelay_le (b i : Fin p.banksPerRank) : rrdDelay p b i ≤ totalDelay p := by
  unfold rrdDelay totalDelay
  split <;> omega

lemma colDelay_le (d : DRAMPacket p) (j : Fin p.ranksPerChannel) (i : Fin p.banksPerRank) :
    colDelay d j i ≤ totalDelay p := by
  have hsum := add64_le p.tBURST p.tCS
  unfold colDelay totalDelay
  split
  · split <;> omega
  · omega

lemma tRP_le : p.tRP ≤ totalDelay p := by
  unfold totalDelay
  omega

/-! No sum of a tick and a delay wraps when there is room for all delays. -/

lemma add64_rrdDelay {t : Nat} (h : t + totalDelay p < 2 ^ 64) {b i : Fin p.banksPerRank} :
    add64 t (rrdDelay p b i) = t + rrdDelay p b i :=
  add64_of_lt ((Nat.add_le_add_left (rrdDelay_le b i) t).trans_lt h)

lemma add64_tRP {t : Nat} (h : t + totalDelay p < 2 ^ 64) : add64 t p.tRP = t + p.tRP :=
  add64_of_lt ((Nat.add_le_add_left tRP_le t).trans_lt h)

lemma add64_tRAS {t : Nat} (h : t + totalDelay p < 2 ^ 64) : add64 t p.tRAS = t + p.tRAS :=
  add64_of_lt (by unfold totalDelay at h; omega)

lemma add64_tRAS_tWL {t : Nat} (h : t + totalDelay p < 2 ^ 64) (ov : Bool) :
    add64 (add64 t p.tRAS) (if ov then p.tWLOV else p.tWL) = t + p.tRAS + if ov then p.tWLOV else p.tWL := by
  rw [add64_tRAS h]
  unfold totalDelay at h
  exact add64_of_lt (by split <;> omega)

/-- The tick of a command. -/
def tickOf : Command p → Nat
  | .act _ _ t => t
  | .pre _ t => t
  | .col _ _ t => t

/-- No time of the rank, and no command issued to it, is later than `T`. -/
structure RankWithin (T : Nat) (rk : Rank p) : Prop where
  col : ∀ b, (rk.banks b).colAllowedAt ≤ T
  pre : ∀ b, (rk.banks b).preAllowedAt ≤ T
  act : ∀ b, (rk.banks b).actAllowedAt ≤ T
  ticks : ∀ t ∈ rk.actTicks, t ≤ T
  history : ∀ c ∈ rk.history, tickOf c ≤ T

/-- No time of the channel is later than `T`, and tCL can be taken off the time at which the bus is free. -/
structure ChannelWithin (T : Nat) (c : Channel p) : Prop where
  ranks : ∀ r, RankWithin T (c.ranks r)
  bus : c.busBusyUntil ≤ T
  data : p.tCL ≤ c.busBusyUntil

lemma RankWithin.mono {T T' : Nat} {rk : Rank p} (h : RankWithin T rk) (hle : T ≤ T') : RankWithin T' rk where
  col := fun b => (h.col b).trans hle
  pre := fun b => (h.pre b).trans hle
  act := fun b => (h.act b).trans hle
  ticks := fun t ht => (h.ticks t ht).trans hle
  history := fun c hc => (h.history c hc).trans hle

/-- Only banks, `actTicks` and the history count. -/
lemma RankWithin.congr {T : Nat} {rk rk' : Rank p} (h : RankWithin T rk) (hb : rk'.banks = rk.banks)
    (ha : rk'.actTicks = rk.actTicks) (hh : rk'.history = rk.history) : RankWithin T rk' where
  col := by rw [hb]; exact h.col
  pre := by rw [hb]; exact h.pre
  act := by rw [hb]; exact h.act
  ticks := by rw [ha]; exact h.ticks
  history := by rw [hh]; exact h.history

lemma ChannelWithin.mono {T T' : Nat} {c : Channel p} (h : ChannelWithin T c) (hle : T ≤ T') :
    ChannelWithin T' c :=
  ⟨fun r => (h.ranks r).mono hle, h.bus.trans hle, h.data⟩

/-! ### Commands -/

section Commands

variable {rk rk' : Rank p} {b : Fin p.banksPerRank} {T off now t row pre col : Nat}

lemma RankWithin.snoc (h : RankWithin T rk) {c : Command p} (hc : tickOf c ≤ T) :
    ∀ c' ∈ rk.history ++ [c], tickOf c' ≤ T := by
  intro c' hc'
  rcases List.mem_append.mp hc' with hc' | hc'
  · exact h.history c' hc'
  · obtain rfl : c' = c := by simpa using hc'
    exact hc

lemma Activates.within (hact : Activates rk rk' b row t pre col) (h : RankWithin T rk) (ht : t ≤ T)
    (hpre : pre ≤ T + totalDelay p) (hcol : col ≤ T + totalDelay p) : RankWithin (T + totalDelay p) rk' := by
  have hticks : ∀ x ∈ rk'.actTicks, x ≤ T := by
    intro x hx
    rw [hact.actTicks] at hx
    split at hx
    · cases hx
    · rcases List.mem_cons.mp hx with rfl | hx
      · exact ht
      · exact h.ticks x (List.mem_of_mem_dropLast hx)
  have hold := oldestAct_le hticks
  have hxaw : p.tXAW ≤ totalDelay p := by
    unfold totalDelay
    omega
  have hlater := h.mono (Nat.le_add_right T (totalDelay p))
  refine ⟨fun i => ?_, fun i => ?_, fun i => ?_, fun x hx => ?_, ?_⟩
  · rw [hact.colAllowedAt]
    split
    · exact max_le hcol (hlater.col i)
    · exact hlater.col i
  · rw [hact.preAllowedAt]
    split
    · exact hpre
    · exact hlater.pre i
  · have hrrd := rrdDelay_le (p := p) b i
    exact (hact.actAtMost i).trans (max_le (max_le (by omega) (hlater.act i)) (by omega))
  · exact (hticks x hx).trans (Nat.le_add_right _ _)
  · rw [hact.history]
    exact hlater.snoc (ht.trans (Nat.le_add_right _ _))

lemma Precharges.within (hpre : Precharges rk rk' b t) (h : RankWithin T rk) (ht : t + p.tRP ≤ T) :
    RankWithin T rk' := by
  refine ⟨fun i => ?_, fun i => ?_, fun i => ?_, ?_, ?_⟩
  · rw [hpre.colAllowedAt]
    exact h.col i
  · rw [hpre.preAllowedAt]
    split
    · omega
    · exact h.pre i
  · exact (hpre.actAtMost i).trans (max_le (h.act i) ht)
  · rw [hpre.actTicks]
    exact h.ticks
  · rw [hpre.history]
    exact h.snoc (le_trans (Nat.le_add_right _ _) ht)

lemma prechargeBank_within {trace : Bool} (h : RankWithin T rk) (ht : t + p.tRP ≤ T)
    (hok : rk.prechargeBank off b t trace = .ok rk') : RankWithin T rk' := by
  obtain ⟨-, -, rfl⟩ := prechargeBank_eq_ok.mp hok
  exact (precharged_precharges rk off b t trace).within h ht

lemma activated_within (h : RankWithin T rk) (ht : t ≤ T) (off : Nat) (b : Fin p.banksPerRank) (row : Nat) :
    RankWithin (T + totalDelay p) (rk.activated off b t row) := by
  have hras := add64_le t p.tRAS
  have hrcd := add64_le t p.tRCD
  refine (activated_activates rk off b t row).within h ht ?_ ?_
  all_goals
    unfold totalDelay
    omega

lemma doubleActivated_within (h : RankWithin T rk) (ht : t ≤ T) (b : Fin p.banksPerRank) (ov : Bool) :
    RankWithin (T + totalDelay p) (rk.doubleActivated b t ov) := by
  have hwl : (if ov then p.tWLOV else p.tWL) ≤ p.tWLOV + p.tWL := by split <;> omega
  have hras := add64_le t p.tRAS
  have hsum := add64_le (add64 t p.tRAS) (if ov then p.tWLOV else p.tWL)
  refine (doubleActivated_activates rk b t ov).within h ht (hsum.trans ?_) (Nat.zero_le _)
  unfold totalDelay
  omega

/-- A precharge at the first tick that the bank allows. -/
lemma prechargeNext_within (h : RankWithin T rk)
    (hok : rk.prechargeBank off b (rk.banks b).preAllowedAt true = .ok rk') :
    RankWithin (T + totalDelay p) rk' := by
  have hpre := h.pre b
  have hrp := tRP_le (p := p)
  exact prechargeBank_within (h.mono (Nat.le_add_right _ _)) (by omega) hok

lemma issue_within {c : BankCommand} (h : RankWithin T rk) (ht : t ≤ T) (hok : rk.issue off b t c = .ok rk') :
    RankWithin (T + 2 * totalDelay p) rk' := by
  rw [Nat.two_mul, ← Nat.add_assoc]
  cases c with
  | ap row =>
    obtain ⟨mid, hact, hpre⟩ := bind_eq_ok.mp hok
    obtain ⟨-, -, -, -, rfl⟩ := activateBank_eq_ok.mp hact
    exact prechargeNext_within (activated_within h ht off b row) hpre
  | aap row1 row2 ov =>
    obtain ⟨-, -, hpre⟩ := bind_eq_ok.mp hok
    exact prechargeNext_within (doubleActivated_within h ht b ov) hpre

lemma issueAll_within {cs : List BankCommand} {r : Rank p × Nat} (h : RankWithin T rk) (ht : t ≤ T)
    (hok : rk.issueAll off b t cs = .ok r) :
    RankWithin (T + cs.length * (2 * totalDelay p)) r.1 ∧ r.2 ≤ T + cs.length * (2 * totalDelay p) := by
  induction cs generalizing rk t T with
  | nil =>
    cases hok
    rw [List.length_nil, Nat.zero_mul, Nat.add_zero]
    exact ⟨h, ht⟩
  | cons c cs ih =>
    obtain ⟨mid, hc, hrest⟩ := bind_eq_ok.mp hok
    have hmid := issue_within h ht hc
    rw [List.length_cons, Nat.succ_mul, Nat.add_comm (cs.length * _), ← Nat.add_assoc]
    exact ih hmid (hmid.act b) hrest

lemma closeBank_within (h : RankWithin T rk) (hnow : now ≤ T) (hok : rk.closeBank off b now = .ok rk') :
    RankWithin (T + totalDelay p) rk' := by
  have hlater := h.mono (Nat.le_add_right T (totalDelay p))
  unfold closeBank at hok
  split at hok
  · have hmax := max_le (h.pre b) hnow
    have hrp := tRP_le (p := p)
    exact prechargeBank_within hlater (by omega) hok
  · cases hok
    exact hlater

lemma closeRow_within {d : DRAMPacket p} {rest : List (DRAMPacket p)} (h : RankWithin T rk) (hnow : now ≤ T)
    (hok : closeRow rk off now d rest = .ok rk') : RankWithin (T + totalDelay p) rk' := by
  have hlater := h.mono (Nat.le_add_right T (totalDelay p))
  unfold closeRow at hok
  split at hok
  · have hmax := max_le hnow (h.pre d.bank)
    have hrp := tRP_le (p := p)
    exact prechargeBank_within hlater (by omega) hok
  · cases hok
    exact hlater

end Commands

/-! ### Accesses -/

lemma rowOpCommands_length (op : RowOp) (row src1Row src2Row : Nat) :
    (rowOpCommands op row src1Row src2Row).length ≤ 7 := by
  cases op <;> simp [rowOpCommands]

section Accesses

variable {c : Channel p} {T now : Nat} {d : DRAMPacket p} {r : DRAMPacket p × Channel p}

lemma ChannelWithin.update (h : ∀ i, RankWithin T (c.ranks i)) {i : Fin p.ranksPerChannel} {rk : Rank p}
    (hrk : RankWithin T rk) : ∀ j, RankWithin T (Function.update c.ranks i rk j) := by
  intro j
  rw [Function.update_apply]
  split
  · exact hrk
  · exact h j

/-- The rank with the bank of a row operation closed, and the tick of its first command. -/
lemma closeForRowOp_within {mid : Rank p} (h : ChannelWithin T c) (hnow : now ≤ T)
    (hclose : (c.ranks d.rank).closeBank c.timeStampOffset d.bank now = .ok mid) : RankWithin (T + totalDelay p) mid ∧
      max (max (c.bank d).colAllowedAt now) (mid.banks d.bank).actAllowedAt ≤ T + totalDelay p := by
  have hmid := closeBank_within (h.ranks d.rank) hnow hclose
  have hcol := max_le ((h.ranks d.rank).col d.bank) hnow
  exact ⟨hmid, max_le (hcol.trans (Nat.le_add_right _ _)) (hmid.act d.bank)⟩

lemma doRowOp_within {op : RowOp} (h : ChannelWithin T c) (hnow : now ≤ T)
    (hT : T + 16 * totalDelay p < 2 ^ 64) (hok : c.doRowOp now d op = .ok r) :
    ChannelWithin (T + 16 * totalDelay p) r.2 := by
  obtain ⟨mid, hclose, hok⟩ := bind_eq_ok.mp hok
  obtain ⟨⟨rk, cmdAt⟩, hissue, hok⟩ := bind_eq_ok.mp hok
  cases hok
  obtain ⟨hmid, hstart⟩ := closeForRowOp_within h hnow hclose
  obtain ⟨hrk, hcmd⟩ := issueAll_within hmid hstart hissue
  have hlen := Nat.mul_le_mul_right (2 * totalDelay p) (rowOpCommands_length op d.row.val d.src1Row d.src2Row)
  have hcl : p.tCL ≤ totalDelay p := by
    unfold totalDelay
    omega
  have hready : add64 cmdAt p.tCL = cmdAt + p.tCL := add64_of_lt (by simp only at hcmd; omega)
  refine ⟨ChannelWithin.update (fun i => (h.ranks i).mono (Nat.le_add_right _ _)) (hrk.mono (by omega)), ?_, ?_⟩
  · simp only [setBusy, hready] at hcmd ⊢
    omega
  · simp only [setBusy, hready]
    omega

/-- The rank with the row of an access open, and the tick from which the column command may be issued. -/
lemma openRow_within {r : Rank p × Nat} (h : RankWithin T (c.ranks d.rank)) (hnow : now ≤ T)
    (hok : c.openRow now d = .ok r) :
    RankWithin (T + 2 * totalDelay p) r.1 ∧ r.2 ≤ T + 2 * totalDelay p := by
  unfold Channel.openRow at hok
  split at hok
  · cases hok
    exact ⟨h.mono (Nat.le_add_right _ _), (max_le (h.col d.bank) hnow).trans (Nat.le_add_right _ _)⟩
  · obtain ⟨mid, hclose, hok⟩ := bind_eq_ok.mp hok
    obtain ⟨rk, hact, hok⟩ := bind_eq_ok.mp hok
    cases hok
    obtain ⟨-, -, -, -, rfl⟩ := activateBank_eq_ok.mp hact
    have hmid := closeBank_within h hnow hclose
    rw [Nat.two_mul, ← Nat.add_assoc]
    have hrk := activated_within hmid (max_le (hmid.act d.bank) (hnow.trans (Nat.le_add_right _ _)))
      c.timeStampOffset d.bank d.row.val
    exact ⟨hrk, hrk.col d.bank⟩

lemma RankWithin.setBank {rk : Rank p} (h : RankWithin T rk) {b : Fin p.banksPerRank} {bank : Bank}
    (hcol : bank.colAllowedAt ≤ T) (hpre : bank.preAllowedAt ≤ T) (hact : bank.actAllowedAt ≤ T) :
    RankWithin T (rk.setBank b bank) := by
  refine ⟨fun i => ?_, fun i => ?_, fun i => ?_, h.ticks, h.history⟩
  all_goals
    simp only [Rank.setBank, Function.update_apply]
    split
  · exact hcol
  · exact h.col i
  · exact hpre
  · exact h.pre i
  · exact hact
  · exact h.act i

lemma RankWithin.record {rk : Rank p} (h : RankWithin T rk) {cmd : Command p} (hc : tickOf cmd ≤ T) :
    RankWithin T (rk.record cmd) :=
  ⟨h.col, h.pre, h.act, h.ticks, h.snoc hc⟩

lemma RankWithin.holdCols (h : ∀ i, RankWithin T (c.ranks i)) {cmdAt : Nat} (hcmd : cmdAt + totalDelay p ≤ T) :
    ∀ i, RankWithin T ((c.holdCols d cmdAt).ranks i) := by
  refine fun j => ⟨fun i => max_le ?_ ((h j).col i), (h j).pre, (h j).act, (h j).ticks, (h j).history⟩
  have hsum := add64_le cmdAt (colDelay d j i)
  have hdelay := colDelay_le d j i
  omega

lemma RankWithin.finishBank {rk : Rank p} (h : RankWithin T rk) {cmdAt readyTime : Nat}
    (hcmd : cmdAt + p.tRTP ≤ T) (hready : readyTime + p.tWR ≤ T) :
    RankWithin T (rk.setBank d.bank (finishBank (rk.banks d.bank) d cmdAt readyTime)) := by
  have hpre : (Channel.finishBank (rk.banks d.bank) d cmdAt readyTime).preAllowedAt ≤ T := by
    refine max_le (h.pre d.bank) ?_
    split
    · exact (add64_le _ _).trans hcmd
    · exact (add64_le _ _).trans hready
  exact h.setBank (h.col d.bank) hpre (h.act d.bank)

/-- The tick of the column command of an access. -/
lemma ChannelWithin.column_le (h : ChannelWithin T c) {t : Nat} (ht : t ≤ T + 2 * totalDelay p) :
    max t (sub64 c.busBusyUntil p.tCL) ≤ T + 2 * totalDelay p := by
  have hbus := h.bus
  rw [sub64_of_le h.data]
  exact max_le ht (by omega)

lemma readyTime_eq {cmdAt : Nat} (h : cmdAt + totalDelay p < 2 ^ 64) :
    add64 (add64 cmdAt p.tCL) p.tBURST = cmdAt + p.tCL + p.tBURST := by
  unfold totalDelay at h
  have hcl : add64 cmdAt p.tCL = cmdAt + p.tCL := add64_of_lt (by omega)
  rw [hcl]
  exact add64_of_lt (by omega)

/-- The ranks after a column command at `cmdAt`. -/
lemma ChannelWithin.column (h : ChannelWithin T c) {rk : Rank p} (hrk : RankWithin (T + 2 * totalDelay p) rk)
    {cmdAt : Nat} (hcmd : cmdAt ≤ T + 2 * totalDelay p) (row : Nat) :
    ∀ i, RankWithin (T + 3 * totalDelay p)
      (((c.setRank d.rank (rk.record (.col d.bank row cmdAt))).holdCols d cmdAt).ranks i) := by
  have hrec : RankWithin (T + 3 * totalDelay p) (rk.record (.col d.bank row cmdAt)) :=
    (hrk.mono (by omega)).record (by simp only [tickOf]; omega)
  exact RankWithin.holdCols (ChannelWithin.update (fun i => (h.ranks i).mono (by omega)) hrec) (by omega)

lemma RankWithin.burst {rk : Rank p} (h : RankWithin (T + 3 * totalDelay p) rk) {cmdAt : Nat}
    (hcmd : cmdAt ≤ T + 2 * totalDelay p) (hT : T + 16 * totalDelay p < 2 ^ 64) :
    RankWithin (T + 4 * totalDelay p) (rk.setBank d.bank (Channel.finishBank (rk.banks d.bank) d cmdAt
      (add64 (add64 cmdAt p.tCL) p.tBURST))) := by
  have hlater : RankWithin (T + 4 * totalDelay p) rk := h.mono (by omega)
  rw [readyTime_eq (by omega)]
  apply hlater.finishBank
  all_goals
    unfold totalDelay at hcmd ⊢
    omega

lemma doBurst_within {rest : List (DRAMPacket p)} (h : ChannelWithin T c) (hnow : now ≤ T)
    (hT : T + 16 * totalDelay p < 2 ^ 64) (hok : c.doBurst now d rest = .ok r) :
    ChannelWithin (T + 16 * totalDelay p) r.2 := by
  obtain ⟨⟨rk, t⟩, hopen, hok⟩ := bind_eq_ok.mp hok
  obtain ⟨_, -, hok⟩ := bind_eq_ok.mp hok
  obtain ⟨rk', hclose, hok⟩ := bind_eq_ok.mp hok
  cases hok
  obtain ⟨hrk, ht⟩ := openRow_within (h.ranks d.rank) hnow hopen
  have hcmd := h.column_le ht
  generalize max t (sub64 c.busBusyUntil p.tCL) = cmdAt at hcmd hclose ⊢
  have hheld := h.column (d := d) hrk hcmd d.row.val
  have hclosed := closeRow_within ((hheld d.rank).burst hcmd hT) (by omega) hclose
  have hready : add64 (add64 cmdAt p.tCL) p.tBURST = cmdAt + p.tCL + p.tBURST := readyTime_eq (by omega)
  have hdelays : p.tCL + p.tBURST ≤ totalDelay p := by
    unfold totalDelay
    omega
  refine ⟨fun i => ?_, ?_, ?_⟩
  · rw [countAccess_ranks]
    refine ChannelWithin.update (fun j => (hheld j).mono (by omega)) ?_ i
    have hend : RankWithin (T + 16 * totalDelay p) rk' := hclosed.mono (by omega)
    exact hend.congr rfl rfl rfl
  · rw [countAccess_busBusyUntil]
    simp only [setBusy, hready]
    omega
  · rw [countAccess_busBusyUntil]
    simp only [setBusy, hready]
    omega

theorem doDRAMAccess_within {rest : List (DRAMPacket p)} (h : ChannelWithin T c) (hnow : now ≤ T)
    (hT : T + 16 * totalDelay p < 2 ^ 64) (hok : c.doDRAMAccess now d rest = .ok r) :
    ChannelWithin (T + 16 * totalDelay p) r.2 := by
  unfold doDRAMAccess at hok
  split at hok
  · exact doRowOp_within h hnow hT hok
  · exact doBurst_within h hnow hT hok

/-- The bus is free when the data of an access arrives. -/
lemma ChannelWithin.burstFits (h : ChannelWithin T c) (hT : T + 16 * totalDelay p < 2 ^ 64) {t : Nat}
    (ht : t ≤ T + 2 * totalDelay p) : BurstFits p c.busBusyUntil t := by
  have hcmd := h.column_le ht
  have hle := le_max_right t (sub64 c.busBusyUntil p.tCL)
  unfold BurstFits
  generalize max t (sub64 c.busBusyUntil p.tCL) = cmdAt at hcmd hle ⊢
  rw [sub64_of_le h.data] at hle
  rw [readyTime_eq (by omega), sub64_of_le (by omega)]
  omega

lemma ChannelWithin.setRank (h : ChannelWithin T c) {i : Fin p.ranksPerChannel} {rk : Rank p}
    (hrk : RankWithin T rk) : ChannelWithin T (c.setRank i rk) :=
  ⟨ChannelWithin.update h.ranks hrk, h.bus, h.data⟩

lemma ChannelWithin.advanceBus (h : ChannelWithin T c) (bubble : Nat) (hT : T + bubble < 2 ^ 64) :
    ChannelWithin (T + bubble) (c.advanceBus bubble) := by
  have hbus := h.bus
  have hdata := h.data
  have hsum : add64 c.busBusyUntil bubble = c.busBusyUntil + bubble := add64_of_lt (by omega)
  refine ⟨fun r => (h.ranks r).mono (Nat.le_add_right _ _), ?_, ?_⟩
  · simp only [Channel.advanceBus, hsum]
    omega
  · simp only [Channel.advanceBus, hsum]
    omega

lemma startup_busBusyUntil {start : Nat} (h : start + totalDelay p < 2 ^ 64) :
    (Channel.startup p start).busBusyUntil = start + p.tRP + p.tRCD + p.tCL := by
  have hprep : p.tRP + p.tRCD + p.tCL ≤ totalDelay p := by
    unfold totalDelay
    omega
  have hrp : add64 start p.tRP = start + p.tRP := add64_of_lt (by omega)
  have hrcd : add64 (start + p.tRP) p.tRCD = start + p.tRP + p.tRCD := add64_of_lt (by omega)
  simp only [Channel.startup, hrp, hrcd]
  exact add64_of_lt (by omega)

lemma channelWithin_startup {start : Nat} (h : start + totalDelay p < 2 ^ 64) :
    ChannelWithin (start + totalDelay p) (Channel.startup p start) := by
  have hprep : p.tRP + p.tRCD + p.tCL ≤ totalDelay p := by
    unfold totalDelay
    omega
  have hbus := startup_busBusyUntil h
  refine ⟨fun r => ?_, ?_, ?_⟩
  · refine ⟨fun _ => Nat.zero_le _, fun _ => Nat.zero_le _, fun _ => Nat.zero_le _, ?_, ?_⟩
    · intro t ht
      rw [List.eq_of_mem_replicate ht]
      exact Nat.zero_le _
    · simp [Channel.startup, Rank.init]
  · rw [hbus]
    omega
  · rw [hbus]
    omega

end Accesses

/-! ### Sequences of accesses -/

/-- No call is later than `last`, and from there is room for all that a sequence of calls adds to a tick. -/
structure CallsFit (start last : Nat) (calls : List (Call p)) : Prop where
  start : start ≤ last
  now : ∀ a ∈ calls, a.now ≤ last
  room : last + (calls.map Call.bubble).sum + (calls.length + 1) * reach p < 2 ^ 64

section Calls

variable {T : Nat} {s s' t : Calls p} {a : Call p} {calls : List (Call p)}

lemma access_within (h : ChannelWithin T s.channel) (hnow : a.now ≤ T) (hT : T + a.bubble + reach p < 2 ^ 64)
    (hok : s.access a = .ok s') : ChannelWithin (T + a.bubble + 16 * totalDelay p) s'.channel := by
  obtain ⟨⟨d, channel⟩, hacc, hok⟩ := bind_eq_ok.mp hok
  cases hok
  unfold reach at hT
  have hbus : ChannelWithin (T + a.bubble) (s.channel.advanceBus a.bubble) := h.advanceBus _ (by omega)
  exact doDRAMAccess_within hbus (by omega) (by omega) hacc

/-- What every call keeps while the times leave room for it holds after a sequence of calls. -/
theorem calls_invariant (I : Calls p → Prop)
    (hstep : ∀ T s a s', ChannelWithin T s.channel → a.now ≤ T → T + a.bubble + reach p < 2 ^ 64 → I s →
      s.access a = .ok s' → I s')
    (h : ChannelWithin T s.channel) (hnow : ∀ a ∈ calls, a.now ≤ T)
    (hT : T + (calls.map Call.bubble).sum + calls.length * reach p < 2 ^ 64) (hs : I s)
    (hrun : runFrom Calls.access s calls = .ok t) :
    I t ∧ ChannelWithin (T + (calls.map Call.bubble).sum + calls.length * reach p) t.channel := by
  induction calls generalizing s T with
  | nil =>
    cases hrun
    exact ⟨hs, h.mono (by simp)⟩
  | cons a calls ih =>
    obtain ⟨s', ha, hrest⟩ := bind_eq_ok.mp hrun
    simp only [List.map_cons, List.sum_cons, List.length_cons, Nat.succ_mul] at hT
    have ha' := hnow a List.mem_cons_self
    have hs' := access_within h ha' (by omega) ha
    have hlater : ChannelWithin (T + a.bubble + reach p) s'.channel := hs'.mono (by unfold reach; omega)
    have hlast : ∀ b ∈ calls, b.now ≤ T + a.bubble + reach p := by
      intro b hb
      have hle := hnow b (List.mem_cons_of_mem a hb)
      omega
    obtain ⟨ht, hwithin⟩ := ih hlater hlast (by omega) (hstep T s a s' h ha' (by omega) hs ha) hrest
    simp only [List.map_cons, List.sum_cons, List.length_cons, Nat.succ_mul]
    exact ⟨ht, hwithin.mono (by omega)⟩

section Fit

variable {start last : Nat}

lemma CallsFit.startup (h : CallsFit start last calls) :
    ChannelWithin (last + reach p) (Channel.startup p start) := by
  have hstart := h.start
  have hroom := h.room
  rw [Nat.succ_mul] at hroom
  unfold reach at hroom ⊢
  exact (channelWithin_startup (by omega)).mono (by omega)

/-- The sequence before its last call. -/
lemma CallsFit.init (h : CallsFit start last (calls ++ [a])) : CallsFit start last calls := by
  have hroom := h.room
  simp only [List.map_append, List.sum_append, List.length_append, List.length_singleton, Nat.succ_mul] at hroom
  refine ⟨h.start, fun b hb => h.now b (List.mem_append_left _ hb), ?_⟩
  rw [Nat.succ_mul]
  omega

/-- The room left for the last call. -/
lemma CallsFit.final (h : CallsFit start last (calls ++ [a])) : a.now ≤ last ∧
    last + reach p + (calls.map Call.bubble).sum + calls.length * reach p + a.bubble + reach p < 2 ^ 64 := by
  have hroom := h.room
  simp only [List.map_append, List.map_singleton, List.sum_append, List.sum_singleton, List.length_append,
    List.length_singleton, Nat.succ_mul] at hroom
  exact ⟨h.now a (by simp), by omega⟩

/-- The rule for sequences from start-up. -/
theorem CallsFit.invariant (h : CallsFit start last calls) (I : Calls p → Prop)
    (hstep : ∀ T s a s', ChannelWithin T s.channel → a.now ≤ T → T + a.bubble + reach p < 2 ^ 64 → I s →
      s.access a = .ok s' → I s')
    (hinit : I (Calls.startup p start)) (hrun : runFrom Calls.access (Calls.startup p start) calls = .ok t) :
    I t ∧ ChannelWithin (last + reach p + (calls.map Call.bubble).sum + calls.length * reach p) t.channel := by
  have hroom := h.room
  rw [Nat.succ_mul] at hroom
  refine calls_invariant I hstep h.startup (fun a ha => ?_) (by omega) hinit hrun
  exact (h.now a ha).trans (Nat.le_add_right _ _)

end Fit

end Calls

end MimdramLean.Proofs

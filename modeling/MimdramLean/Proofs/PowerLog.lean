import MimdramLean.Proofs.RankSteps

/-!
# The commands given to the power model

`cmdList` holds what `doCommand` has handed to the DRAMPower library. It is compared with `history`,
where every activate and precharge is: `aapBank` activates a bank, pushes the tick on `actTicks` and hands
over the precharge, but no activate.
-/

namespace MimdramLean.Proofs
open Library Rank Channel

variable {p : Params} {off : Nat}

/-- The activates and precharges of a bank. -/
def bankLog (b : Nat) (log : List (MemCommand × Nat × Nat)) : List MemCommand :=
  log.filterMap fun c => if c.2.1 = b ∧ (c.1 = .act ∨ c.1 = .pre) then some c.1 else none

/-- The activates of a rank: bank and time stamp. -/
def loggedActs (log : List (MemCommand × Nat × Nat)) : List (Nat × Nat) :=
  log.filterMap fun c => if c.1 = .act then some c.2 else none

def Alternates (l : List MemCommand) : Prop := l.IsChain (· ≠ ·) ∧ ∀ c, l.head? = some c → c = .act

/-- For each bank, activates and precharges alternate and an activate is first; and there is one activate
in the log for each activate of the rank. -/
structure WellFormedLog (off : Nat) (rk : Rank p) : Prop where
  alternates : ∀ b : Fin p.banksPerRank, Alternates (bankLog b rk.cmdList)
  acts : loggedActs rk.cmdList = (activates rk.history).map fun x => (x.1.val, timeStamp p off x.2)

/-! ### Log and history -/

/-- `LogOf off h l n`: the log `l` of the commands `h`, in which `n` activates are missing. -/
inductive LogOf (off : Nat) : List (Command p) → List (MemCommand × Nat × Nat) → Nat → Prop
  | nil : LogOf off [] [] 0
  | act {h l n} {b : Fin p.banksPerRank} (row t : Nat) (hb : b.val < 256) (hl : LogOf off h l n) :
    LogOf off (h ++ [.act b row t]) (l ++ [(.act, b.val % 256, timeStamp p off t)]) n
  | silent {h l n} {b : Fin p.banksPerRank} (row t : Nat) (hl : LogOf off h l n) :
    LogOf off (h ++ [.act b row t]) l (n + 1)
  | pre {h l n} {b : Fin p.banksPerRank} (t : Nat) (hb : b.val < 256) (hl : LogOf off h l n) :
    LogOf off (h ++ [.pre b t]) (l ++ [(.pre, b.val % 256, timeStamp p off t)]) n
  | col {h l n} {b : Fin p.banksPerRank} (row t : Nat) (hl : LogOf off h l n) :
    LogOf off (h ++ [.col b row t]) l n
  | data {h l n} (isRead : Bool) (b t : Nat) (hl : LogOf off h l n) :
    LogOf off h (l ++ [(if isRead then .rd else .wr, b % 256, timeStamp p off t)]) n

/-- The name of an activate or precharge in the log. -/
def rowCommandName : Command p → MemCommand
  | .act _ _ _ => .act
  | .pre _ _ => .pre
  | .col _ _ _ => .rd

lemma bankLog_snoc (b : Nat) (log : List (MemCommand × Nat × Nat)) (c : MemCommand × Nat × Nat) :
    bankLog b (log ++ [c]) =
      if c.2.1 = b ∧ (c.1 = .act ∨ c.1 = .pre) then bankLog b log ++ [c.1] else bankLog b log := by
  unfold bankLog
  rw [List.filterMap_append]
  split <;> simp_all

lemma loggedActs_snoc (log : List (MemCommand × Nat × Nat)) (c : MemCommand × Nat × Nat) :
    loggedActs (log ++ [c]) = if c.1 = .act then loggedActs log ++ [c.2] else loggedActs log := by
  unfold loggedActs
  rw [List.filterMap_append]
  split <;> simp_all

section Complete

variable {h : List (Command p)} {l : List (MemCommand × Nat × Nat)} {n : Nat}

/-- A log without a missing activate has all activates and precharges of a bank. -/
lemma LogOf.bankLog_eq (hl : LogOf off h l n) (hn : n = 0) (b : Fin p.banksPerRank) :
    bankLog b l = (rowCommands b h).map rowCommandName := by
  induction hl with
  | nil => rfl
  | act row t hb _ ih =>
    rw [bankLog_snoc, rowCommands_act, ih hn, Nat.mod_eq_of_lt hb]
    simp only [Fin.val_inj, true_or, and_true]
    split <;> simp [rowCommandName]
  | silent row t _ _ => omega
  | pre t hb _ ih =>
    rw [bankLog_snoc, rowCommands_pre, ih hn, Nat.mod_eq_of_lt hb]
    simp only [Fin.val_inj, or_true, and_true]
    split <;> simp [rowCommandName]
  | col row t _ ih => rw [rowCommands_col, ih hn]
  | data isRead b' t _ ih =>
    rw [bankLog_snoc, ih hn, if_neg]
    cases isRead <;> simp

lemma LogOf.loggedActs_eq (hl : LogOf off h l n) (hn : n = 0) :
    loggedActs l = (activates h).map fun x => (x.1.val, timeStamp p off x.2) := by
  induction hl with
  | nil => rfl
  | act row t hb _ ih => simp [loggedActs_snoc, ih hn, Nat.mod_eq_of_lt hb]
  | silent row t _ _ => omega
  | pre t hb _ ih => simp [loggedActs_snoc, ih hn]
  | col row t _ ih => simp [ih hn]
  | data isRead b' t _ ih =>
    rw [loggedActs_snoc, ih hn, if_neg]
    cases isRead <;> simp

lemma LogOf.length_eq (hl : LogOf off h l n) : (loggedActs l).length + n = (activates h).length := by
  induction hl with
  | nil => rfl
  | act row t hb _ ih =>
    simp only [loggedActs_snoc, if_true, activates_act, List.length_append, List.length_singleton]
    omega
  | silent row t _ ih =>
    simp only [activates_act, List.length_append, List.length_singleton]
    omega
  | pre t hb _ ih => simpa [loggedActs_snoc] using ih
  | col row t _ ih => simpa using ih
  | data isRead b' t _ ih =>
    rw [loggedActs_snoc, if_neg (by cases isRead <;> simp)]
    exact ih

end Complete

/-- The activates and precharges of a bank alternate. -/
lemma RankOrder.alternates {rk : Rank p} (h : RankOrder rk) (b : Fin p.banksPerRank) :
    Alternates ((rowCommands b rk.history).map rowCommandName) := by
  constructor
  · rw [List.isChain_map]
    apply (h.alternate b).imp
    intro c c' hf
    cases c <;> cases c' <;> simp_all [Alternate, rowCommandName]
  · intro c hc
    rw [List.head?_map, Option.map_eq_some_iff] at hc
    obtain ⟨c', hc', rfl⟩ := hc
    obtain ⟨row, t, rfl⟩ := h.first b c' hc'
    rfl

lemma wellFormedLog_iff {rk : Rank p} {n : Nat} (hl : LogOf off rk.history rk.cmdList n) (h : RankOrder rk) :
    WellFormedLog off rk ↔ n = 0 := by
  constructor
  · intro hw
    have hlen := hl.length_eq
    rw [hw.acts, List.length_map] at hlen
    omega
  · intro hn
    refine ⟨?_, hl.loggedActs_eq hn⟩
    intro b
    rw [hl.bankLog_eq hn b]
    exact h.alternates b

/-! ### What the commands hand over -/

/-- The log of a rank, with `n` activates missing. -/
abbrev Logged (off : Nat) (rk : Rank p) (n : Nat) : Prop := LogOf off rk.history rk.cmdList n

/-- The activates that a call of `apBank` or `aapBank` does not hand over. -/
def missing : BankCommand → Nat
  | .ap _ => 0
  | .aap _ _ _ => 1

lemma Windowed.cmdList {rk rk' : Rank p} {t : Nat} (hw : Windowed rk rk' t) : rk'.cmdList = rk.cmdList := by
  rw [hw.rest]

section Commands

variable {rk rk' : Rank p} {b : Fin p.banksPerRank} {t row n : Nat}

lemma activated_cmdList : (rk.activated off b t row).cmdList =
    rk.cmdList ++ [(.act, b.val % 256, timeStamp p off t)] := by
  simp only [activated, record]
  rw [scheduleActivate_eq]
  exact (windowed_enforceXAW _ t).cmdList

lemma doubleActivated_cmdList {ov : Bool} : (rk.doubleActivated b t ov).cmdList = rk.cmdList := by
  simp only [doubleActivated, record]
  rw [scheduleActivate_eq]
  exact (windowed_enforceXAWOfAap _ t).cmdList

lemma precharged_cmdList : (rk.precharged off b t true).cmdList =
    rk.cmdList ++ [(.pre, b.val % 256, timeStamp p off t)] := by
  simp only [precharged, record]
  rw [schedulePrecharge_eq]
  rfl

lemma prechargeBank_logged (hb : b.val < 256) (hl : Logged off rk n)
    (h : rk.prechargeBank off b t true = .ok rk') : Logged off rk' n := by
  obtain ⟨-, -, rfl⟩ := prechargeBank_eq_ok.mp h
  rw [Logged, precharged_cmdList, (precharged_precharges rk off b t true).history]
  exact hl.pre t hb

lemma activateBank_logged (hb : b.val < 256) (hl : Logged off rk n)
    (h : rk.activateBank off b t row = .ok rk') : Logged off rk' n := by
  obtain ⟨-, -, -, -, rfl⟩ := activateBank_eq_ok.mp h
  rw [Logged, activated_cmdList, (activated_activates rk off b t row).history]
  exact hl.act row t hb

lemma issue_logged {c : BankCommand} (hb : b.val < 256) (hl : Logged off rk n)
    (h : rk.issue off b t c = .ok rk') : Logged off rk' (n + missing c) := by
  cases c with
  | ap row =>
    obtain ⟨mid, hact, hpre⟩ := bind_eq_ok.mp h
    exact prechargeBank_logged hb (activateBank_logged hb hl hact) hpre
  | aap row1 row2 ov =>
    obtain ⟨-, -, hpre⟩ := bind_eq_ok.mp h
    apply prechargeBank_logged hb _ hpre
    rw [Logged, doubleActivated_cmdList, (doubleActivated_activates rk b t ov).history]
    exact hl.silent _ t

lemma issueAll_logged {cs : List BankCommand} {r : Rank p × Nat} (hb : b.val < 256) (hl : Logged off rk n)
    (h : rk.issueAll off b t cs = .ok r) : Logged off r.1 (n + (cs.map missing).sum) := by
  induction cs generalizing rk t n with
  | nil =>
    cases h
    exact hl
  | cons c cs ih =>
    obtain ⟨mid, hc, hrest⟩ := bind_eq_ok.mp h
    rw [List.map_cons, List.sum_cons, ← Nat.add_assoc]
    exact ih (issue_logged hb hl hc) hrest

lemma closeBank_logged {now : Nat} (hb : b.val < 256) (hl : Logged off rk n)
    (h : rk.closeBank off b now = .ok rk') : Logged off rk' n := by
  unfold closeBank at h
  split at h
  · exact prechargeBank_logged hb hl h
  · cases h
    exact hl

end Commands

/-! ### Accesses -/

/-- The logs of a channel, with `n r` activates of rank `r` missing. -/
structure ChannelLogged (off : Nat) (c : Channel p) (n : Fin p.ranksPerChannel → Nat) : Prop where
  offset : c.timeStampOffset = off
  rank : ∀ r, Logged off (c.ranks r) (n r)

/-- The activates that an access does not hand over. -/
def missingOf (d : DRAMPacket p) : Nat :=
  match d.rowOp with
  | some op => ((rowOpCommands op d.row.val d.src1Row d.src2Row).map missing).sum
  | none => 0

/-- Only a row operation that is a single AP hands over all its activates. -/
lemma missingOf_eq_zero {d : DRAMPacket p} : missingOf d = 0 ↔ ∀ op, d.rowOp = some op → op = .rowAp := by
  unfold missingOf
  cases d.rowOp with
  | none => simp
  | some op => cases op <;> simp [rowOpCommands, missing]

section Accesses

variable {c c' : Channel p} {n : Fin p.ranksPerChannel → Nat} {now : Nat} {d d' : DRAMPacket p}

lemma ChannelLogged.setRank (h : ChannelLogged off c n) {r : Fin p.ranksPerChannel} {rk : Rank p} {k : Nat}
    (hk : Logged off rk k) : ∀ i, Logged off ((c.setRank r rk).ranks i) (Function.update n r k i) := by
  intro i
  by_cases hi : i = r
  · subst hi
    simpa [Channel.setRank] using hk
  · simpa [Channel.setRank, hi] using h.rank i

lemma doRowOp_logged {op : RowOp} (hb : d.bank.val < 256) (h : ChannelLogged off c n)
    (hd : c.doRowOp now d op = .ok (d', c')) :
    ChannelLogged off c' (Function.update n d.rank
      (n d.rank + ((rowOpCommands op d.row.val d.src1Row d.src2Row).map missing).sum)) := by
  obtain ⟨mid, hclose, hd⟩ := bind_eq_ok.mp hd
  obtain ⟨⟨rk, cmdAt⟩, hissue, hd⟩ := bind_eq_ok.mp hd
  cases hd
  rw [h.offset] at hclose hissue
  exact ⟨h.offset, h.setRank (issueAll_logged hb (closeBank_logged hb (h.rank d.rank) hclose) hissue)⟩

lemma openRow_logged {r : Rank p × Nat} (hb : d.bank.val < 256) (h : ChannelLogged off c n)
    (hd : c.openRow now d = .ok r) : Logged off r.1 (n d.rank) := by
  unfold Channel.openRow at hd
  rw [h.offset] at hd
  split at hd
  · cases hd
    exact h.rank d.rank
  · obtain ⟨mid, hclose, hd⟩ := bind_eq_ok.mp hd
    obtain ⟨rk, hact, hd⟩ := bind_eq_ok.mp hd
    cases hd
    exact activateBank_logged hb (closeBank_logged hb (h.rank d.rank) hclose) hact

lemma closeRow_logged {rk rk' : Rank p} {rest : List (DRAMPacket p)} {k : Nat} (hb : d.bank.val < 256)
    (hl : Logged off rk k) (h : closeRow rk off now d rest = .ok rk') : Logged off rk' k := by
  unfold closeRow at h
  split at h
  · exact prechargeBank_logged hb hl h
  · cases h
    exact hl

lemma doBurst_logged {rest : List (DRAMPacket p)} (hb : d.bank.val < 256) (h : ChannelLogged off c n)
    (hd : c.doBurst now d rest = .ok (d', c')) : ChannelLogged off c' n := by
  obtain ⟨⟨rk, t⟩, hopen, hd⟩ := bind_eq_ok.mp hd
  obtain ⟨-, -, hd⟩ := bind_eq_ok.mp hd
  obtain ⟨rk', hclose, hd⟩ := bind_eq_ok.mp hd
  cases hd
  have hrk := openRow_logged hb h hopen
  obtain ⟨rfl, hranks⟩ := h
  set cmdAt := max t (sub64 c.busBusyUntil p.tCL)
  -- the column command is in the history at once, and in the log after the precharge that may follow it
  have hrec : Logged c.timeStampOffset (rk.record (.col d.bank d.row.val cmdAt)) (n d.rank) :=
    hrk.col d.row.val cmdAt
  have hset := ChannelLogged.setRank ⟨rfl, hranks⟩ (r := d.rank) hrec
  rw [Function.update_eq_self] at hset
  have hheld : ChannelLogged c.timeStampOffset
      ((c.setRank d.rank (rk.record (.col d.bank d.row.val cmdAt))).holdCols d cmdAt) n := ⟨rfl, hset⟩
  have hclosed : Logged c.timeStampOffset rk' (n d.rank) := by
    apply closeRow_logged hb _ hclose
    exact hheld.rank d.rank
  have hlogged : Logged c.timeStampOffset
      (rk'.doCommand c.timeStampOffset (if d.isRead then .rd else .wr) d.bank cmdAt) (n d.rank) :=
    hclosed.data d.isRead d.bank.val cmdAt
  have hend := hheld.setRank (r := d.rank) hlogged
  rw [Function.update_eq_self] at hend
  refine ⟨countAccess_timeStampOffset _ d, ?_⟩
  rw [countAccess_ranks]
  exact hend

/-- An access hands over all but `missingOf` of its activates. -/
lemma doDRAMAccess_logged {rest : List (DRAMPacket p)} (hb : d.bank.val < 256) (h : ChannelLogged off c n)
    (hd : c.doDRAMAccess now d rest = .ok (d', c')) :
    ChannelLogged off c' (Function.update n d.rank (n d.rank + missingOf d)) := by
  unfold doDRAMAccess at hd
  split at hd
  · rename_i op hop
    rw [missingOf, hop]
    exact doRowOp_logged hb h hd
  · rename_i hop
    rw [missingOf, hop]
    simpa using doBurst_logged hb h hd

end Accesses

lemma calls_logged {s t : Calls p} {n : Fin p.ranksPerChannel → Nat} (h : ChannelLogged off s.channel n)
    {calls : List (Call p)} (hbank : ∀ a ∈ calls, a.pkt.bank.val < 256)
    (hrun : runFrom Calls.access s calls = .ok t) :
    ∃ n', ChannelLogged off t.channel n' ∧
      ((∀ r, n' r = 0) ↔ (∀ r, n r = 0) ∧ ∀ a ∈ calls, missingOf a.pkt = 0) := by
  induction calls generalizing s n with
  | nil =>
    cases hrun
    exact ⟨n, h, by simp⟩
  | cons a calls ih =>
    obtain ⟨s', ha, hrest⟩ := bind_eq_ok.mp hrun
    obtain ⟨⟨d, c⟩, hd, ha⟩ := bind_eq_ok.mp ha
    cases ha
    have hbubble : ChannelLogged off (s.channel.advanceBus a.bubble) n := ⟨h.offset, h.rank⟩
    have hstep := doDRAMAccess_logged (hbank a List.mem_cons_self) hbubble hd
    obtain ⟨n', hn', hiff⟩ := ih hstep (fun a' ha' => hbank a' (List.mem_cons_of_mem a ha')) hrest
    refine ⟨n', hn', hiff.trans ?_⟩
    -- the missing activates only get more
    rw [Function.forall_update_iff n (p := fun _ k => k = 0), List.forall_mem_cons]
    constructor
    · rintro ⟨⟨hzero, hothers⟩, hcalls⟩
      refine ⟨?_, by omega, hcalls⟩
      intro r
      by_cases hr : r = a.pkt.rank
      · subst hr
        omega
      · exact hothers r hr
    · rintro ⟨hzero, ha, hcalls⟩
      refine ⟨⟨?_, fun r _ => hzero r⟩, hcalls⟩
      rw [hzero, ha]

lemma channelLogged_startup (p : Params) (start : Nat) :
    ChannelLogged (Channel.startup p start).timeStampOffset (Channel.startup p start) fun _ => 0 :=
  ⟨rfl, fun _ => .nil⟩

lemma access_order (s : Calls p) (a : Call p) (s' : Calls p) (h : ∀ r, RankOrder (s.channel.ranks r))
    (ha : s.access a = .ok s') : ∀ r, RankOrder (s'.channel.ranks r) := by
  obtain ⟨⟨d, c⟩, hd, ha⟩ := bind_eq_ok.mp ha
  cases ha
  obtain ⟨hrank, hothers, -⟩ := doDRAMAccess_accessed hd
  intro r
  by_cases hr : r = a.pkt.rank
  · subst hr
    exact accessed_order hrank (h a.pkt.rank)
  · exact (AccessChange.held (hothers r hr)).order (h r)

/-- The log of a sequence of accesses is well formed exactly if every row operation among them is a
ROWAP: the others begin with an AAP. `actTicks` counts the activates of both kinds. A sequence goes through
if its ticks leave room for the delays in 64 bits. The bank of a packet is an 8-bit number in the source, as
it is in the log. -/
theorem power_log_wellFormed_iff (p : Params) (start : Nat) (calls : List (Call p))
    (hbank : ∀ a ∈ calls, a.pkt.bank.val < 256) :
    (∀ last, CallsFit start last calls → ∃ s, runFrom Calls.access (Calls.startup p start) calls = .ok s) ∧
    ∀ s, runFrom Calls.access (Calls.startup p start) calls = .ok s →
      (∀ r, (s.channel.ranks r).actTicks =
        window 0 p.activationLimit ((activates (s.channel.ranks r).history).map Prod.snd)) ∧
      ((∀ r, WellFormedLog s.channel.timeStampOffset (s.channel.ranks r)) ↔
        ∀ a ∈ calls, ∀ op, a.pkt.rowOp = some op → op = .rowAp) := by
  constructor
  · intro last hfit
    obtain ⟨s, hs, -⟩ := hfit.total (P := False) (fun _ _ hfalse => hfalse.elim)
    exact ⟨s, hs⟩
  · intro s hs
    have horder : ∀ r, RankOrder (s.channel.ranks r) :=
      invariant_of_run Calls.access (fun s => ∀ r, RankOrder (s.channel.ranks r)) access_order
        (fun _ => rankOrder_init p _) hs
    obtain ⟨n, hlogged, hzero⟩ := calls_logged (s := Calls.startup p start) (channelLogged_startup p start) hbank hs
    refine ⟨fun r => (horder r).actTicks, ?_⟩
    rw [hlogged.offset]
    have hiff : (∀ r, WellFormedLog (Channel.startup p start).timeStampOffset (s.channel.ranks r)) ↔
        ∀ r, n r = 0 := forall_congr' fun r => wellFormedLog_iff (hlogged.rank r) (horder r)
    rw [hiff, hzero]
    simp [missingOf_eq_zero]

/-- A write and a ROWAP. -/
def writeThenAp : List (Call ddr3_1600_x64) :=
  [⟨1, 0, packetToRow7 none, []⟩, ⟨2, 2500, packetToRow7 (some .rowAp), []⟩]

theorem power_log_wellFormed_iff_writeThenAp :
    ∃ s, runFrom Calls.access (Calls.startup ddr3_1600_x64 0) writeThenAp = .ok s ∧
      ∀ r, WellFormedLog s.channel.timeStampOffset (s.channel.ranks r) := by
  obtain ⟨htotal, hiff⟩ := power_log_wellFormed_iff ddr3_1600_x64 0 writeThenAp
    (by simp [writeThenAp, packetToRow7, packetTo])
  obtain ⟨s, hs⟩ := htotal 2 ⟨by decide, by simp [writeThenAp], by decide⟩
  exact ⟨s, hs, (hiff s hs).2.mpr (by simp [writeThenAp, packetToRow7, packetTo])⟩

/-- After a ROWAND four activates are in `actTicks`, and the log has four precharges and no activate. -/
theorem rowAnd_logs_no_activate :
    ∃ s, runFrom Calls.access (Calls.startup ddr3_1600_x64 0)
        [⟨1, 0, packetToRow7 (some .rowAnd), []⟩] = .ok s ∧
      ∃ r, (s.channel.ranks r).actTicks.length = 4 ∧ 0 ∉ (s.channel.ranks r).actTicks ∧
        loggedActs (s.channel.ranks r).cmdList = [] ∧
        bankLog 0 (s.channel.ranks r).cmdList = [.pre, .pre, .pre, .pre] ∧
        ¬WellFormedLog s.channel.timeStampOffset (s.channel.ranks r) := by
  obtain ⟨s, hs, hP⟩ := exists_of_okWith
    (x := runFrom Calls.access (Calls.startup ddr3_1600_x64 0) [⟨1, 0, packetToRow7 (some .rowAnd), []⟩])
    (P := fun s => decide ((s.channel.ranks ⟨0, by decide⟩).actTicks.length = 4 ∧
      0 ∉ (s.channel.ranks ⟨0, by decide⟩).actTicks ∧
      loggedActs (s.channel.ranks ⟨0, by decide⟩).cmdList = [] ∧
      bankLog 0 (s.channel.ranks ⟨0, by decide⟩).cmdList = [.pre, .pre, .pre, .pre])) (by decide +kernel)
  obtain ⟨hlen, hticks, hacts, hlog⟩ := of_decide_eq_true hP
  refine ⟨s, hs, ⟨0, by decide⟩, hlen, hticks, hacts, hlog, ?_⟩
  intro hw
  have hfirst := (hw.alternates ⟨0, by decide⟩).2 .pre (by simp [hlog])
  exact absurd hfirst (by decide)

end MimdramLean.Proofs

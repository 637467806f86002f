import MimdramLean.Proofs.TickRuns
import Mathlib.Data.Set.Lattice
import Mathlib.Order.CompletePartialOrder
import Mathlib.Order.Interval.Set.Basic

/-!
# The data bus

A row operation overwrites `busBusyUntil` and may move it back. What keeps the bursts of ordinary
accesses apart is `colAllowedAt`: after an ordinary access no bank of the channel takes a column
command within tBURST, and no command ever takes that back. The sums are those of 64-bit ticks, so all
this holds while there is room for them; two bursts out of order show what happens without.
-/

namespace MimdramLean.Proofs
open Library DRAMCtrl

variable {p : Params}

lemma tBURST_le_colDelay {t : Nat} (hfit : t + totalDelay p < 2 ^ 64) (d : DRAMPacket p)
    (j : Fin p.ranksPerChannel) (i : Fin p.banksPerRank) : p.tBURST ≤ Channel.colDelay d j i := by
  unfold Channel.colDelay
  split
  · split
    · rename_i harch
      have harch' : 0 < p.bankGroupsPerRank := by
        simpa [Params.bankGroupArch] using (Bool.and_eq_true_iff.mp harch).1
      exact (p.bank_groups harch').2.2.1.le
    · exact le_rfl
  · rw [add64_of_lt (by unfold totalDelay at hfit; omega)]
    exact Nat.le_add_right _ _

/-- All banks of the channel. -/
def KeepsCols (c c' : Channel p) : Prop :=
  ∀ r i, ((c.ranks r).banks i).colAllowedAt ≤ ((c'.ranks r).banks i).colAllowedAt

/-- The data of `x` is on the bus before a later column command of any bank delivers. -/
def BurstBefore (x : DRAMPacket p) (c : Channel p) : Prop :=
  ∀ r i, x.readyTime ≤ ((c.ranks r).banks i).colAllowedAt + p.tCL

lemma BurstBefore.keepsCols {x : DRAMPacket p} {c c' : Channel p} (h : BurstBefore x c)
    (hk : KeepsCols c c') : BurstBefore x c' := fun r i =>
  le_trans (h r i) (Nat.add_le_add_right (hk r i) _)

lemma keepsCols_update {c : Channel p} {r : Fin p.ranksPerChannel} {rk : Rank p}
    (h : ∀ i, ((c.ranks r).banks i).colAllowedAt ≤ (rk.banks i).colAllowedAt) :
    ∀ j i, ((c.ranks j).banks i).colAllowedAt ≤ ((Function.update c.ranks r rk j).banks i).colAllowedAt := by
  intro j i
  rw [Function.update_apply]
  split
  · subst j
    exact h i
  · exact le_rfl

lemma setBank_colAllowedAt {rk : Rank p} {b : Fin p.banksPerRank} {bank : Bank}
    (h : bank.colAllowedAt = (rk.banks b).colAllowedAt) (i : Fin p.banksPerRank) :
    ((rk.setBank b bank).banks i).colAllowedAt = (rk.banks i).colAllowedAt := by
  simp only [Rank.setBank, Function.update_apply]
  split
  · subst i
    exact h
  · rfl

/-- What an access does to `colAllowedAt`. -/
structure AccessSpec (c : Channel p) (d : DRAMPacket p) (r : DRAMPacket p × Channel p) : Prop where
  rowOp : r.1.rowOp = d.rowOp
  cols : KeepsCols c r.2
  start : d.isRowOp = false → (c.bank d).colAllowedAt + p.tCL + p.tBURST ≤ r.1.readyTime
  before : d.isRowOp = false → BurstBefore r.1 r.2

lemma openRow_colAllowedAt {c : Channel p} {now : Nat} {d : DRAMPacket p} {r : Rank p × Nat}
    (h : c.openRow now d = .ok r) : (c.bank d).colAllowedAt ≤ r.2 := by
  unfold Channel.openRow at h
  split at h
  · cases h
    exact le_max_left _ _
  · obtain ⟨mid, hclose, h⟩ := bind_eq_ok.mp h
    obtain ⟨rk, hact, h⟩ := bind_eq_ok.mp h
    cases h
    exact commanded_colAllowedAt ((closeBank_commanded hclose).trans (activateBank_commanded hact)) d.bank

lemma doRowOp_spec {c : Channel p} {now : Nat} {d : DRAMPacket p} {op : RowOp}
    {r : DRAMPacket p × Channel p} (hop : d.rowOp = some op) (h : c.doRowOp now d op = .ok r) :
    AccessSpec c d r := by
  have hrow : d.isRowOp = true := by simp [DRAMPacket.isRowOp, hop]
  obtain ⟨mid, hclose, h⟩ := bind_eq_ok.mp h
  obtain ⟨⟨rk, cmdAt⟩, hissue, h⟩ := bind_eq_ok.mp h
  cases h
  refine ⟨rfl, ?_, by simp [hrow], by simp [hrow]⟩
  exact keepsCols_update fun i =>
    commanded_colAllowedAt ((closeBank_commanded hclose).trans (issueAll_commanded hissue)) i

/-- After a column command at `cmdAt` no bank takes another within tBURST. -/
lemma holdCols_colAllowedAt {c : Channel p} {cmdAt : Nat} (hfit : cmdAt + totalDelay p < 2 ^ 64) (d : DRAMPacket p)
    (j : Fin p.ranksPerChannel) (i : Fin p.banksPerRank) :
    cmdAt + p.tBURST ≤ (((c.holdCols d cmdAt).ranks j).banks i).colAllowedAt := by
  have hdelay := colDelay_le d j i
  have hsum : add64 cmdAt (Channel.colDelay d j i) = cmdAt + Channel.colDelay d j i := add64_of_lt (by omega)
  refine le_trans (Nat.add_le_add_left (tBURST_le_colDelay hfit d j i) _) ?_
  rw [← hsum]
  exact le_max_left _ _

lemma doBurst_spec {c : Channel p} {T now : Nat} {d : DRAMPacket p} {rest : List (DRAMPacket p)}
    {r : DRAMPacket p × Channel p} (hw : ChannelWithin T c) (hnow : now ≤ T) (hT : T + 16 * totalDelay p < 2 ^ 64)
    (h : c.doBurst now d rest = .ok r) : AccessSpec c d r := by
  obtain ⟨⟨rk, t⟩, hopen, h⟩ := bind_eq_ok.mp h
  obtain ⟨_, -, h⟩ := bind_eq_ok.mp h
  obtain ⟨rk', hclose, h⟩ := bind_eq_ok.mp h
  cases h
  have hcol : (c.bank d).colAllowedAt ≤ t := openRow_colAllowedAt hopen
  have hcmd := le_max_left t (sub64 c.busBusyUntil p.tCL)
  have hcmdw := hw.column_le (openRow_within (hw.ranks d.rank) hnow hopen).2
  set cmdAt := max t (sub64 c.busBusyUntil p.tCL) with hcmdAt
  set c₁ := (c.setRank d.rank (rk.record (.col d.bank d.row.val cmdAt))).holdCols d cmdAt with hc₁
  have hfit : cmdAt + totalDelay p < 2 ^ 64 := by omega
  -- every bank is held back, and what follows holds none back less
  have hheld : ∀ j i, cmdAt + p.tBURST ≤ ((c₁.ranks j).banks i).colAllowedAt := holdCols_colAllowedAt hfit d
  have hrk : ∀ i, ((c.ranks d.rank).banks i).colAllowedAt ≤ (rk.banks i).colAllowedAt :=
    commanded_colAllowedAt (openRow_commanded hopen)
  have hset : KeepsCols c (c.setRank d.rank (rk.record (.col d.bank d.row.val cmdAt))) :=
    keepsCols_update hrk
  have hopened : KeepsCols c c₁ := fun j i => le_trans (hset j i) (le_max_right _ _)
  have hfin : ∀ i, ((c₁.ranks d.rank).banks i).colAllowedAt ≤
      (((c₁.ranks d.rank).setBank d.bank (Channel.finishBank (c₁.bank d) d cmdAt
        (add64 (add64 cmdAt p.tCL) p.tBURST))).banks i).colAllowedAt := fun i => (setBank_colAllowedAt (by rfl) i).ge
  have hrk' : ∀ i, ((c₁.ranks d.rank).banks i).colAllowedAt ≤ (rk'.banks i).colAllowedAt := fun i =>
    le_trans (hfin i) (commanded_colAllowedAt (closeRow_commanded hclose) i)
  have hend : KeepsCols c₁ (((c₁.setRank d.rank (rk'.doCommand c₁.timeStampOffset
      (if d.isRead then .rd else .wr) d.bank cmdAt)).setBusy d
        (add64 (add64 cmdAt p.tCL) p.tBURST)).countAccess d) := by
    have hlogged : ∀ i, ((c₁.ranks d.rank).banks i).colAllowedAt ≤ ((rk'.doCommand c₁.timeStampOffset
        (if d.isRead then .rd else .wr) d.bank cmdAt).banks i).colAllowedAt := hrk'
    intro j i
    rw [countAccess_ranks]
    exact keepsCols_update hlogged j i
  refine ⟨rfl, fun j i => le_trans (hopened j i) (hend j i), fun _ => ?_, fun _ j i => ?_⟩
  · simp only [readyTime_eq hfit]
    omega
  · have h₁ := hheld j i
    have h₂ := hend j i
    simp only [readyTime_eq hfit] at h₂ ⊢
    omega

theorem doDRAMAccess_spec {c : Channel p} {T now : Nat} {d : DRAMPacket p} {rest : List (DRAMPacket p)}
    {r : DRAMPacket p × Channel p} (hw : ChannelWithin T c) (hnow : now ≤ T) (hT : T + 16 * totalDelay p < 2 ^ 64)
    (h : c.doDRAMAccess now d rest = .ok r) : AccessSpec c d r := by
  unfold Channel.doDRAMAccess at h
  split at h
  · rename_i op hop
    exact doRowOp_spec hop h
  · exact doBurst_spec hw hnow hT h

/-! ### Sequences of accesses -/

/-- The ordinary accesses of a list. -/
def ordinary (ds : List (DRAMPacket p)) : List (DRAMPacket p) := ds.filter fun d => !d.isRowOp

structure Spaced (s : Calls p) : Prop where
  before : ∀ x ∈ ordinary s.served, BurstBefore x s.channel
  apart : (ordinary s.served).Pairwise fun x y => x.readyTime + p.tBURST ≤ y.readyTime

lemma access_spaced (T : Nat) (s : Calls p) (a : Call p) (s' : Calls p) (hw : ChannelWithin T s.channel)
    (hnow : a.now ≤ T) (hT : T + a.bubble + reach p < 2 ^ 64) (hs : Spaced s) (h : s.access a = .ok s') :
    Spaced s' := by
  obtain ⟨⟨d, channel⟩, hacc, h⟩ := bind_eq_ok.mp h
  cases h
  unfold reach at hT
  have hspec := doDRAMAccess_spec (hw.advanceBus a.bubble (by omega)) (by omega) (by omega) hacc
  have hrow : d.isRowOp = a.pkt.isRowOp := congrArg Option.isSome hspec.rowOp
  cases hpkt : a.pkt.isRowOp with
  | true =>
    have hserved : ordinary (s.served ++ [d]) = ordinary s.served := by simp [ordinary, hrow, hpkt]
    refine ⟨?_, ?_⟩
    · simp only [hserved]
      exact fun x hx => (hs.before x hx).keepsCols hspec.cols
    · simp only [hserved]
      exact hs.apart
  | false =>
    have hserved : ordinary (s.served ++ [d]) = ordinary s.served ++ [d] := by simp [ordinary, hrow, hpkt]
    refine ⟨?_, ?_⟩
    · simp only [hserved]
      intro x hx
      rcases List.mem_append.mp hx with hx | hx
      · exact (hs.before x hx).keepsCols hspec.cols
      · obtain rfl : x = d := by simpa using hx
        exact hspec.before hpkt
    · simp only [hserved]
      rw [List.pairwise_append]
      refine ⟨hs.apart, List.pairwise_singleton _ _, fun x hx y hy => ?_⟩
      obtain rfl : y = d := by simpa using hy
      -- the bank of the access has been held back by the earlier one
      have hx' : x.readyTime ≤ (s.channel.bank a.pkt).colAllowedAt + p.tCL :=
        hs.before x hx a.pkt.rank a.pkt.bank
      have hstart : (s.channel.bank a.pkt).colAllowedAt + p.tCL + p.tBURST ≤ y.readyTime :=
        hspec.start hpkt
      omega

lemma CallsFit.spaced {start last : Nat} {calls : List (Call p)} {s : Calls p} (hfit : CallsFit start last calls)
    (h : runFrom Calls.access (Calls.startup p start) calls = .ok s) : Spaced s := by
  refine (hfit.invariant Spaced access_spaced ?_ h).1
  exact ⟨by simp [Calls.startup, ordinary], by simp [Calls.startup, ordinary]⟩

lemma disjoint_bursts {t r r' : Nat} (h : r + t ≤ r') :
    Disjoint (Set.Ico (r - t) r) (Set.Ico (r' - t) r') := by
  rw [Set.disjoint_left]
  rintro x ⟨-, hx⟩ ⟨hx', -⟩
  omega

/-! ### The controller -/

/-- Every response still to be sent was on the bus before anything that follows. -/
def BusOk (s : DRAMCtrl p) : Prop := ∀ x ∈ s.respQueue, BurstBefore x s.channel

lemma BusOk.keepsCols {s s' : DRAMCtrl p} (h : BusOk s) (hresp : ∀ x ∈ s'.respQueue, x ∈ s.respQueue)
    (hk : KeepsCols s.channel s'.channel) : BusOk s' := fun x hx => (h x (hresp x hx)).keepsCols hk

lemma BusOk.sameDevice {s s' : DRAMCtrl p} (h : BusOk s) (hd : SameDevice s s') : BusOk s' := by
  refine h.keepsCols (fun x hx => ?_) (fun r i => ?_)
  · rwa [← hd.respQueue]
  · rw [hd.ranks]

lemma BusOk.setRank {s : DRAMCtrl p} (h : BusOk s) (r : Fin p.ranksPerChannel) {rk : Rank p}
    (hc : ∀ i, (rk.banks i).colAllowedAt = ((s.channel.ranks r).banks i).colAllowedAt) :
    BusOk (s.setRank r rk) :=
  h.keepsCols (fun _ hx => hx) (keepsCols_update fun i => (hc i).ge)

lemma bubbledAccess_spec {c : Channel p} {T : Nat} {switched : Bool} {now bubble : Nat} {d : DRAMPacket p}
    {rest : List (DRAMPacket p)} {r : DRAMPacket p × Channel p} (hw : ChannelWithin T c)
    (hbubble : bubble ≤ totalDelay p) (hnow : now ≤ T) (hT : T + reach p < 2 ^ 64)
    (h : (addBubble c switched d bubble).doDRAMAccess now d rest = .ok r) : AccessSpec c d r := by
  unfold reach at hT
  have hbubbled := addBubble_within hw switched d hbubble (by omega)
  have hspec := doDRAMAccess_spec hbubbled (by omega) (by omega) h
  obtain ⟨t, ht⟩ := addBubble_eq c switched d bubble
  rw [ht] at hspec
  exact ⟨hspec.rowOp, hspec.cols, hspec.start, hspec.before⟩

section Requests

variable {T : Nat} {s s' : DRAMCtrl p} {switched : Bool}

lemma serveRead_busOk {d : DRAMPacket p} {rest : List (DRAMPacket p)} (hw : ChannelWithin T s.channel)
    (hnow : s.curTick ≤ T) (hT : T + reach p < 2 ^ 64) (hb : BusOk s) (hd : d.isRowOp = false)
    (h : s.serveRead switched d rest = .ok s') : BusOk s' := by
  obtain ⟨served, channel, t, bus, hacc, -, rfl⟩ := serveRead_cases h
  have hspec := bubbledAccess_spec hw bubbles_le.1 hnow hT hacc
  intro x hx
  rcases List.mem_append.mp hx with hx | hx
  · exact (hb x hx).keepsCols hspec.cols
  · obtain rfl : x = served := by simpa using hx
    exact hspec.before hd

lemma serveWrite_busOk {d : DRAMPacket p} {rest : List (DRAMPacket p)} (hw : ChannelWithin T s.channel)
    (hnow : s.curTick ≤ T) (hT : T + reach p < 2 ^ 64) (hb : BusOk s)
    (h : s.serveWrite switched d rest = .ok s') : BusOk s' := by
  obtain ⟨served, channel, bus, hacc, -, rfl⟩ := serveWrite_cases h
  have hspec := bubbledAccess_spec hw bubbles_le.2 hnow hT hacc
  exact hb.keepsCols (fun _ hx => hx) hspec.cols

lemma checkDrains_busOk (hb : BusOk s) : BusOk s.checkDrains := by
  refine hb.keepsCols (fun _ hx => hx) (fun r i => ?_)
  simp only [checkDrains, Rank.checkDrainDone]
  split
  · exact le_rfl
  · split <;> exact le_rfl

lemma settled_busOk (hb : BusOk s) : BusOk s.checkDrains.switchBus.1 := by
  have hdrain := checkDrains_busOk hb
  unfold switchBus
  split
  · exact hdrain
  · exact hdrain
  · exact hdrain
  · exact hdrain

lemma finishNextReq_busOk (hb : BusOk s) : BusOk s.finishNextReq := by
  have hsame : SameDevice s s := ⟨rfl, rfl, rfl⟩
  have hsched := hsame.scheduleNextReq (max s.channel.nextReqTime s.curTick)
  simp only [finishNextReq]
  split
  · exact hb.sameDevice ⟨hsched.ranks, hsched.busBusyUntil, hsched.respQueue⟩
  · exact hb.sameDevice hsched

lemma serveRequest_busOk {r : DRAMCtrl p × Bool} (hw : ChannelWithin T s.channel) (hnow : s.curTick ≤ T)
    (hT : T + reach p < 2 ^ 64) (hb : BusOk s) (hreads : ∀ d ∈ s.readQueue, d.isRowOp = false)
    (h : s.serveRequest switched = .ok r) : BusOk r.1 := by
  unfold serveRequest at h
  split at h
  · rcases readBranch_cases h with ⟨-, -, rfl⟩ | ⟨-, -, ds, rfl⟩ | ⟨-, rfl, -⟩ | ⟨pre, d, post, t, hr, ht, rfl⟩
    · exact hb.sameDevice ⟨rfl, rfl, rfl⟩
    · exact hb.sameDevice ⟨rfl, rfl, rfl⟩
    · exact hb
    · exact serveRead_busOk hw hnow hT hb (hreads d (by simp [hr])) ht
  · rcases writeBranch_cases h with ⟨-, rfl, -⟩ | ⟨pre, d, post, t, -, -, ht, rfl⟩
    · exact hb
    · exact serveWrite_busOk hw hnow hT hb ht

lemma processNextReqEvent_busOk (hw : ChannelWithin T s.channel) (hnow : s.curTick ≤ T) (hT : T + reach p < 2 ^ 64)
    (hb : BusOk s) (hreads : ∀ d ∈ s.readQueue, d.isRowOp = false) (h : s.processNextReqEvent = .ok s') :
    BusOk s' := by
  have hset := settled_busOk hb
  obtain ⟨hsetw, hsetnow⟩ := settled_within hw hnow
  obtain ⟨hq, -, -, -⟩ := switchBus_fst s.checkDrains
  simp only [processNextReqEvent] at h
  split at h
  · cases h
    exact checkDrains_busOk hb
  · obtain ⟨⟨u, goesOn⟩, hserve, h⟩ := bind_eq_ok.mp h
    have hread : s.checkDrains.switchBus.1.readQueue = s.readQueue := congrArg Queues.readQueue hq
    have hu := serveRequest_busOk hsetw hsetnow hT hset (by rwa [hread]) hserve
    cases h
    split
    · exact finishNextReq_busOk hu
    · exact hu

end Requests

/-! ### Events of the ranks -/

lemma prechargeOrHold_cols {rk rk' : Rank p} {off preAt : Nat} {b : Fin p.banksPerRank}
    (h : Rank.prechargeOrHold off preAt rk b = .ok rk') (i : Fin p.banksPerRank) :
    (rk'.banks i).colAllowedAt = (rk.banks i).colAllowedAt := by
  unfold Rank.prechargeOrHold at h
  split at h
  · obtain ⟨-, -, rfl⟩ := prechargeBank_eq_ok.mp h
    exact (precharged_precharges rk off b preAt false).colAllowedAt i
  · cases h
    exact setBank_colAllowedAt (by rfl) i

lemma foldlM_prechargeOrHold_cols {off preAt : Nat} (bs : List (Fin p.banksPerRank)) {rk rk' : Rank p}
    (h : bs.foldlM (Rank.prechargeOrHold off preAt) rk = .ok rk') (i : Fin p.banksPerRank) :
    (rk'.banks i).colAllowedAt = (rk.banks i).colAllowedAt := by
  rw [foldlM_eq_runFrom] at h
  apply invariant_of_run _ (fun t : Rank p => (t.banks i).colAllowedAt = (rk.banks i).colAllowedAt) _ rfl h
  intro t b t' ht hstep
  exact (prechargeOrHold_cols hstep i).trans ht

lemma prechargeAll_cols {rk rk' : Rank p} {off now : Nat} (hactive : rk.pwrState ≠ .pwrIdle)
    (h : rk.prechargeAll off now = .ok rk') (i : Fin p.banksPerRank) :
    (rk'.banks i).colAllowedAt = (rk.banks i).colAllowedAt := by
  unfold Rank.prechargeAll at h
  rw [if_pos hactive] at h
  obtain ⟨mid, hfold, h⟩ := bind_eq_ok.mp h
  cases h
  exact foldlM_prechargeOrHold_cols _ hfold i

lemma processRefreshEvent_cols {rk rk' : Rank p} {off now : Nat} {awaiting : Bool}
    (h : rk.processRefreshEvent off now awaiting = .ok rk') (i : Fin p.banksPerRank) :
    (rk'.banks i).colAllowedAt = (rk.banks i).colAllowedAt := by
  rcases processRefreshEvent_cases h with ⟨-, hrun⟩ | ⟨due, -, -, ⟨rfl, -⟩ | hpre⟩
  · obtain ⟨-, -, -, -, rfl⟩ := refreshRun_cases hrun
    rfl
  · rfl
  · cases hpre with
    | idle => rfl
    | active hactive hall => exact prechargeAll_cols hactive hall i

lemma processPowerEvent_cols {rk rk' : Rank p} {off now : Nat} {kick : Bool}
    (h : rk.processPowerEvent off now = .ok (rk', kick)) (i : Fin p.banksPerRank) :
    (rk'.banks i).colAllowedAt = (rk.banks i).colAllowedAt := by
  cases processPowerEvent_cases h <;> rfl

lemma processActivateEvent_banks {rk rk' : Rank p} {now : Nat} (h : rk.processActivateEvent now = .ok rk') :
    rk'.banks = rk.banks := by
  rcases processActivateEvent_cases h with ⟨-, rfl⟩ | ⟨-, -, rfl⟩ <;> rfl

lemma processPrechargeEvent_banks {rk rk' : Rank p} {now : Nat}
    (h : rk.processPrechargeEvent now = .ok rk') : rk'.banks = rk.banks := by
  rcases processPrechargeEvent_cases h with ⟨-, rfl⟩ | ⟨-, -, rfl⟩ <;> rfl

/-! ### Runs of the controller -/

lemma busOk_startup (p : Params) (now : Nat) : BusOk (DRAMCtrl.startup p now) := by
  simp [BusOk, DRAMCtrl.startup]

lemma handle_busOk {T : Nat} {s s' : DRAMCtrl p} {e : Event p} (hw : ChannelWithin T s.channel)
    (hnow : s.curTick ≤ T) (hT : T + reach p < 2 ^ 64) (hb : BusOk s)
    (hreads : ∀ d ∈ s.readQueue, d.isRowOp = false) (h : s.handle e = .ok s') : BusOk s' := by
  cases handle_cases h with
  | @recvTimingReq pkt r hr => exact hb.sameDevice (recvTimingReq_effect (e := .recvTimingReq pkt) nofun hr).2
  | nextReq h =>
    have hfired : BusOk { s with nextReqEvent := none } := hb.sameDevice ⟨rfl, rfl, rfl⟩
    exact processNextReqEvent_busOk (s := { s with nextReqEvent := none }) hw hnow hT hfired hreads h
  | respond h =>
    obtain ⟨-, hc, -, hresp⟩ := processRespondEvent_frame h
    exact hb.keepsCols hresp (fun r i => by rw [hc])
  | activate hrk => exact hb.setRank _ fun i => by rw [processActivateEvent_banks hrk]
  | precharge hrk => exact hb.setRank _ fun i => by rw [processPrechargeEvent_banks hrk]
  | refresh hrk =>
    have hcols := processRefreshEvent_cols hrk
    exact hb.setRank _ hcols
  | @power r rk kick hrk =>
    have hcols := processPowerEvent_cols hrk
    have hset : BusOk (s.setRank r rk) := hb.setRank r hcols
    have hself : SameDevice (s.setRank r rk) (s.setRank r rk) := ⟨rfl, rfl, rfl⟩
    split
    · exact hset.sameDevice (hself.scheduleNextReq _)
    · exact hset
  | drain => exact hb.sameDevice (drain_frame s).2.1
  | drainResume => exact hb.sameDevice ⟨rfl, rfl, rfl⟩

lemma step_busOk (T : Nat) (s : DRAMCtrl p) (e : Nat × Event p) (s' : DRAMCtrl p) (hw : ChannelWithin T s.channel)
    (he : e.1 ≤ T) (hT : T + reach p + totalDelay p < 2 ^ 64) (hi : QueueInv (queues s) ∧ BusOk s)
    (h : s.step e = .ok s') : QueueInv (queues s') ∧ BusOk s' := by
  obtain ⟨-, hh⟩ := step_eq_ok.mp h
  have htick : BusOk { s with curTick := e.1 } := hi.2.sameDevice ⟨rfl, rfl, rfl⟩
  refine ⟨step_queueInv s e s' hi.1 h, ?_⟩
  exact handle_busOk (s := { s with curTick := e.1 }) hw he (by omega) htick hi.1.reads hh

/-! ### The assertions about the bus -/

/-- The failures of the two assertions about the data bus. -/
def BusFailure (e : Failure) : Prop := e = .busOverlap ∨ e = .respondOrder

lemma CommandFailure.not_busFailure {e : Failure} (h : CommandFailure e) : ¬ BusFailure e := by
  rintro (rfl | rfl) <;> simp [CommandFailure] at h

lemma bubbledAccess_raises {c : Channel p} {T : Nat} (hw : ChannelWithin T c) (switched : Bool) {now : Nat}
    (hnow : now ≤ T) (d : DRAMPacket p) {bubble : Nat} (hbubble : bubble ≤ totalDelay p)
    (hT : T + reach p < 2 ^ 64) (rest : List (DRAMPacket p)) :
    Raises ((addBubble c switched d bubble).doDRAMAccess now d rest) (¬ BusFailure ·) := by
  unfold reach at hT
  have hbubbled := addBubble_within hw switched d hbubble (by omega)
  refine doDRAMAccess_raises (fun e h => h.not_busFailure) (fun r hr => .inl ?_) rest
  exact hbubbled.burstFits (by omega) (openRow_within (hbubbled.ranks d.rank) (by omega) hr).2

lemma PacketFailure.not_busFailure {e : Failure} (h : PacketFailure e) : ¬ BusFailure e := by
  rintro (rfl | rfl) <;> simp [PacketFailure] at h

section Assertions

variable {T : Nat} {s : DRAMCtrl p}

lemma serveRead_busRaises (hw : ChannelWithin T s.channel) (hnow : s.curTick ≤ T) (hT : T + reach p < 2 ^ 64)
    (hb : BusOk s) (switched : Bool) {d : DRAMPacket p} (hd : d.isRowOp = false) (rest : List (DRAMPacket p)) :
    Raises (s.serveRead switched d rest) (¬ BusFailure ·) := by
  refine serveRead_raises (fun _ => PacketFailure.not_busFailure)
    (bubbledAccess_raises hw _ hnow d bubbles_le.1 hT rest) ?_
  intro r hr t ht
  -- the last response was on the bus before the column command of this read
  have hstart := (bubbledAccess_spec hw bubbles_le.1 hnow hT hr).start hd
  unfold scheduleResponse
  split
  · exact (raises_ensure fun _ => by simp [BusFailure]).bind fun _ _ => raises_ok
  · rename_i e hlast
    rw [ht] at hlast
    have hle : e.readyTime ≤ (s.channel.bank d).colAllowedAt + p.tCL :=
      hb e (List.mem_of_getLast? hlast) d.rank d.bank
    refine (raises_ensure fun hnot => absurd (by omega) hnot).bind fun _ _ => ?_
    exact (raises_ensure fun _ => by simp [BusFailure]).bind fun _ _ => raises_ok

lemma processNextReqEvent_busRaises (hw : ChannelWithin T s.channel) (hnow : s.curTick ≤ T)
    (hT : T + reach p < 2 ^ 64) (hi : QueueInv (queues s)) (hb : BusOk s) :
    Raises s.processNextReqEvent (¬ BusFailure ·) := by
  have hset := settled_busOk hb
  obtain ⟨hsetw, hsetnow⟩ := settled_within hw hnow
  refine processNextReqEvent_raises hi (fun switched d hd rest => ?_) (fun switched d rest => ?_)
  · exact serveRead_busRaises hsetw hsetnow hT hset switched (hi.reads d hd) rest
  · exact serveWrite_raises (fun _ => PacketFailure.not_busFailure)
      (bubbledAccess_raises hsetw switched hsetnow d bubbles_le.2 hT rest)

end Assertions

/-- While the ticks fit in 64 bits, accesses in any number, of any kind and at any ticks all succeed, and
their bursts are apart and in order. In a run of the controller the data bus is then free whenever a burst
is to start, and reads complete in the order in which they are served. -/
theorem bursts_disjoint_and_in_order (p : Params) (hb : 0 < p.tBURST) :
    (∀ (start last : Nat) (calls : List (Call p)), CallsFit start last calls → ∃ s,
      runFrom Calls.access (Calls.startup p start) calls = .ok s ∧
      (ordinary s.served).Pairwise fun x y =>
        Disjoint (Set.Ico (x.readyTime - p.tBURST) x.readyTime) (Set.Ico (y.readyTime - p.tBURST) y.readyTime) ∧
          x.readyTime < y.readyTime) ∧
    ∀ (start last : Nat) (es : List (Nat × Event p)) (s : DRAMCtrl p) (t : Nat),
      RunFits start last (es ++ [(t, .nextReq)]) → run p start es = .ok s →
      step s (t, .nextReq) ≠ .error .busOverlap ∧ step s (t, .nextReq) ≠ .error .respondOrder := by
  refine ⟨fun start last calls hfit => ?_, fun start last es s t hfit h => ?_⟩
  · obtain ⟨s, hs, -⟩ := hfit.total (P := False) (fun _ _ hfalse => hfalse.elim)
    refine ⟨s, hs, (hfit.spaced hs).apart.imp fun {x y} hxy => ⟨disjoint_bursts hxy, ?_⟩⟩
    omega
  · obtain ⟨⟨hi, hbus⟩, hw⟩ := hfit.init.invariant (fun s => QueueInv (queues s) ∧ BusOk s) step_busOk
      ⟨queueInv_startup p start, busOk_startup p start⟩ h
    obtain ⟨ht, hT⟩ := hfit.final
    have hfired : BusOk { s with curTick := t, nextReqEvent := none } := hbus.sameDevice ⟨rfl, rfl, rfl⟩
    have hraises : Raises (step s (t, .nextReq)) (¬ BusFailure ·) :=
      step_nextReq_raises (by simp [BusFailure])
        (processNextReqEvent_busRaises (s := { s with curTick := t, nextReqEvent := none }) hw (by simp only; omega)
          (by omega) hi hfired)
    exact ⟨fun he => hraises _ he (.inl rfl), fun he => hraises _ he (.inr rfl)⟩

/-- A write, two row operations on the open bank, and a read. -/
def readAfterRowOps : List (Call ddr3_1600_x64) :=
  [⟨1, 0, packetToRow7 none, []⟩, ⟨2, 2500, packetToRow7 (some .rowXor), []⟩,
    ⟨3, 0, packetToRow7 (some .rowNot), []⟩, ⟨3, 2500, { packetToRow7 none with isRead := true }, []⟩]

theorem bursts_disjoint_and_in_order_readAfterRowOps :
    CallsFit 0 3 readAfterRowOps ∧ ∃ s,
      runFrom Calls.access (Calls.startup ddr3_1600_x64 0) readAfterRowOps = .ok s ∧
      (ordinary s.served).Pairwise fun x y =>
        Disjoint (Set.Ico (x.readyTime - ddr3_1600_x64.tBURST) x.readyTime)
            (Set.Ico (y.readyTime - ddr3_1600_x64.tBURST) y.readyTime) ∧
          x.readyTime < y.readyTime :=
  have hfit : CallsFit 0 3 readAfterRowOps := ⟨by decide, by simp [readAfterRowOps], by decide⟩
  ⟨hfit, (bursts_disjoint_and_in_order ddr3_1600_x64 (by decide)).1 0 3 readAfterRowOps hfit⟩

/-- A column latency close to the largest tick. -/
def longCL : Params := { ddr3_1600_x64 with tCL := 2 ^ 64 - 32600 }

/-- Two writes to one row. -/
def twoWrites : List (Call longCL) :=
  [⟨1, 0, packetTo ⟨0, by decide⟩ ⟨0, by decide⟩ none, []⟩, ⟨2, 0, packetTo ⟨0, by decide⟩ ⟨0, by decide⟩ none, []⟩]

/-- The data of the first is ready just before the ticks wrap around, that of the second after. -/
theorem second_burst_wraps_before_first :
    0 < longCL.tBURST ∧ ∃ s, runFrom Calls.access (Calls.startup longCL 0) twoWrites = .ok s ∧
      (ordinary s.served).map DRAMPacket.readyTime = [2 ^ 64 - 100, 4900] ∧
      ¬(ordinary s.served).Pairwise fun x y => x.readyTime < y.readyTime := by
  obtain ⟨s, hs, hP⟩ := exists_of_okWith (x := runFrom Calls.access (Calls.startup longCL 0) twoWrites)
    (P := fun s => decide ((ordinary s.served).map DRAMPacket.readyTime = [2 ^ 64 - 100, 4900])) (by decide +kernel)
  have htimes := of_decide_eq_true hP
  refine ⟨by decide, s, hs, htimes, fun hordered => ?_⟩
  have hmap := List.pairwise_map.mpr hordered
  rw [htimes] at hmap
  exact absurd hmap (by decide)

end MimdramLean.Proofs

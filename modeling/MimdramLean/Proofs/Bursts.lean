import MimdramLean.Library.Blocks
import MimdramLean.Proofs.Effects

/-!
# The bursts of a packet

`recvTimingReq` computes how many bursts a packet has; the loops of `addToReadQueue` and `addToWriteQueue` cut
that many bursts off the packet. The number is computed in 32 bits and is zero when the packet reaches too close
to 4 GiB; otherwise the bursts are a tiling of the packet.
-/

namespace MimdramLean.Proofs
open Library DRAMCtrl

variable {p : Params}

/-! ### The loops -/

/-- The sub-requests of the loops: first address and size. -/
def splitBursts (p : Params) (pkt : Packet) (n addr : Nat) : List (Nat × Nat) :=
  (burstAddrs p n addr).map fun a => (a, burstBytes p pkt a)

/-- One pass of the loop of `addToReadQueue`, for a sub-request. -/
def readBurst (pkt : Packet) (pktCount : Nat) (t : DRAMCtrl p × Option Nat × Nat) (b : Nat × Nat) :
    Except Failure (DRAMCtrl p × Option Nat × Nat) :=
  if t.1.foundInWrQ b.1 b.2 then .ok (t.1, t.2.1, t.2.2 + 1)
  else do
    let (s, helper) := t.1.withHelper pktCount t.2.1
    let loc ← decodeAddr p b.1
    let d := { DRAMPacket.create s.curTick pkt true loc b.1 b.2 with burstHelper := helper }
    ensure (s.readQueueFull 1 = false) .readQueueFull
    .ok ({ s with readQueue := s.readQueue ++ [d] }, helper, t.2.2)

/-- One pass of the loop of `addToWriteQueue`. -/
def writeBurst (pkt : Packet) (s : DRAMCtrl p) (b : Nat × Nat) : Except Failure (DRAMCtrl p) :=
  if p.burstAlign b.1 ∈ s.isInWriteQueue then .ok s
  else do
    let loc ← decodeAddr p b.1
    ensure (s.writeQueue.length < p.writeBufferSize) .writeQueueFull
    let s := s.pushWrite (DRAMPacket.create s.curTick pkt false loc b.1 b.2)
    .ok { s with isInWriteQueue := insert (p.burstAlign b.1) s.isInWriteQueue }

/-- The sub-requests of a packet. -/
def packetBursts (p : Params) (pkt : Packet) : List (Nat × Nat) :=
  splitBursts p pkt (dramPktCount p pkt) pkt.getAddr

lemma splitBursts_succ (pkt : Packet) (n addr : Nat) :
    splitBursts p pkt (n + 1) addr = (addr, burstBytes p pkt addr) :: splitBursts p pkt n (nextBurst p addr) := rfl

theorem addReadBursts_eq (pkt : Packet) (pktCount n addr : Nat) (helper : Option Nat) (serviced : Nat)
    (s : DRAMCtrl p) :
    addReadBursts pkt pktCount n addr helper serviced s =
      runFrom (readBurst pkt pktCount) (s, helper, serviced) (splitBursts p pkt n addr) := by
  induction n generalizing addr helper serviced s with
  | zero => rfl
  | succ n ih =>
    rw [addReadBursts, splitBursts_succ, runFrom, readBurst]
    by_cases hfound : s.foundInWrQ addr (burstBytes p pkt addr) = true
    · rw [if_pos hfound, if_pos hfound, ok_bind]
      exact ih _ _ _ _
    · rw [if_neg hfound, if_neg hfound]
      cases hdec : decodeAddr p addr with
      | error e => rfl
      | ok loc =>
        by_cases hfull : (s.withHelper pktCount helper).1.readQueueFull 1 = false
        · simp only [ok_bind, ensure, if_pos hfull]
          exact ih _ _ _ _
        · simp only [ok_bind, ensure, if_neg hfull]
          rfl

theorem addWriteBursts_eq (pkt : Packet) (n addr : Nat) (s : DRAMCtrl p) :
    addWriteBursts pkt n addr s = runFrom (writeBurst pkt) s (splitBursts p pkt n addr) := by
  induction n generalizing addr s with
  | zero => rfl
  | succ n ih =>
    rw [addWriteBursts, splitBursts_succ, runFrom, writeBurst]
    by_cases hmerged : p.burstAlign addr ∈ s.isInWriteQueue
    · rw [if_pos hmerged, if_pos hmerged, ok_bind]
      exact ih _ _
    · rw [if_neg hmerged, if_neg hmerged]
      cases hdec : decodeAddr p addr with
      | error e => rfl
      | ok loc =>
        by_cases hroom : s.writeQueue.length < p.writeBufferSize
        · simp only [ok_bind, ensure, if_pos hroom]
          exact ih _ _
        · simp only [ok_bind, ensure, if_neg hroom]
          rfl

/-! ### The cuts -/

lemma burst_pos (p : Params) : 0 < p.burstSize := by
  obtain ⟨k, -, hk⟩ := p.burst_pow
  rw [hk]
  exact Nat.two_pow_pos k

lemma burst_lt (p : Params) : p.burstSize < 2 ^ 32 := by
  obtain ⟨k, hlt, hk⟩ := p.burst_pow
  rw [hk]
  exact Nat.pow_lt_pow_right Nat.one_lt_two hlt

lemma nextBurst_eq {a : Nat} (h : a + p.burstSize < 2 ^ 64) : nextBurst p a = blockEnd p.burstSize a := by
  have hle : blockEnd p.burstSize a ≤ a + p.burstSize := blockEnd_le a
  obtain ⟨k, -, hk⟩ := p.burst_pow
  rw [nextBurst, add64, hk, or_two_pow_sub_one_succ, ← hk, Nat.mod_eq_of_lt (by omega)]

variable {pkt : Packet}

/-- An address of the packet is cut off at the end of its burst or of the packet, without truncation. -/
lemma burstBytes_eq (hend : pkt.getAddr + pkt.getSize + p.burstSize < 2 ^ 64) {a : Nat}
    (ha : a < pkt.getAddr + pkt.getSize) :
    burstBytes p pkt a = min (blockEnd p.burstSize a) (pkt.getAddr + pkt.getSize) - a := by
  have hlt := lt_blockEnd (burst_pos p) a
  have hle : blockEnd p.burstSize a ≤ a + p.burstSize := blockEnd_le a
  have hsize := burst_lt p
  have hadd : add64 pkt.getAddr pkt.getSize = pkt.getAddr + pkt.getSize := Nat.mod_eq_of_lt (by omega)
  have hmin : a ≤ min (blockEnd p.burstSize a) (pkt.getAddr + pkt.getSize) := le_min hlt.le ha.le
  have hcut := min_le_left (blockEnd p.burstSize a) (pkt.getAddr + pkt.getSize)
  rw [burstBytes, nextBurst_eq (by omega), hadd, sub64_of_le hmin, Nat.mod_eq_of_lt (by omega)]

lemma splitBursts_eq (hend : pkt.getAddr + pkt.getSize + p.burstSize < 2 ^ 64) {a n : Nat}
    (ha : a < pkt.getAddr + pkt.getSize)
    (hn : (pkt.getAddr + pkt.getSize - 1) / p.burstSize = a / p.burstSize + n) :
    splitBursts p pkt (n + 1) a = pieces p.burstSize (pkt.getAddr + pkt.getSize) (n + 1) a := by
  induction n generalizing a with
  | zero => rw [splitBursts_succ, burstBytes_eq hend ha, pieces, splitBursts, burstAddrs, pieces, List.map_nil]
  | succ n ih =>
    have hle : blockEnd p.burstSize a ≤ pkt.getAddr + pkt.getSize - 1 :=
      blockEnd_le_of_div_lt (burst_pos p) (by omega)
    rw [splitBursts_succ, burstBytes_eq hend ha, nextBurst_eq (by omega), pieces]
    rw [ih (by omega) (by rw [blockEnd_div (burst_pos p)]; omega)]

/-! ### The number of bursts -/

lemma dramPktCount_def (p : Params) (pkt : Packet) : dramPktCount p pkt =
    ((pkt.getAddr % p.burstSize + pkt.getSize) % 2 ^ 32 + p.burstSize - 1) % 2 ^ 32 / p.burstSize := by
  obtain ⟨k, -, hk⟩ := p.burst_pow
  rw [dramPktCount, hk, Nat.and_two_pow_sub_one_eq_mod]

/-- There is one burst for each block that the packet meets. -/
lemma dramPktCount_blocks (hs : 1 ≤ pkt.getSize)
    (hsum : pkt.getAddr % p.burstSize + pkt.getSize + p.burstSize ≤ 2 ^ 32) : ∃ n,
      dramPktCount p pkt = n + 1 ∧
      (pkt.getAddr + pkt.getSize - 1) / p.burstSize = pkt.getAddr / p.burstSize + n := by
  have hpos := burst_pos p
  have hsplit := Nat.div_add_mod pkt.getAddr p.burstSize
  refine ⟨(pkt.getAddr % p.burstSize + pkt.getSize - 1) / p.burstSize, ?_, ?_⟩
  · rw [dramPktCount_def, Nat.mod_eq_of_lt (a := _ + _) (by omega), Nat.mod_eq_of_lt (by omega),
      ← Nat.add_div_right _ hpos]
    congr 1
    omega
  · rw [← Nat.mul_add_div hpos]
    congr 1
    omega

/-- Past the end of 32 bits the number is zero. -/
lemma dramPktCount_eq_zero (hsize : pkt.getSize + p.burstSize < 2 ^ 32)
    (hsum : 2 ^ 32 < pkt.getAddr % p.burstSize + pkt.getSize + p.burstSize) : dramPktCount p pkt = 0 := by
  have hoff := Nat.mod_lt pkt.getAddr (burst_pos p)
  rw [dramPktCount_def, Nat.mod_eq_of_lt (a := _ + _) (by omega)]
  apply Nat.div_eq_of_lt
  omega

lemma not_tiles_of_overflow (hs : 1 ≤ pkt.getSize) (hsize : pkt.getSize + p.burstSize < 2 ^ 32)
    (hsum : 2 ^ 32 < pkt.getAddr % p.burstSize + pkt.getSize + p.burstSize) :
    ¬ Tiles p.burstSize pkt.getAddr (pkt.getAddr + pkt.getSize) (packetBursts p pkt) := by
  rw [packetBursts, dramPktCount_eq_zero hsize hsum]
  exact not_tiles_nil (by omega)

/-! ### Room in the read queue -/

/-- What counts against `readBufferSize`. -/
def readEntries (s : DRAMCtrl p) : Nat := s.readQueue.length + s.respQueue.length

lemma decodeAddr_outcome (a : Nat) : Outcome (decodeAddr p a) (· ≠ .readQueueFull) fun _ => True := by
  refine ⟨?_, fun _ _ => trivial⟩
  intro e he
  simp only [decodeAddr] at he
  split at he
  · split at he
    · cases he
    · cases he
      decide
  · cases he
    decide

/-- A pass pushes one packet at most, and finds room for it. -/
lemma readBurst_outcome (pktCount : Nat) {t : DRAMCtrl p × Option Nat × Nat}
    (hroom : readEntries t.1 + 1 ≤ p.readBufferSize) (b : Nat × Nat) :
    Outcome (readBurst pkt pktCount t b) (· ≠ .readQueueFull) fun u => readEntries u.1 ≤ readEntries t.1 + 1 := by
  unfold readBurst
  split
  · exact outcome_ok (Nat.le_succ _)
  · cases hhelper : t.1.withHelper pktCount t.2.1 with
    | mk s helper =>
    have hs : readEntries s = readEntries t.1 := by
      have heq := withHelper_eq t.1 pktCount t.2.1
      rw [hhelper] at heq
      exact (congrArg readEntries heq).trans rfl
    refine (decodeAddr_outcome b.1).bind fun loc _ => ?_
    refine (outcome_ensure fun hfull => ?_).bind fun _ _ => outcome_ok ?_
    · refine absurd ?_ hfull
      rw [readQueueFull, decide_eq_false_iff_not, Nat.not_lt]
      exact le_of_eq_of_le (congrArg (· + 1) hs) hroom
    · rw [← hs]
      simp only [readEntries, List.length_append, List.length_singleton]
      omega

lemma readBursts_outcome (pktCount : Nat) (l : List (Nat × Nat)) {t : DRAMCtrl p × Option Nat × Nat}
    (hroom : readEntries t.1 + l.length ≤ p.readBufferSize) :
    Outcome (runFrom (readBurst pkt pktCount) t l) (· ≠ .readQueueFull)
      fun u => readEntries u.1 ≤ p.readBufferSize := by
  induction l generalizing t with
  | nil => exact outcome_ok hroom
  | cons b l ih =>
    rw [List.length_cons] at hroom
    refine (readBurst_outcome pktCount (by omega) b).bind fun u hu => ih ?_
    omega

/-! ### Splitting a packet -/

lemma length_packetBursts (p : Params) (pkt : Packet) : (packetBursts p pkt).length = dramPktCount p pkt := by
  have haddrs : ∀ n a, (burstAddrs p n a).length = n := by
    intro n
    induction n with
    | zero => exact fun _ => rfl
    | succ n ih => exact fun a => congrArg (· + 1) (ih (nextBurst p a))
  rw [packetBursts, splitBursts, List.length_map, haddrs]

/-- The two loops handle the same sub-requests one after the other; these tile the packet; and after every pass
of the loop for an accepted read, whatever it finds in the write queue, the reads fit in the buffer. -/
structure SplitsIntoBursts (p : Params) (pkt : Packet) : Prop where
  reads : ∀ s : DRAMCtrl p, addReadBursts pkt (dramPktCount p pkt) (dramPktCount p pkt) pkt.getAddr none 0 s =
    runFrom (readBurst pkt (dramPktCount p pkt)) (s, none, 0) (packetBursts p pkt)
  writes : ∀ s : DRAMCtrl p, addWriteBursts pkt (dramPktCount p pkt) pkt.getAddr s =
    runFrom (writeBurst pkt) s (packetBursts p pkt)
  tiles : Tiles p.burstSize pkt.getAddr (pkt.getAddr + pkt.getSize) (packetBursts p pkt)
  room : ∀ s : DRAMCtrl p, s.readQueueFull (dramPktCount p pkt) = false → ∀ pre, pre <+: packetBursts p pkt →
    Outcome (runFrom (readBurst pkt (dramPktCount p pkt)) (s, none, 0) pre) (· ≠ .readQueueFull)
      fun t => readEntries t.1 ≤ p.readBufferSize

lemma packetBursts_room {s : DRAMCtrl p} (hfull : s.readQueueFull (dramPktCount p pkt) = false)
    {pre : List (Nat × Nat)} (hpre : pre <+: packetBursts p pkt) :
    Outcome (runFrom (readBurst pkt (dramPktCount p pkt)) (s, none, 0) pre) (· ≠ .readQueueFull)
      fun t => readEntries t.1 ≤ p.readBufferSize := by
  apply readBursts_outcome
  have hlen := hpre.length_le
  rw [length_packetBursts] at hlen
  rw [readQueueFull, decide_eq_false_iff_not, Nat.not_lt] at hfull
  simp only [readEntries]
  omega

/-- A packet is split into its bursts exactly if the number of bursts is computed without overflow. -/
theorem splitsIntoBursts_iff (p : Params) (pkt : Packet) (hs : 1 ≤ pkt.getSize)
    (hend : pkt.getAddr + pkt.getSize + p.burstSize < 2 ^ 64) (hsize : pkt.getSize + p.burstSize < 2 ^ 32) :
    SplitsIntoBursts p pkt ↔ pkt.getAddr % p.burstSize + pkt.getSize + p.burstSize ≤ 2 ^ 32 := by
  constructor
  · intro h
    by_contra hsum
    exact not_tiles_of_overflow hs hsize (by omega) h.tiles
  · intro hsum
    refine ⟨fun s => addReadBursts_eq _ _ _ _ _ _ s, fun s => addWriteBursts_eq _ _ _ s, ?_,
      fun s hfull pre hpre => packetBursts_room hfull hpre⟩
    obtain ⟨n, hcount, hn⟩ := dramPktCount_blocks hs hsum
    rw [packetBursts, hcount, splitBursts_eq hend (by omega) hn]
    exact tiles_pieces (burst_pos p) (by omega) hn

/-- A read of 100 bytes that starts within a burst. -/
theorem splitsIntoBursts_of_read : SplitsIntoBursts ddr3_1600_x64 ⟨0, .readReq 40 100, false⟩ :=
  (splitsIntoBursts_iff ddr3_1600_x64 ⟨0, .readReq 40 100, false⟩ (by decide) (by decide) (by decide)).mpr
    (by decide)

/-- A read of nearly 4 GiB from the last byte of a burst on has no bursts at all. -/
theorem read_of_no_bursts :
    dramPktCount ddr3_1600_x64 ⟨0, .readReq 63 (2 ^ 32 - 65), false⟩ = 0 ∧
      ¬ SplitsIntoBursts ddr3_1600_x64 ⟨0, .readReq 63 (2 ^ 32 - 65), false⟩ :=
  ⟨by decide, fun h => not_tiles_of_overflow (by decide) (by decide) (by decide) h.tiles⟩

end MimdramLean.Proofs

import MimdramLean.Proofs.QueueInvariants

/-!
# The order of row operations on one bank

Row operations are functionally performed when they are queued, in arrival order. The scheduler
does not know about row operations: under FR-FCFS a row operation whose destination row happens
to be open wins over an older one, and so does one whose bank can be prepared behind the scenes
while the older one's destination is open. This file shows that these are the only two ways.
-/

namespace MimdramLean.Proofs
open Library DRAMCtrl Channel

variable {p : Params}

def SameBank (d e : DRAMPacket p) : Prop := d.rank = e.rank ∧ d.bank = e.bank

lemma SameBank.available {c : Channel p} {d e : DRAMPacket p} (h : SameBank d e) :
    c.available d = c.available e := by
  simp only [Channel.available, h.1]

lemma SameBank.bank {c : Channel p} {d e : DRAMPacket p} (h : SameBank d e) : c.bank d = c.bank e := by
  simp only [Channel.bank, h.1, h.2]

lemma SameBank.bankId {d e : DRAMPacket p} (h : SameBank d e) : d.bankId = e.bankId := by
  simp only [DRAMPacket.bankId, h.1, h.2]

/-- A row operation that the scheduler picks has no older row operation of its bank in the queue. -/
def InArrivalOrder (c : Channel p) (now : Nat) (queue : List (DRAMPacket p)) (extra : Nat) : Prop :=
  ∀ pre d post, queue = pre ++ d :: post → c.chooseIndex now queue extra = some pre.length →
    d.isRowOp = true → ∀ e ∈ pre, e.isRowOp = true → ¬SameBank e d

/-! ### How FR-FCFS picks a packet -/

section Winners

variable (c : Channel p) (m : Nat) (prep : BitVec 64 × Bool) (queue pre : List (DRAMPacket p))
  (d : DRAMPacket p)

/-- `d` is the first seamless row hit, or there is none and it is the first row hit, unless a bank
can be prepared behind the scenes. -/
def WinsByHit : Prop :=
  (seamlessHit c m d = true ∧ ∀ x ∈ pre, seamlessHit c m x = false) ∨
  ((∀ x ∈ queue, seamlessHit c m x = false) ∧ rowHit c d = true ∧ (∀ x ∈ pre, rowHit c x = false) ∧
    ¬(prep.2 = true ∧ ∃ x ∈ queue, earliestMiss c prep.1 x = true))

/-- There is no seamless row hit, and `d` is the first packet of a bank that can be prepared
behind the scenes. -/
def WinsByHiddenPrep : Prop :=
  (∀ x ∈ queue, seamlessHit c m x = false) ∧ prep.2 = true ∧ earliestMiss c prep.1 d = true ∧
    ∀ x ∈ pre, earliestMiss c prep.1 x = false

/-- There is no row hit at all, and `d` is the first packet of an earliest bank. -/
def WinsByMiss : Prop :=
  (∀ x ∈ queue, rowHit c x = false) ∧ prep.2 = false ∧ earliestMiss c prep.1 d = true ∧
    ∀ x ∈ pre, earliestMiss c prep.1 x = false

end Winners

lemma seamlessHit_false_of_rowHit {c : Channel p} {m : Nat} {d : DRAMPacket p} (h : rowHit c d = false) :
    seamlessHit c m d = false := by
  simp [seamlessHit, h]

/-- The closed form of the search, read at one packet. -/
lemma reorderQueue_eq_some_iff (c : Channel p) (now extra : Nat) (pre post : List (DRAMPacket p))
    (d : DRAMPacket p) :
    c.reorderQueue now (pre ++ d :: post) extra = some pre.length ↔
      let queue := pre ++ d :: post
      let m := c.minColAt now extra
      let prep := c.minBankPrep now queue m
      WinsByHit c m prep queue pre d ∨ WinsByHiddenPrep c m prep queue pre d ∨
        WinsByMiss c prep queue pre d := by
  simp only
  rw [reorderQueue_eq, Option.or_eq_some_iff, firstFrom_split, firstFrom_eq_none]
  set queue := pre ++ d :: post with hqueue
  set m := c.minColAt now extra
  set prep := c.minBankPrep now queue m
  have hhit : firstFrom (rowHit c) queue 0 = some pre.length ↔
      rowHit c d = true ∧ ∀ x ∈ pre, rowHit c x = false := firstFrom_split
  have hmiss : firstFrom (earliestMiss c prep.1) queue 0 = some pre.length ↔
      earliestMiss c prep.1 d = true ∧ ∀ x ∈ pre, earliestMiss c prep.1 x = false := firstFrom_split
  have hnomiss : firstFrom (earliestMiss c prep.1) queue 0 = none ↔
      ¬∃ x ∈ queue, earliestMiss c prep.1 x = true := by
    rw [firstFrom_eq_none]
    push Not
    simp only [Bool.not_eq_true]
  unfold preferred WinsByHit WinsByHiddenPrep WinsByMiss
  cases hprep : prep.2 with
  | true =>
    simp only [if_true, Option.or_eq_some_iff, hhit, hmiss, hnomiss, true_and]
    constructor
    · rintro (hs | ⟨hs, hm | ⟨hm, hh⟩⟩)
      · exact .inl (.inl hs)
      · exact .inr (.inl ⟨hs, hm⟩)
      · exact .inl (.inr ⟨hs, hh.1, hh.2, hm⟩)
    · rintro ((hs | ⟨hs, hh, hh', hm⟩) | ⟨hs, hm⟩ | ⟨-, hfalse, -⟩)
      · exact .inl hs
      · exact .inr ⟨hs, .inr ⟨hm, hh, hh'⟩⟩
      · exact .inr ⟨hs, .inl hm⟩
      · cases hfalse
  | false =>
    simp only [Bool.false_eq_true, if_false, Option.or_eq_some_iff, hhit, hmiss, firstFrom_eq_none,
      false_and, not_false_eq_true, and_true, true_and]
    constructor
    · rintro (hs | ⟨hs, hh | ⟨hh, hm⟩⟩)
      · exact .inl (.inl hs)
      · exact .inl (.inr ⟨hs, hh⟩)
      · exact .inr (.inr ⟨hh, hm⟩)
    · rintro ((hs | ⟨hs, hh⟩) | ⟨-, ⟨⟩⟩ | ⟨hh, hm⟩)
      · exact .inl hs
      · exact .inr ⟨hs, .inl hh⟩
      · exact .inr ⟨fun x hx => seamlessHit_false_of_rowHit (hh x hx), .inr ⟨hh, hm⟩⟩

/-! ### The two ways past an older row operation -/

/-- No row operation wins by a row hit over an older one of its bank whose row is closed, and none
wins by hidden preparation over an older one of its bank whose row is open. -/
def OrderSafe (c : Channel p) (now : Nat) (queue : List (DRAMPacket p)) (extra : Nat) : Prop :=
  p.memSchedPolicy = .frfcfs → ∀ pre d post e, queue = pre ++ d :: post → e ∈ pre →
    d.isRowOp = true → e.isRowOp = true → SameBank e d →
    let m := c.minColAt now extra
    let prep := c.minBankPrep now queue m
    ((c.bank e).openRow ≠ e.row.val → ¬WinsByHit c m prep queue pre d) ∧
    ((c.bank e).openRow = e.row.val → ¬WinsByHiddenPrep c m prep queue pre d)

/-- With more than one packet queued, the policy decides. -/
lemma chooseIndex_of_mem (c : Channel p) (now extra : Nat) {pre : List (DRAMPacket p)} (d : DRAMPacket p)
    (post : List (DRAMPacket p)) {e : DRAMPacket p} (he : e ∈ pre) :
    c.chooseIndex now (pre ++ d :: post) extra =
      match p.memSchedPolicy with
      | .fcfs => firstFrom c.available (pre ++ d :: post) 0
      | .frfcfs => c.reorderQueue now (pre ++ d :: post) extra := by
  obtain ⟨x, xs, rfl⟩ := List.exists_cons_of_ne_nil (List.ne_nil_of_mem he)
  unfold chooseIndex
  split
  · rename_i hsingle
    simp at hsingle
  · cases p.memSchedPolicy with
    | fcfs => simp only [findIdx?_eq_firstFrom]
    | frfcfs => rfl

/-- Packets of one bank differ only in their rows, so a packet that wins tells whether the row of
an older one of its bank is open. -/
lemma older_of_wins (c : Channel p) (m : Nat) (prep : BitVec 64 × Bool) {pre : List (DRAMPacket p)}
    (post : List (DRAMPacket p)) {d e : DRAMPacket p} (he : e ∈ pre) (hb : SameBank e d) :
    (WinsByHit c m prep (pre ++ d :: post) pre d → (c.bank e).openRow ≠ e.row.val) ∧
    (WinsByHiddenPrep c m prep (pre ++ d :: post) pre d → (c.bank e).openRow = e.row.val) ∧
    ¬WinsByMiss c prep (pre ++ d :: post) pre d := by
  have hmem : e ∈ pre ++ d :: post := List.mem_append_left _ he
  -- whether the older packet hits or misses is all that can tell the two apart
  have hmissed : ∀ mask, earliestMiss c mask d = true → earliestMiss c mask e = false →
      (c.bank e).openRow = e.row.val := by
    intro mask hd hfalse
    by_contra hne
    simp only [earliestMiss, Bool.and_eq_true, decide_eq_true_eq] at hd
    have htrue : earliestMiss c mask e = true := by
      simp only [earliestMiss, hb.available, hb.bankId, hd.1.1, Bool.true_and, Bool.and_eq_true,
        decide_eq_true_eq]
      exact ⟨hne, hd.2⟩
    rw [htrue] at hfalse
    cases hfalse
  refine ⟨?_, ?_, ?_⟩
  · rintro (⟨hs, hpre⟩ | ⟨-, hh, hpre, -⟩) hrow
    · simp only [seamlessHit, rowHit, Bool.and_eq_true, decide_eq_true_eq] at hs
      have hfalse := hpre e he
      simp [seamlessHit, rowHit, hb.available, hs.1.1, hrow, hb.bank ▸ hs.2] at hfalse
    · simp only [rowHit, Bool.and_eq_true, decide_eq_true_eq] at hh
      have hfalse := hpre e he
      simp [rowHit, hb.available, hh.1, hrow] at hfalse
  · rintro ⟨-, -, hm, hpre⟩
    exact hmissed _ hm (hpre e he)
  · rintro ⟨hnone, -, hm, hpre⟩
    have hrow := hmissed _ hm (hpre e he)
    have hfalse := hnone e hmem
    simp only [earliestMiss, Bool.and_eq_true] at hm
    simp [rowHit, hb.available, hm.1.1, hrow] at hfalse

lemma inArrivalOrder_iff (c : Channel p) (now : Nat) (queue : List (DRAMPacket p)) (extra : Nat) :
    InArrivalOrder c now queue extra ↔ OrderSafe c now queue extra := by
  constructor
  · intro hord hpol pre d post e hq he hd hrow hb
    subst hq
    have hchoose := chooseIndex_of_mem c now extra d post he
    simp only [hpol] at hchoose
    have hnot : ¬c.reorderQueue now (pre ++ d :: post) extra = some pre.length := fun hsome =>
      hord pre d post rfl (hchoose.trans hsome) hd e he hrow hb
    rw [reorderQueue_eq_some_iff] at hnot
    exact ⟨fun _ hw => hnot (.inl hw), fun _ hw => hnot (.inr (.inl hw))⟩
  · intro hsafe pre d post hq hi hd e he hrow hb
    subst hq
    rw [chooseIndex_of_mem c now extra d post he] at hi
    cases hpol : p.memSchedPolicy with
    | fcfs =>
      -- first come first served: the older packet goes to the same rank
      simp only [hpol] at hi
      obtain ⟨hav, hpre⟩ := firstFrom_split.mp hi
      have hfalse := hpre e he
      rw [hb.available, hav] at hfalse
      cases hfalse
    | frfcfs =>
      simp only [hpol] at hi
      obtain ⟨hhit, hhidden⟩ := hsafe hpol pre d post e rfl he hd hrow hb
      obtain ⟨hrow₁, hrow₂, hmiss⟩ := older_of_wins c (c.minColAt now extra)
        (c.minBankPrep now (pre ++ d :: post) (c.minColAt now extra)) post he hb
      rcases (reorderQueue_eq_some_iff c now extra pre post d).mp hi with hw | hw | hw
      · exact hhit (hrow₁ hw) hw
      · exact hhidden (hrow₂ hw) hw
      · exact hmiss hw

/-! ### Whole runs -/

/-- The row operations of one bank in a list of packets. -/
def rowOpsOf (r : Fin p.ranksPerChannel) (b : Fin p.banksPerRank) (ds : List (DRAMPacket p)) :
    List (DRAMPacket p) :=
  ds.filter fun d => d.isRowOp && decide (d.rank = r ∧ d.bank = b)

/-- Each bank has been issued its row operations in the order of their arrival, and those still
queued follow. -/
def ProgramOrder (s : DRAMCtrl p) : Prop :=
  ∀ r b, rowOpsOf r b s.issued ++ rowOpsOf r b s.writeQueue = rowOpsOf r b s.arrived

/-- If the event is a request event that chooses from the write queue (not all ranks are busy, and
the bus is turned to writes), its choice is safe. -/
def DecidesSafely (s : DRAMCtrl p) (e : Nat × Event p) : Prop :=
  let (t, switched) := { s with curTick := e.1 }.checkDrains.switchBus
  e.2 = .nextReq → busyRanks s.channel ≠ p.ranksPerChannel → t.busState ≠ .read →
    OrderSafe t.channel e.1 s.writeQueue (if switched then min p.tRTW p.tCS else 0)

lemma rowOpsOf_append (r : Fin p.ranksPerChannel) (b : Fin p.banksPerRank) (xs ys : List (DRAMPacket p)) :
    rowOpsOf r b (xs ++ ys) = rowOpsOf r b xs ++ rowOpsOf r b ys := by
  simp [rowOpsOf]

lemma rowOpsOf_ordinary (r : Fin p.ranksPerChannel) (b : Fin p.banksPerRank) {ws : List (DRAMPacket p)}
    (h : ∀ d ∈ ws, d.isRowOp = false) : rowOpsOf r b ws = [] := by
  rw [rowOpsOf, List.filter_eq_nil_iff]
  intro d hd
  simp [h d hd]

/-- Taking `d` out first leaves the order of each bank as it is if `d` overtakes none of its bank. -/
lemma rowOpsOf_served (r : Fin p.ranksPerChannel) (b : Fin p.banksPerRank) {pre post : List (DRAMPacket p)}
    {d : DRAMPacket p} (h : d.isRowOp = true → ∀ x ∈ pre, x.isRowOp = true → ¬SameBank x d) :
    rowOpsOf r b [d] ++ rowOpsOf r b (pre ++ post) = rowOpsOf r b (pre ++ d :: post) := by
  rw [← List.singleton_append (l := post), rowOpsOf_append, rowOpsOf_append, rowOpsOf_append]
  by_cases hd : d.isRowOp = true ∧ d.rank = r ∧ d.bank = b
  · have hnone : rowOpsOf r b pre = [] := by
      rw [rowOpsOf, List.filter_eq_nil_iff]
      intro x hx hrow
      simp only [Bool.and_eq_true, decide_eq_true_eq] at hrow
      exact h hd.1 x hx hrow.1 ⟨hrow.2.1.trans hd.2.1.symm, hrow.2.2.trans hd.2.2.symm⟩
    simp [hnone]
  · have hnone : rowOpsOf r b [d] = [] := by simpa [rowOpsOf] using hd
    simp [hnone]

lemma servedWrite_inOrder {s : DRAMCtrl p} {e : Nat × Event p} (hsafe : DecidesSafely s e)
    {pre post : List (DRAMPacket p)} {d : DRAMPacket p} (hwrite : s.writeQueue = pre ++ d :: post)
    (hserved : servedWrite { s with curTick := e.1 } e.2 = some pre.length) :
    d.isRowOp = true → ∀ x ∈ pre, x.isRowOp = true → ¬SameBank x d := by
  by_cases he : e.2 = .nextReq
  · rw [he] at hserved
    simp only [servedWrite, writeChoice] at hserved
    unfold DecidesSafely at hsafe
    obtain ⟨hq, -, htick, -⟩ := switchBus_fst { s with curTick := e.1 }.checkDrains
    cases hsw : { s with curTick := e.1 }.checkDrains.switchBus with
    | mk t switched =>
    rw [hsw] at hsafe hserved hq htick
    simp only at hsafe hserved hq htick
    have hw : t.writeQueue = s.writeQueue := congrArg Queues.writeQueue hq
    have ht : t.curTick = e.1 := htick
    split at hserved
    · rename_i hchooses
      rw [hw, ht] at hserved
      exact (inArrivalOrder_iff _ _ _ _).mpr (hsafe he hchooses.1 hchooses.2) pre d post hwrite hserved
    · cases hserved
  · rw [servedWrite_of_ne he] at hserved
    cases hserved

lemma step_programOrder {s s' : DRAMCtrl p} {e : Nat × Event p} (hi : QueueInv (queues s))
    (hsafe : DecidesSafely s e) (ho : ProgramOrder s) (h : step s e = .ok s') : ProgramOrder s' := by
  obtain ⟨-, hh⟩ := step_eq_ok.mp h
  have hsame : s'.issued = s.issued → s'.writeQueue = s.writeQueue → s'.arrived = s.arrived →
      ProgramOrder s' := by
    intro h₁ h₂ h₃ r b
    rw [h₁, h₂, h₃]
    exact ho r b
  cases (handle_effect hh).1 with
  | frame he hq hev =>
    exact hsame (congrArg Queues.issued hq) (congrArg Queues.writeQueue hq) (congrArg Queues.arrived hq)
  | addReads hserved rs hord hq hev =>
    exact hsame (congrArg Queues.issued hq) (congrArg Queues.writeQueue hq) (congrArg Queues.arrived hq)
  | stall hserved bus hbus hq hwhy =>
    exact hsame (congrArg Queues.issued hq) (congrArg Queues.writeQueue hq) (congrArg Queues.arrived hq)
  | turn hserved hread hwrite hq hev =>
    exact hsame (congrArg Queues.issued hq) (congrArg Queues.writeQueue hq) (congrArg Queues.arrived hq)
  | addRowOp hserved d hd hlen hq hev =>
    intro r b
    rw [show s'.issued = s.issued from congrArg Queues.issued hq,
      show s'.writeQueue = s.writeQueue ++ [d] from congrArg Queues.writeQueue hq,
      show s'.arrived = s.arrived ++ [d] from congrArg Queues.arrived hq,
      rowOpsOf_append, rowOpsOf_append, ← ho r b, List.append_assoc]
  | addWrites hserved ws hord hnodup hnew hlen hq hev =>
    intro r b
    rw [show s'.issued = s.issued from congrArg Queues.issued hq,
      show s'.writeQueue = s.writeQueue ++ ws from congrArg Queues.writeQueue hq,
      show s'.arrived = s.arrived ++ ws from congrArg Queues.arrived hq,
      rowOpsOf_append, rowOpsOf_append, ← ho r b, List.append_assoc]
  | serveRead hserved pre d post hread bus hbus hq hev =>
    -- reads are no row operations
    have hd : d.isRowOp = false := hi.reads d (by
      change d ∈ s.readQueue
      have hr : s.readQueue = pre ++ d :: post := hread
      simp [hr])
    intro r b
    have hnone : rowOpsOf r b [d] = [] := rowOpsOf_ordinary r b (by simpa using hd)
    rw [show s'.issued = s.issued ++ [d] from congrArg Queues.issued hq,
      show s'.writeQueue = s.writeQueue from congrArg Queues.writeQueue hq,
      show s'.arrived = s.arrived from congrArg Queues.arrived hq, rowOpsOf_append, hnone, List.append_nil]
    exact ho r b
  | serveWrite pre d post hserved hwrite bus hbus hq hev =>
    intro r b
    have hwq : s.writeQueue = pre ++ d :: post := hwrite
    rw [show s'.issued = s.issued ++ [d] from congrArg Queues.issued hq,
      show s'.writeQueue = pre ++ post from congrArg Queues.writeQueue hq,
      show s'.arrived = s.arrived from congrArg Queues.arrived hq, ← ho r b, hwq, rowOpsOf_append,
      List.append_assoc, rowOpsOf_served r b (servedWrite_inOrder hsafe hwq hserved)]

/-- The scheduler picks the row operations of one bank in arrival order exactly if none wins by a
row hit over an older one whose row is closed, or by hidden preparation over an older one whose
row is open; and in a run all of whose decisions are safe in this sense, the row operations reach
each bank in program order. -/
theorem rowOps_in_arrival_order_iff (p : Params) :
    (∀ (c : Channel p) (now : Nat) (queue : List (DRAMPacket p)) (extra : Nat),
      InArrivalOrder c now queue extra ↔ OrderSafe c now queue extra) ∧
    ∀ (now : Nat) (es : List (Nat × Event p)),
      Steps step (startup p now) es DecidesSafely → Along step (startup p now) es ProgramOrder := by
  refine ⟨inArrivalOrder_iff, fun now es hsafe pre u hpre hu => ?_⟩
  have hstart : QueueInv (queues (startup p now)) ∧ ProgramOrder (startup p now) :=
    ⟨queueInv_startup p now, by simp [ProgramOrder, DRAMCtrl.startup, rowOpsOf]⟩
  refine (along_of_steps step (I := fun s => QueueInv (queues s) ∧ ProgramOrder s) ?_ hstart hsafe pre u hpre hu).2
  intro s e t hs hdecides hstep
  exact ⟨step_queueInv s e t hs.1 hstep, step_programOrder hs.1 hdecides hs.2 hstep⟩

/-- The oldest packet of the write queue is chosen, or none. -/
def choosesOldest (s : DRAMCtrl p) (e : Nat × Event p) : Bool :=
  let (t, switched) := { s with curTick := e.1 }.checkDrains.switchBus
  (t.channel.chooseIndex e.1 s.writeQueue (if switched then min p.tRTW p.tCS else 0)).getD 0 == 0

lemma decidesSafely_of_choosesOldest (s : DRAMCtrl p) (e : Nat × Event p) (h : choosesOldest s e = true) :
    DecidesSafely s e := by
  intro _ _ _
  refine (inArrivalOrder_iff _ _ _ _).mp ?_
  intro pre d post _ hchosen _ x hx
  have hzero : (some pre.length).getD 0 = 0 := by
    rw [← hchosen]
    exact eq_of_beq h
  rw [List.eq_nil_of_length_eq_zero hzero] at hx
  cases hx

/-- Two row operations on bank 0, which has no open row; the second reads the row that the first writes. -/
def twoRowOps : List (Nat × Event ddr3_1600_x64) :=
  [(2, .recvTimingReq ⟨1, .rowOpReq ⟨.rowNot, 655360, 131072, 0⟩, false⟩),
    (2, .recvTimingReq ⟨2, .rowOpReq ⟨.rowNot, 917504, 655360, 0⟩, false⟩),
    (2, .nextReq), (2, .nextReq), (78002, .nextReq)]

theorem rowOps_in_arrival_order_twoRowOps :
    (∃ s, run ddr3_1600_x64 0 twoRowOps = .ok s ∧ s.issued.map (fun d => d.pkt.id) = [1, 2]) ∧
      Along step (startup ddr3_1600_x64 0) twoRowOps ProgramOrder := by
  constructor
  · obtain ⟨s, hrun, hs⟩ := exists_of_okWith (x := run ddr3_1600_x64 0 twoRowOps)
      (P := fun s => decide (s.issued.map (fun d => d.pkt.id) = [1, 2])) (by decide +kernel)
    exact ⟨s, hrun, of_decide_eq_true hs⟩
  · refine (rowOps_in_arrival_order_iff ddr3_1600_x64).2 0 twoRowOps ?_
    exact steps_of_passesSteps step decidesSafely_of_choosesOldest (by decide +kernel)

/-- A read leaves row 7 open. Of two row operations on the bank, the second reads the row that
the first writes, and its destination is row 7. -/
def dependentRowOps : List (Nat × Event ddr3_1600_x64) :=
  [(1, .recvTimingReq ⟨0, .readReq 917504 64, false⟩), (1, .nextReq),
    (1, .activate ⟨0, ddr3_1600_x64.ranks_pos⟩), (1, .power ⟨0, ddr3_1600_x64.ranks_pos⟩),
    (2, .recvTimingReq ⟨1, .rowOpReq ⟨.rowNot, 655360, 131072, 0⟩, false⟩),
    (2, .recvTimingReq ⟨2, .rowOpReq ⟨.rowNot, 917504, 655360, 0⟩, false⟩),
    (5000, .nextReq), (5000, .nextReq)]

/-- The second row operation is issued while the first is still queued. -/
theorem dependentRowOps_overtake :
    ∃ s, run ddr3_1600_x64 0 dependentRowOps = .ok s ∧
      (rowOpsOf ⟨0, by decide⟩ ⟨0, by decide⟩ s.arrived).map (fun d => d.pkt.id) = [1, 2] ∧
      (rowOpsOf ⟨0, by decide⟩ ⟨0, by decide⟩ s.issued).map (fun d => d.pkt.id) = [2] := by
  obtain ⟨s, hrun, hs⟩ := exists_of_okWith (x := run ddr3_1600_x64 0 dependentRowOps)
    (P := fun s => decide (
      (rowOpsOf ⟨0, by decide⟩ ⟨0, by decide⟩ s.arrived).map (fun d => d.pkt.id) = [1, 2] ∧
      (rowOpsOf ⟨0, by decide⟩ ⟨0, by decide⟩ s.issued).map (fun d => d.pkt.id) = [2]))
    (by decide +kernel)
  exact ⟨s, hrun, of_decide_eq_true hs⟩

end MimdramLean.Proofs

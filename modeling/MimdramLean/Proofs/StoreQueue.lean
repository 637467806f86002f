import MimdramLean.StoreQueue
import Mathlib.Algebra.Order.BigOperators.Group.List

/-!
# Loads and the row operations in the store queue

A row operation in the store queue holds back the loads that read its destination row. The search
compares the row with the bytes from the load's physical address on, which for a split load is the
address of the low fragment only, and it passes over stores that are strictly ordered.
-/

namespace MimdramLean.Proofs
open Library StoreQueue

/-! ### The requests of a load -/

/-- The pieces of physical memory that a load reads, as address and size. -/
def fragments (reqs : LoadRequests) : List (Nat × Nat) :=
  match reqs.sreqs with
  | none => [(reqs.req.paddr.getD 0, reqs.req.size)]
  | some (low, high) => [(low.paddr.getD 0, low.size), (high.paddr.getD 0, high.size)]

/-- The load reads a byte of the row at `dest`. -/
def ReadsRow (reqs : LoadRequests) (dest : Nat) : Prop :=
  ∃ frag ∈ fragments reqs, ∃ i < frag.2, dest ≤ frag.1 + i ∧ frag.1 + i < dest + rowSize

/-- A load that has been translated: the main request has the address of the low fragment. -/
structure Translated (env : LoadEnv) (addr size : Nat) (reqs : LoadRequests) : Prop where
  vaddr : reqs.req.vaddr = addr
  size : reqs.req.size = size
  paddr : reqs.req.paddr = some env.low.1
  split : ∀ low high, reqs.sreqs = some (low, high) → low.paddr = some env.low.1 ∧ high.paddr = some env.high.1

lemma answerBoth_ok (req low high : Request) (a b : Nat × Nat) (highFirst : Bool) :
    ∃ st : WholeTranslationState Unit,
      (WholeTranslationState.ofSplit req low high).answerBoth (.ok a) (.ok b) highFirst = .ok (st, true) ∧
      st.mainReq.vaddr = req.vaddr ∧ st.mainReq.size = req.size ∧ st.mainReq.paddr = some a.1 ∧
      st.sreqLow = some { low.setFlags a.2 with paddr := some a.1 } ∧
      st.sreqHigh = some { high.setFlags b.2 with paddr := some b.1 } := by
  cases highFirst with
  | true => exact ⟨_, rfl, rfl, rfl, rfl, rfl, rfl⟩
  | false => exact ⟨_, rfl, rfl, rfl, rfl, rfl, rfl⟩

lemma readMem_translated {env : LoadEnv} {addr size flags : Nat} {reqs : LoadRequests}
    (h : LoadRequests.readMem env addr size flags = .ok reqs) : Translated env addr size reqs := by
  simp only [LoadRequests.readMem] at h
  split at h
  · cases h
    refine ⟨rfl, rfl, rfl, ?_⟩
    intro low high hsplit
    cases hsplit
  · rename_i low high _
    obtain ⟨st, hst, hvaddr, hsize, hpaddr, hlow, hhigh⟩ :=
      answerBoth_ok ⟨addr, size, none, flags⟩ low high env.low env.high env.highFirst
    simp only [hst, ok_bind, hlow, hhigh, Except.ok.injEq] at h
    subst h
    refine ⟨hvaddr, hsize, hpaddr, ?_⟩
    intro low' high' heq
    cases heq
    exact ⟨rfl, rfl⟩

/-! ### One store -/

/-- An executed store that is no row operation has all the load's bytes. -/
def Supplies (st : SQEntry) (addr size : Nat) : Prop :=
  st.rowOp = none ∧ st.size ≠ 0 ∧ st.effAddr ≤ addr ∧ addr + size ≤ st.effAddr + st.size

section OneStore

variable {req : Request} {paddr : Nat} {st : SQEntry} {addrs : RowOpPayload}

lemma supplies_of_full (hwrap : req.vaddr + req.size < 2 ^ 64) (hst : st.rowOp = none) (hexec : st.size ≠ 0)
    (hfull : (Overlap.of req paddr st).isFull = true) : Supplies st req.vaddr req.size := by
  simp only [Overlap.of, hst, Overlap.isFull, Overlap.ofStore, Bool.and_eq_true, decide_eq_true_eq,
    add64_of_lt hwrap] at hfull
  exact ⟨hst, hexec, hfull.1, le_trans hfull.2 (add64_le _ _)⟩

/-- A row operation whose row meets the bytes from the load's address on stops the load. -/
lemma overlap_of_meets (hst : st.rowOp = some addrs) (hmeets : Overlap.meetsRow paddr req.size addrs = true) :
    (Overlap.of req paddr st).isFull = false ∧ (Overlap.of req paddr st).isPartial = true := by
  have hof : Overlap.of req paddr st = Overlap.pretended := by simp [Overlap.of, hst, hmeets]
  rw [hof]
  exact ⟨rfl, rfl⟩

/-- Otherwise its payload is compared, which lies in page 0. -/
lemma overlap_of_not_meets (hpage : 4096 ≤ req.vaddr) (hwrap : req.vaddr + req.size < 2 ^ 64)
    (hst : st.rowOp = some addrs) (hexec : st.size ≠ 0)
    (hmeets : Overlap.meetsRow paddr req.size addrs = false) :
    (Overlap.of req paddr st).isFull = false ∧ (Overlap.of req paddr st).isPartial = false := by
  obtain ⟨heff, hsize⟩ := st.ofRowOp (by simp [hst]) hexec
  have hend : add64 st.effAddr st.size = 32 := by rw [heff, hsize]; rfl
  have hupper : ¬req.vaddr + req.size ≤ 32 := by omega
  have hlower : ¬req.vaddr < 32 := by omega
  simp [Overlap.of, hst, hmeets, Overlap.isFull, Overlap.isPartial, Overlap.ofStore, hend,
    add64_of_lt hwrap, hupper, hlower]

lemma rowOp_not_full (hpage : 4096 ≤ req.vaddr) (hwrap : req.vaddr + req.size < 2 ^ 64)
    (hst : st.rowOp = some addrs) (hexec : st.size ≠ 0) : (Overlap.of req paddr st).isFull = false := by
  cases hmeets : Overlap.meetsRow paddr req.size addrs with
  | true => exact (overlap_of_meets hst hmeets).1
  | false => exact (overlap_of_not_meets hpage hwrap hst hexec hmeets).1

end OneStore

/-! ### The search -/

section Search

variable {n : Nat} {q : StoreQueue n} {inst : ReadInst n} {req : Request} {paddr : Nat}

/-- The search ends with the load held back, or in an assertion. -/
abbrev HeldBack (x : Except ReadFailure (Option (ReadResult n))) : Prop :=
  Outcome x (fun _ => True) fun o => ∃ stall, o = some (.rescheduled stall)

/-- One store of the search: passed over, forwarded from, waited for, or no match. -/
lemma search_cons_of_partial {idx : Fin n} {rest : List (Fin n)} (hexec : (q.storeQueue idx).size ≠ 0)
    (hordered : (q.storeQueue idx).strictlyOrdered = false)
    (hfull : (Overlap.of req paddr (q.storeQueue idx)).isFull = false)
    (hpart : (Overlap.of req paddr (q.storeQueue idx)).isPartial = true) :
    HeldBack (q.search inst req paddr (idx :: rest)) := by
  have hskip : ¬((q.storeQueue idx).size = 0 ∨ (q.storeQueue idx).strictlyOrdered = true) := by
    simp [hexec, hordered]
  simp only [search, if_neg hskip, hfull, hpart, if_true, Bool.false_eq_true, if_false]
  refine (outcome_ensure fun _ => trivial).bind fun _ _ => ?_
  exact (outcome_ensure fun _ => trivial).bind fun _ _ => outcome_ok ⟨_, rfl⟩

lemma search_cons_of_full {idx : Fin n} {rest : List (Fin n)} (hexec : (q.storeQueue idx).size ≠ 0)
    (hordered : (q.storeQueue idx).strictlyOrdered = false)
    (hfull : (Overlap.of req paddr (q.storeQueue idx)).isFull = true) :
    q.search inst req paddr (idx :: rest) = .ok (some (.forwarded idx
      (if (q.storeQueue idx).isAllZeros then none else some (shiftAmt req (q.storeQueue idx))))) := by
  have hskip : ¬((q.storeQueue idx).size = 0 ∨ (q.storeQueue idx).strictlyOrdered = true) := by
    simp [hexec, hordered]
  simp only [search, if_neg hskip, (q.storeQueue idx).executed hexec, ensure, if_true, ok_bind, hfull]

lemma search_cons_of_none {idx : Fin n} {rest : List (Fin n)}
    (h : (q.storeQueue idx).size = 0 ∨ (q.storeQueue idx).strictlyOrdered = true ∨
      (Overlap.of req paddr (q.storeQueue idx)).isFull = false ∧
        (Overlap.of req paddr (q.storeQueue idx)).isPartial = false) :
    q.search inst req paddr (idx :: rest) = q.search inst req paddr rest := by
  by_cases hskip : (q.storeQueue idx).size = 0 ∨ (q.storeQueue idx).strictlyOrdered = true
  · simp only [search, if_pos hskip]
  · have hvalid := (q.storeQueue idx).executed (fun h0 => hskip (.inl h0))
    have hnone : (Overlap.of req paddr (q.storeQueue idx)).isFull = false ∧
        (Overlap.of req paddr (q.storeQueue idx)).isPartial = false := by
      rcases h with h | h | h
      · exact absurd (.inl h) hskip
      · exact absurd (.inr h) hskip
      · exact h
    simp only [search, if_neg hskip, hvalid, ensure, if_true, ok_bind, hnone.1, hnone.2,
      Bool.false_eq_true, if_false]

/-- A row operation that is compared and found to overlap holds the load back, unless a younger
store has all its bytes. -/
lemma search_heldBack (hpage : 4096 ≤ req.vaddr) (hwrap : req.vaddr + req.size < 2 ^ 64) {st : SQEntry}
    {addrs : RowOpPayload} (hst : st.rowOp = some addrs) (hexec : st.size ≠ 0)
    (hordered : st.strictlyOrdered = false) (hmeets : Overlap.meetsRow paddr req.size addrs = true)
    {is : List (Fin n)} {younger rest : List SQEntry} (his : is.map q.storeQueue = younger ++ st :: rest)
    (hyounger : ∀ s ∈ younger, ¬Supplies s req.vaddr req.size) : HeldBack (q.search inst req paddr is) := by
  induction is generalizing younger with
  | nil => simp at his
  | cons idx is ih =>
    cases younger with
    | nil =>
      obtain ⟨rfl, -⟩ := List.cons.inj his
      obtain ⟨hfull, hpart⟩ := overlap_of_meets hst hmeets
      exact search_cons_of_partial hexec hordered hfull hpart
    | cons s younger =>
      obtain ⟨hs, his⟩ := List.cons.inj his
      have hrest := ih his fun s' hs' => hyounger s' (List.mem_cons_of_mem _ hs')
      by_cases hskip : (q.storeQueue idx).size = 0 ∨ (q.storeQueue idx).strictlyOrdered = true
      · rw [search_cons_of_none (hskip.imp_right .inl)]
        exact hrest
      · simp only [not_or, Bool.not_eq_true] at hskip
        -- a younger store that has only part of the bytes holds the load back as well
        have hfull : (Overlap.of req paddr (q.storeQueue idx)).isFull = false := by
          cases hop : (q.storeQueue idx).rowOp with
          | some addrs' => exact rowOp_not_full hpage hwrap hop hskip.1
          | none =>
            apply Bool.eq_false_iff.mpr
            intro hfull
            apply hyounger (q.storeQueue idx) (hs ▸ List.mem_cons_self)
            exact supplies_of_full hwrap hop hskip.1 hfull
        cases hpart : (Overlap.of req paddr (q.storeQueue idx)).isPartial with
        | true => exact search_cons_of_partial hskip.1 hskip.2 hfull hpart
        | false =>
          rw [search_cons_of_none (.inr (.inr ⟨hfull, hpart⟩))]
          exact hrest

/-- No data come from a row operation's payload. -/
lemma search_forwarded (hpage : 4096 ≤ req.vaddr) (hwrap : req.vaddr + req.size < 2 ^ 64) (is : List (Fin n)) :
    Outcome (q.search inst req paddr is) (fun _ => True) fun o =>
      ∀ idx src, o = some (.forwarded idx src) → (q.storeQueue idx).rowOp = none := by
  induction is with
  | nil => exact outcome_ok (by simp)
  | cons idx is ih =>
    by_cases hskip : (q.storeQueue idx).size = 0 ∨ (q.storeQueue idx).strictlyOrdered = true
    · rw [search_cons_of_none (hskip.imp_right .inl)]
      exact ih
    · simp only [search, if_neg hskip]
      refine (outcome_ensure fun _ => trivial).bind fun _ _ => ?_
      split
      · rename_i hfull
        refine outcome_ok fun idx' src heq => ?_
        simp only [Option.some.injEq, ReadResult.forwarded.injEq] at heq
        rw [← heq.1]
        cases hop : (q.storeQueue idx).rowOp with
        | none => rfl
        | some addrs =>
          rw [rowOp_not_full hpage hwrap hop (fun h0 => hskip (.inl h0))] at hfull
          cases hfull
      · split
        · exact (outcome_ensure fun _ => trivial).bind fun _ _ => outcome_ok (by simp)
        · exact ih

end Search

/-! ### Loads -/

/-- The load is sent to the cache, or data are forwarded to it. -/
def GoesAhead {n : Nat} (r : Except ReadFailure (ReadResult n)) : Prop :=
  (∃ pkts blocked, r = .ok (.access pkts blocked)) ∨ ∃ idx src, r = .ok (.forwarded idx src)

/-- The stores that are older than the load and not written back, youngest first. -/
def olderStores {n : Nat} (q : StoreQueue n) (inst : ReadInst n) : List SQEntry :=
  (q.olderIndices inst.sqIdx).map q.storeQueue

section Loads

variable {env : LoadEnv} {addr size : Nat} {reqs : LoadRequests}

lemma read_eq_search (ht : Translated env addr size reqs) (hordered : reqs.req.isStrictlyOrdered = false)
    (hipr : reqs.req.isMmappedIpr = false) {n : Nat} (q : StoreQueue n) (inst : ReadInst n)
    (accepts : Fin 2 → Bool) :
    q.read inst reqs accepts =
      q.search inst reqs.req env.low.1 (q.olderIndices inst.sqIdx) >>= conclude reqs env.low.1 accepts := by
  simp only [StoreQueue.read, hordered, hipr, Bool.false_and, Bool.false_eq_true, if_false, ht.paddr]

lemma sendLoad_access (ht : Translated env addr size reqs) {n : Nat} (accepts : Fin 2 → Bool) :
    ∃ pkts blocked, (sendLoad reqs env.low.1 accepts : Except ReadFailure (ReadResult n)) =
      .ok (.access pkts blocked) := by
  unfold sendLoad
  split
  · exact ⟨_, _, rfl⟩
  · rename_i low high hsplit
    obtain ⟨hlow, hhigh⟩ := ht.split low high hsplit
    simp only [hlow, hhigh]
    cases accepts 0 with
    | true => exact ⟨_, _, rfl⟩
    | false => exact ⟨_, _, rfl⟩

/-- A store queue with one store older than the load. -/
def oneStore (st : SQEntry) : StoreQueue 2 := ⟨fun _ => st, ⟨0, Nat.two_pos⟩, none⟩

/-- A load inserted after that store. -/
def afterOne : ReadInst 2 := ⟨1, 0, Fin.last 1, true, true⟩

lemma olderIndices_oneStore (st : SQEntry) : (oneStore st).olderIndices afterOne.sqIdx = [0] := by
  simp [olderIndices, oneStore, afterOne, LSQUnit.distance, List.range_succ]

/-- The only older store does not stop the load. -/
lemma read_oneStore (ht : Translated env addr size reqs) (hordered : reqs.req.isStrictlyOrdered = false)
    (hipr : reqs.req.isMmappedIpr = false) {st : SQEntry} (accepts : Fin 2 → Bool)
    (h : st.size = 0 ∨ st.strictlyOrdered = true ∨ (Overlap.of reqs.req env.low.1 st).isFull = false ∧
      (Overlap.of reqs.req env.low.1 st).isPartial = false) :
    GoesAhead ((oneStore st).read afterOne reqs accepts) := by
  left
  rw [read_eq_search ht hordered hipr, olderIndices_oneStore, search_cons_of_none h]
  exact sendLoad_access ht accepts

/-- What the search owes to an executed row operation `st`: a load that reads its destination row
waits, unless a younger store has all its bytes; and a load that reads no destination row gets no
payload. -/
structure Honours (reqs : LoadRequests) (addr size : Nat) (st : SQEntry) (addrs : RowOpPayload) : Prop where
  waits : ReadsRow reqs addrs.dest → ∀ {n : Nat} (q : StoreQueue n) (inst : ReadInst n) (accepts : Fin 2 → Bool)
    (younger rest : List SQEntry), olderStores q inst = younger ++ st :: rest →
    (∀ s ∈ younger, ¬Supplies s addr size) → ¬GoesAhead (q.read inst reqs accepts)
  noPayload : ∀ {n : Nat} (q : StoreQueue n) (inst : ReadInst n) (accepts : Fin 2 → Bool),
    (∀ s ∈ olderStores q inst, s.size ≠ 0 → ∀ a, s.rowOp = some a → ¬ReadsRow reqs a.dest) →
    ∀ idx src, q.read inst reqs accepts = .ok (.forwarded idx src) → (q.storeQueue idx).rowOp = none

lemma honours_of_compared (ht : Translated env addr size reqs) (hordered : reqs.req.isStrictlyOrdered = false)
    (hipr : reqs.req.isMmappedIpr = false) (hpage : 4096 ≤ addr) (hwrap : addr + size < 2 ^ 64) {st : SQEntry}
    {addrs : RowOpPayload} (hst : st.rowOp = some addrs) (hexec : st.size ≠ 0)
    (hcompared : ReadsRow reqs addrs.dest →
      st.strictlyOrdered = false ∧ Overlap.meetsRow env.low.1 size addrs = true) :
    Honours reqs addr size st addrs where
  waits := by
    intro hreads n q inst accepts younger rest hsplit hyounger
    obtain ⟨hst', hmeets⟩ := hcompared hreads
    have hheld : HeldBack (q.search inst reqs.req env.low.1 (q.olderIndices inst.sqIdx)) := by
      apply search_heldBack (ht.vaddr ▸ hpage) (ht.vaddr ▸ ht.size ▸ hwrap) hst hexec hst' (ht.size ▸ hmeets) hsplit
      intro s hs
      rw [ht.vaddr, ht.size]
      exact hyounger s hs
    have hread : Outcome (q.read inst reqs accepts) (fun _ => True) fun r => ∃ stall, r = .rescheduled stall := by
      rw [read_eq_search ht hordered hipr]
      refine hheld.bind ?_
      rintro _ ⟨stall, rfl⟩
      exact outcome_ok ⟨stall, rfl⟩
    rintro (⟨pkts, blocked, hgo⟩ | ⟨idx, src, hgo⟩)
    · obtain ⟨stall, hstall⟩ := hread.2 _ hgo
      cases hstall
    · obtain ⟨stall, hstall⟩ := hread.2 _ hgo
      cases hstall
  noPayload := by
    intro n q inst accepts _ idx src hread
    rw [read_eq_search ht hordered hipr] at hread
    obtain ⟨o, hsearch, hresult⟩ := bind_eq_ok.mp hread
    cases o with
    | none =>
      obtain ⟨pkts, blocked, hsend⟩ := sendLoad_access (n := n) ht accepts
      rw [conclude, hsend] at hresult
      cases hresult
    | some result =>
      cases hresult
      exact (search_forwarded (ht.vaddr ▸ hpage) (ht.vaddr ▸ ht.size ▸ hwrap) _).2 _ hsearch idx src rfl

/-- An executed row operation with the given destination. -/
def rowOpTo (dest : Nat) : SQEntry where
  seqNum := 0
  effAddr := 0
  effAddrValid := true
  strictlyOrdered := false
  size := RowOpPayload.sizeOf
  rowOp := some ⟨.rowAnd, dest, 0, 0⟩
  isAllZeros := false
  completed := false
  executed := fun _ => rfl
  ofRowOp := fun _ _ => ⟨rfl, rfl⟩

/-- The row behind everything that the load reads. -/
lemma exists_far_row (reqs : LoadRequests) (paddr size : Nat) : ∃ dest, ¬ReadsRow reqs dest ∧
    Overlap.meetsRow paddr size ⟨.rowAnd, dest, 0, 0⟩ = false := by
  refine ⟨paddr + size + ((fragments reqs).map fun frag => frag.1 + frag.2).sum, ?_, ?_⟩
  · rintro ⟨frag, hfrag, i, hi, hlow, -⟩
    have hle := List.single_le_sum (fun _ _ => Nat.zero_le _) (frag.1 + frag.2)
      (List.mem_map_of_mem (f := fun frag : Nat × Nat => frag.1 + frag.2) hfrag)
    omega
  · have hle := add64_le paddr size
    simp only [Overlap.meetsRow, decide_eq_false_iff_not]
    omega

/-- A load that ends at 2 ^ 64 seems to end at 0, inside the payload of any row operation. -/
lemma forwarded_of_wrap (ht : Translated env addr size reqs) (hordered : reqs.req.isStrictlyOrdered = false)
    (hipr : reqs.req.isMmappedIpr = false) (hend : addr + size = 2 ^ 64) {dest : Nat}
    (hmiss : Overlap.meetsRow env.low.1 size ⟨.rowAnd, dest, 0, 0⟩ = false) (accepts : Fin 2 → Bool) :
    ∃ src, (oneStore (rowOpTo dest)).read afterOne reqs accepts = .ok (.forwarded 0 src) := by
  have hzero : add64 reqs.req.vaddr reqs.req.size = 0 := by
    rw [ht.vaddr, ht.size, add64, hend, Nat.mod_self]
  have hfull : (Overlap.of reqs.req env.low.1 (rowOpTo dest)).isFull = true := by
    have hof : Overlap.of reqs.req env.low.1 (rowOpTo dest) = Overlap.ofStore reqs.req (rowOpTo dest) := by
      simp [Overlap.of, rowOpTo, ht.size, hmiss]
    rw [hof]
    simp [Overlap.isFull, Overlap.ofStore, hzero, rowOpTo]
  rw [read_eq_search ht hordered hipr, olderIndices_oneStore, search_cons_of_full
    (show RowOpPayload.sizeOf ≠ 0 by decide) rfl hfull]
  exact ⟨_, rfl⟩

/-- The search honours a row operation exactly if a load of its row is compared with it by the
address of the bytes it reads, and the load does not end where addresses wrap around. -/
theorem read_honours_rowOp_iff (env : LoadEnv) (addr size flags : Nat) (reqs : LoadRequests)
    (hload : LoadRequests.readMem env addr size flags = .ok reqs)
    (hcacheable : reqs.req.isUncacheable = false ∧ reqs.req.isStrictlyOrdered = false ∧
      reqs.req.isMmappedIpr = false)
    (hpage : 4096 ≤ addr ∧ addr + size ≤ 2 ^ 64) (st : SQEntry) (addrs : RowOpPayload)
    (hst : st.rowOp = some addrs) (hexec : st.size ≠ 0) :
    Honours reqs addr size st addrs ↔
      (ReadsRow reqs addrs.dest →
        st.strictlyOrdered = false ∧ Overlap.meetsRow env.low.1 size addrs = true) ∧
      addr + size < 2 ^ 64 := by
  have ht := readMem_translated hload
  obtain ⟨-, hordered, hipr⟩ := hcacheable
  constructor
  · intro h
    have hwrap : addr + size < 2 ^ 64 := by
      by_contra hnot
      obtain ⟨dest, hfar, hmiss⟩ := exists_far_row reqs env.low.1 size
      obtain ⟨src, hread⟩ := forwarded_of_wrap ht hordered hipr (by omega) hmiss fun _ => true
      have hnone := h.noPayload (oneStore (rowOpTo dest)) afterOne (fun _ => true) (by
        intro s hs _ a ha
        rw [olderStores, olderIndices_oneStore] at hs
        obtain rfl : s = rowOpTo dest := by simpa [oneStore] using hs
        cases ha
        exact hfar) 0 src hread
      cases hnone
    refine ⟨fun hreads => ?_, hwrap⟩
    have hvaddr : 4096 ≤ reqs.req.vaddr := ht.vaddr ▸ hpage.1
    have hend : reqs.req.vaddr + reqs.req.size < 2 ^ 64 := ht.vaddr ▸ ht.size ▸ hwrap
    have hwaits := h.waits hreads (oneStore st) afterOne (fun _ => true) [] []
      (by rw [olderStores, olderIndices_oneStore]; rfl) (by simp)
    constructor
    · apply Bool.eq_false_iff.mpr
      intro hst'
      exact hwaits (read_oneStore ht hordered hipr _ (.inr (.inl hst')))
    · apply Bool.not_eq_false _ |>.mp
      intro hmeets
      rw [← ht.size] at hmeets
      exact hwaits (read_oneStore ht hordered hipr _
        (.inr (.inr (overlap_of_not_meets hvaddr hend hst hexec hmeets))))
  · rintro ⟨hcompared, hwrap⟩
    exact honours_of_compared ht hordered hipr hpage.1 hwrap hst hexec hcompared

end Loads

/-- A load of 8 bytes at 0x3000, translated to 0x10008. -/
def wholeLoad : LoadRequests := ⟨⟨0x3000, 8, some 0x10008, 0⟩, none⟩

theorem wholeLoad_honours : Honours wholeLoad 0x3000 8 (rowOpTo 0x10000) ⟨.rowAnd, 0x10000, 0, 0⟩ :=
  (read_honours_rowOp_iff ⟨64, (0x10008, 0), (0, 0), false⟩ 0x3000 8 0 wholeLoad rfl (by decide) (by decide)
    (rowOpTo 0x10000) ⟨.rowAnd, 0x10000, 0, 0⟩ rfl (by decide)).mpr ⟨fun _ => ⟨rfl, by decide⟩, by decide⟩

/-- The high fragment of a load over a page boundary is in the destination row, the low one is
not: the load is sent to the cache past the row operation. -/
theorem split_load_passes_rowOp : ∃ reqs : LoadRequests,
    LoadRequests.readMem ⟨64, (0x5ffc, 0), (0x10000, 0), false⟩ 0x1ffc 8 0 = .ok reqs ∧
      ReadsRow reqs 0x10000 ∧ olderStores (oneStore (rowOpTo 0x10000)) afterOne = [rowOpTo 0x10000] ∧
      (oneStore (rowOpTo 0x10000)).read afterOne reqs (fun _ => true) =
        .ok (.access [(0x5ffc, 4), (0x10000, 4)] false) := by
  refine ⟨⟨⟨0x1ffc, 8, some 0x5ffc, 0⟩, some (⟨0x1ffc, 4, some 0x5ffc, 0⟩, ⟨0x2000, 4, some 0x10000, 0⟩)⟩,
    rfl, ⟨(0x10000, 4), by simp [fragments], 0, by decide⟩, ?_, ?_⟩
  · rw [olderStores, olderIndices_oneStore]
    rfl
  · decide

/-- A load that is not split waits for every row operation on the bytes it reads that is not
strictly ordered. -/
theorem whole_load_honours {env : LoadEnv} {addr size flags : Nat} {reqs : LoadRequests}
    (hload : LoadRequests.readMem env addr size flags = .ok reqs) (hwhole : reqs.sreqs = none)
    (hordered : reqs.req.isStrictlyOrdered = false) (hipr : reqs.req.isMmappedIpr = false)
    (hpage : 4096 ≤ addr) (hwrap : addr + size < 2 ^ 64) {st : SQEntry} {addrs : RowOpPayload}
    (hst : st.rowOp = some addrs) (hexec : st.size ≠ 0) (hst' : st.strictlyOrdered = false)
    (hpaddr : env.low.1 + size < 2 ^ 64) (hdest : addrs.dest + rowSize < 2 ^ 64) :
    Honours reqs addr size st addrs := by
  have ht := readMem_translated hload
  refine honours_of_compared ht hordered hipr hpage hwrap hst hexec ?_
  rintro ⟨frag, hfrag, i, hi, hlow, hhigh⟩
  refine ⟨hst', ?_⟩
  simp only [fragments, hwhole, ht.paddr, ht.size, Option.getD_some, List.mem_singleton] at hfrag
  subst hfrag
  simp only [Overlap.meetsRow, add64_of_lt hpaddr, add64_of_lt hdest, decide_eq_true_eq]
  omega

end MimdramLean.Proofs

import MimdramLean.Scheduler

/-!
# What FR-FCFS selects

The search of `reorderQueue` has six variables and an early exit. Here it is brought into closed
form: the first seamless row hit, and otherwise either the first row hit or the first packet of a
bank that `minBankPrep` named, in an order that depends on whether the bank can be prepared behind
the scenes. From that follow when the scheduler finds a packet.
-/

namespace MimdramLean.Proofs
open Library Channel

variable {p : Params}

def rowHit (c : Channel p) (d : DRAMPacket p) : Bool :=
  c.available d && decide ((c.bank d).openRow = d.row.val)

def seamlessHit (c : Channel p) (minColAt : Nat) (d : DRAMPacket p) : Bool :=
  rowHit c d && decide ((c.bank d).colAllowedAt ≤ minColAt)

/-- A packet to an available rank that misses and whose bank is in the mask. -/
def earliestMiss (c : Channel p) (mask : BitVec 64) (d : DRAMPacket p) : Bool :=
  c.available d && decide ((c.bank d).openRow ≠ d.row.val) && decide (bitAt mask d.bankId ≠ 0)

/-- The choice between the first row hit and the first packet that misses. -/
def preferred (hidden : Bool) (hit miss : Option Nat) : Option Nat :=
  if hidden then miss.or hit else hit.or miss

/-- The variables of the search when `hit` and `miss` are the first ones seen so far. -/
structure SearchInv (prep : BitVec 64 × Bool) (st : Search) (hit miss : Option Nat) : Prop where
  mask : miss = none → st.earliestBanks = 0 ∨ (st.earliestBanks, st.hiddenBankPrep) = prep
  earliest : st.foundEarliestPkt = miss.isSome
  hiddenBank : st.foundHiddenBank = (miss.isSome && prep.2)
  prepped : st.foundHiddenBank = false → st.foundPreppedPkt = hit.isSome
  selected : st.selectedPkt = preferred prep.2 hit miss

lemma searchInv_init (prep : BitVec 64 × Bool) :
    SearchInv prep ⟨0, false, false, false, false, none⟩ none none where
  mask := fun _ => .inl rfl
  earliest := rfl
  hiddenBank := by simp
  prepped := fun _ => rfl
  selected := by simp [preferred]

/-- A row hit that is not seamless: it is remembered only if it is the first, and after a hidden
bank it does not matter. -/
lemma SearchInv.step_hit {prep : BitVec 64 × Bool} {st : Search} {hit miss : Option Nat} {i : Nat}
    (h : SearchInv prep st hit miss) :
    SearchInv prep
      (if st.foundHiddenBank = false ∧ st.foundPreppedPkt = false then
        { st with selectedPkt := some i, foundPreppedPkt := true } else st)
      (hit.or (some i)) miss := by
  by_cases hh : st.foundHiddenBank = false
  · have hp := h.prepped hh
    cases hit with
    | none =>
      have hf : st.foundPreppedPkt = false := by simpa using hp
      have hb := h.hiddenBank
      rw [hh] at hb
      rw [if_pos ⟨hh, hf⟩]
      refine ⟨h.mask, h.earliest, h.hiddenBank, fun _ => rfl, ?_⟩
      cases miss with
      | none => simp [preferred]
      | some j =>
        have hprep : prep.2 = false := by simpa using hb.symm
        simp [preferred, hprep]
    | some j =>
      have hf : st.foundPreppedPkt = true := by simpa using hp
      rw [if_neg (by simp [hf])]
      simpa using h
  · have hb : (miss.isSome && prep.2) = true := by
      rw [← h.hiddenBank]
      simpa using hh
    obtain ⟨hm, hprep⟩ := Bool.and_eq_true_iff.mp hb
    rw [if_neg (by simp [hh])]
    refine ⟨h.mask, h.earliest, h.hiddenBank, fun hf => absurd hf hh, ?_⟩
    obtain ⟨j, rfl⟩ := Option.isSome_iff_exists.mp hm
    simp [h.selected, preferred, hprep]

/-- The first packet of an earliest bank. -/
lemma SearchInv.step_miss {prep : BitVec 64 × Bool} {st : Search} {hit : Option Nat} {i : Nat}
    (h : SearchInv prep st hit none) :
    SearchInv prep
      { st with
        earliestBanks := prep.1
        hiddenBankPrep := prep.2
        foundEarliestPkt := true
        foundHiddenBank := prep.2
        selectedPkt := if prep.2 = true ∨ st.foundPreppedPkt = false then some i else st.selectedPkt }
      hit (some i) := by
  have hp : st.foundPreppedPkt = hit.isSome := h.prepped (by simp [h.hiddenBank])
  refine ⟨by simp, rfl, by simp, fun _ => hp, ?_⟩
  have hs := h.selected
  cases hprep : prep.2 with
  | true => simp [preferred]
  | false => cases hit <;> simp_all [preferred]

/-- A packet of a bank that is not among the earliest ones only fills in the mask. -/
lemma SearchInv.step_mask {prep : BitVec 64 × Bool} {st : Search} {hit : Option Nat}
    (h : SearchInv prep st hit none) :
    SearchInv prep { st with earliestBanks := prep.1, hiddenBankPrep := prep.2 } hit none :=
  ⟨fun _ => .inr rfl, h.earliest, h.hiddenBank, h.prepped, h.selected⟩

lemma SearchInv.mask_eq {prep : BitVec 64 × Bool} {st : Search} {hit : Option Nat}
    (h : SearchInv prep st hit none) :
    (if st.earliestBanks = 0 then prep else (st.earliestBanks, st.hiddenBankPrep)) = prep := by
  rcases h.mask rfl with h0 | h1
  · rw [if_pos h0]
  · rw [h1, ite_self]

/-- The search in closed form, from any position. -/
theorem reorderLoop_eq (c : Channel p) (now : Nat) (queue : List (DRAMPacket p)) (m : Nat)
    (ds : List (DRAMPacket p)) (i : Nat) (st : Search) (hit miss : Option Nat)
    (h : SearchInv (c.minBankPrep now queue m) st hit miss) :
    c.reorderLoop now queue m ds i st =
      (firstFrom (seamlessHit c m) ds i).or
        (preferred (c.minBankPrep now queue m).2 (hit.or (firstFrom (rowHit c) ds i))
          (miss.or (firstFrom (earliestMiss c (c.minBankPrep now queue m).1) ds i))) := by
  induction ds generalizing i st hit miss with
  | nil => simpa [reorderLoop, firstFrom] using h.selected
  | cons d ds ih =>
    rw [reorderLoop]
    by_cases ha : c.available d = true
    · rw [if_pos ha]
      by_cases hr : (c.bank d).openRow = d.row.val
      · have hhit : rowHit c d = true := by simp [rowHit, ha, hr]
        have hmiss : earliestMiss c (c.minBankPrep now queue m).1 d = false := by
          simp [earliestMiss, hr]
        rw [if_pos hr, firstFrom_cons_of_not hmiss, firstFrom_cons_of hhit]
        by_cases hc : (c.bank d).colAllowedAt ≤ m
        · have hs : seamlessHit c m d = true := by simp [seamlessHit, hhit, hc]
          rw [if_pos hc, firstFrom_cons_of hs]
          rfl
        · have hs : seamlessHit c m d = false := by simp [seamlessHit, hc]
          have hstep := ih (i + 1) _ _ _ (h.step_hit (i := i))
          rw [if_neg hc, firstFrom_cons_of_not hs]
          have hor : (hit.or (some i)).or (firstFrom (rowHit c) ds (i + 1)) = hit.or (some i) := by
            cases hit <;> rfl
          rw [hor] at hstep
          rw [← hstep]
          simp only [Bool.not_eq_true']
          split <;> rfl
      · have hhit : rowHit c d = false := by simp [rowHit, hr]
        have hs : seamlessHit c m d = false := by simp [seamlessHit, hhit]
        rw [if_neg hr, firstFrom_cons_of_not hhit, firstFrom_cons_of_not hs]
        cases miss with
        | some j =>
          have hf : st.foundEarliestPkt = true := by simpa using h.earliest
          rw [if_neg (by simp [hf])]
          simpa using ih (i + 1) st hit (some j) h
        | none =>
          have hf : st.foundEarliestPkt = false := by simpa using h.earliest
          rw [if_pos (by simp [hf])]
          simp only [h.mask_eq]
          by_cases hb : bitAt (c.minBankPrep now queue m).1 d.bankId ≠ 0
          · have hm : earliestMiss c (c.minBankPrep now queue m).1 d = true := by
              simpa [earliestMiss, ha, hr] using hb
            rw [if_pos hb, firstFrom_cons_of hm]
            simpa using ih (i + 1) _ hit (some i) h.step_miss
          · have hm : earliestMiss c (c.minBankPrep now queue m).1 d = false := by
              simp only [earliestMiss, hb, decide_false, Bool.and_false]
            rw [if_neg hb, firstFrom_cons_of_not hm]
            exact ih (i + 1) _ hit none h.step_mask
    · have hhit : rowHit c d = false := by simp [rowHit, ha]
      have hs : seamlessHit c m d = false := by simp [seamlessHit, hhit]
      have hm : earliestMiss c (c.minBankPrep now queue m).1 d = false := by simp [earliestMiss, ha]
      rw [if_neg ha, firstFrom_cons_of_not hhit, firstFrom_cons_of_not hs, firstFrom_cons_of_not hm]
      exact ih (i + 1) st hit miss h

/-- What `reorderQueue` selects. -/
theorem reorderQueue_eq (c : Channel p) (now : Nat) (queue : List (DRAMPacket p)) (extra : Nat) :
    c.reorderQueue now queue extra =
      (firstFrom (seamlessHit c (c.minColAt now extra)) queue 0).or
        (preferred (c.minBankPrep now queue (c.minColAt now extra)).2
          (firstFrom (rowHit c) queue 0)
          (firstFrom (earliestMiss c (c.minBankPrep now queue (c.minColAt now extra)).1) queue 0)) := by
  rw [reorderQueue, reorderLoop_eq c now queue _ queue 0 _ none none (searchInv_init _)]
  simp

/-! ### The earliest banks -/

lemma mem_allBanks (ij : Fin p.ranksPerChannel × Fin p.banksPerRank) : ij ∈ allBanks p := by
  simp [allBanks, List.mem_flatMap, List.mem_map]

lemma gotWaiting_iff (c : Channel p) (queue : List (DRAMPacket p)) (i : Fin p.ranksPerChannel)
    (j : Fin p.banksPerRank) :
    c.gotWaiting queue i j = true ↔ ∃ d ∈ queue, c.available d = true ∧
      d.bankId = (i.val * p.banksPerRank + j.val) % 2 ^ 16 := by
  simp [gotWaiting, List.any_eq_true]

lemma gotWaiting_of_mem (c : Channel p) {queue : List (DRAMPacket p)} {d : DRAMPacket p}
    (hd : d ∈ queue) (ha : c.available d = true) : c.gotWaiting queue d.rank d.bank = true := by
  rw [gotWaiting_iff]
  exact ⟨d, hd, ha, by rw [DRAMPacket.bankId, Nat.mul_comm]⟩

/-- The mask names a waiting bank as soon as one has been looked at, and until then the variables
have their initial values. -/
structure PrepInv (c : Channel p) (queue : List (DRAMPacket p))
    (seen : List (Fin p.ranksPerChannel × Fin p.banksPerRank)) (st : BankPrep) : Prop where
  fresh : (∀ ij ∈ seen, c.gotWaiting queue ij.1 ij.2 = false) →
    st.minActAt = ⊤ ∧ st.foundSeamlessBank = false
  named : (∃ ij ∈ seen, c.gotWaiting queue ij.1 ij.2 = true) →
    ∃ ij ∈ seen, c.gotWaiting queue ij.1 ij.2 = true ∧
      st.bankMask.getLsbD ((ij.1.val * p.banksPerRank + ij.2.val) % 2 ^ 16) = true

lemma bankId_lt (hb : p.ranksPerChannel * p.banksPerRank ≤ 64) (i : Fin p.ranksPerChannel)
    (j : Fin p.banksPerRank) : (i.val * p.banksPerRank + j.val) % 2 ^ 16 < 64 := by
  have h : i.val * p.banksPerRank + j.val < p.ranksPerChannel * p.banksPerRank := by
    calc i.val * p.banksPerRank + j.val < i.val * p.banksPerRank + p.banksPerRank := by omega
      _ = (i.val + 1) * p.banksPerRank := (Nat.succ_mul _ _).symm
      _ ≤ p.ranksPerChannel * p.banksPerRank := Nat.mul_le_mul_right _ i.isLt
  rw [Nat.mod_eq_of_lt (by omega)]
  omega

lemma prepStep_inv (hb : p.ranksPerChannel * p.banksPerRank ≤ 64) (c : Channel p) (now : Nat)
    (queue : List (DRAMPacket p)) (m : Nat)
    (seen : List (Fin p.ranksPerChannel × Fin p.banksPerRank)) (st : BankPrep)
    (h : PrepInv c queue seen st) (ij : Fin p.ranksPerChannel × Fin p.banksPerRank) :
    PrepInv c queue (seen ++ [ij]) (c.prepStep now queue m st ij) := by
  by_cases hw : c.gotWaiting queue ij.1 ij.2 = true
  · refine ⟨fun hnone => ?_, fun _ => ?_⟩
    · have := hnone ij (by simp)
      rw [hw] at this
      exact absurd this (by decide)
    · simp only [prepStep, hw, if_true]
      split
      · refine ⟨ij, by simp, hw, ?_⟩
        rw [getLsbD_setBit _ _ _ (bankId_lt hb ij.1 ij.2)]
        simp
      · -- a bank that is passed over loses against one seen before
        rename_i hcond
        have hseen : ∃ kl ∈ seen, c.gotWaiting queue kl.1 kl.2 = true := by
          by_contra hno
          push Not at hno
          obtain ⟨htop, hf⟩ := h.fresh (fun kl hkl => by simpa using hno kl hkl)
          exact hcond (.inr ⟨by simp [hf], by simp [htop]⟩)
        obtain ⟨kl, hkl, hkw, hbit⟩ := h.named hseen
        exact ⟨kl, by simp [hkl], hkw, hbit⟩
  · have hst : c.prepStep now queue m st ij = st := by simp [prepStep, hw]
    rw [hst]
    refine ⟨fun hnone => h.fresh (fun kl hkl => hnone kl (by simp [hkl])), ?_⟩
    rintro ⟨kl, hkl, hkw⟩
    have hmem : kl ∈ seen := by
      rcases List.mem_append.mp hkl with hkl | hkl
      · exact hkl
      · rw [List.mem_singleton.mp hkl] at hkw
        exact absurd hkw hw
    obtain ⟨kl', hkl', hkw', hbit⟩ := h.named ⟨kl, hmem, hkw⟩
    exact ⟨kl', by simp [hkl'], hkw', hbit⟩

lemma foldl_prepStep_inv (hb : p.ranksPerChannel * p.banksPerRank ≤ 64) (c : Channel p) (now : Nat)
    (queue : List (DRAMPacket p)) (m : Nat)
    (rest seen : List (Fin p.ranksPerChannel × Fin p.banksPerRank)) (st : BankPrep)
    (h : PrepInv c queue seen st) :
    PrepInv c queue (seen ++ rest) (rest.foldl (c.prepStep now queue m) st) := by
  induction rest generalizing seen st with
  | nil => simpa using h
  | cons ij rest ih =>
    have hs := ih (seen ++ [ij]) _ (prepStep_inv hb c now queue m seen st h ij)
    simpa using hs

/-- If some packet goes to an available rank, the mask of `minBankPrep` holds the bank of one. -/
theorem minBankPrep_names_bank (hb : p.ranksPerChannel * p.banksPerRank ≤ 64) (c : Channel p)
    (now : Nat) (queue : List (DRAMPacket p)) (m : Nat) {d : DRAMPacket p} (hd : d ∈ queue)
    (ha : c.available d = true) :
    ∃ e ∈ queue, c.available e = true ∧ bitAt (c.minBankPrep now queue m).1 e.bankId ≠ 0 := by
  have hinit : PrepInv c queue [] ⟨0, ⊤, false, false⟩ := ⟨fun _ => ⟨rfl, rfl⟩, by simp⟩
  have hinv := foldl_prepStep_inv hb c now queue m (allBanks p) [] _ hinit
  obtain ⟨ij, -, hw, hbit⟩ := hinv.named
    ⟨(d.rank, d.bank), by simpa using mem_allBanks _, gotWaiting_of_mem c hd ha⟩
  obtain ⟨e, he, hae, hid⟩ := (gotWaiting_iff c queue ij.1 ij.2).mp hw
  refine ⟨e, he, hae, ?_⟩
  rw [bitAt_ne_zero_iff, hid]
  exact hbit

/-! ### Completeness -/

/-- FR-FCFS finds a packet whenever one goes to an available rank. -/
theorem reorderQueue_isSome (hb : p.ranksPerChannel * p.banksPerRank ≤ 64) (c : Channel p)
    (now : Nat) (queue : List (DRAMPacket p)) (extra : Nat) {d : DRAMPacket p} (hd : d ∈ queue)
    (ha : c.available d = true) : c.reorderQueue now queue extra ≠ none := by
  intro hnone
  rw [reorderQueue_eq, Option.or_eq_none_iff] at hnone
  obtain ⟨-, hpref⟩ := hnone
  obtain ⟨hhit, hmiss⟩ : firstFrom (rowHit c) queue 0 = none ∧
      firstFrom (earliestMiss c (c.minBankPrep now queue (c.minColAt now extra)).1) queue 0 = none := by
    unfold preferred at hpref
    split at hpref <;> simp_all [Option.or_eq_none_iff]
  obtain ⟨e, he, hae, hbit⟩ := minBankPrep_names_bank hb c now queue (c.minColAt now extra) hd ha
  have hh := firstFrom_eq_none.mp hhit e he
  have hm := firstFrom_eq_none.mp hmiss e he
  simp only [rowHit, hae, Bool.true_and, decide_eq_false_iff_not] at hh
  simp only [earliestMiss, hae, hh, ne_eq, not_false_eq_true, decide_true, Bool.and_self,
    Bool.true_and, decide_eq_false_iff_not] at hm
  exact hm hbit

/-- `chooseNext` finds a packet whenever one goes to an available rank, under both policies. -/
theorem chooseIndex_isSome (hb : p.ranksPerChannel * p.banksPerRank ≤ 64) (c : Channel p)
    (now : Nat) (queue : List (DRAMPacket p)) (extra : Nat) {d : DRAMPacket p} (hd : d ∈ queue)
    (ha : c.available d = true) : c.chooseIndex now queue extra ≠ none := by
  unfold chooseIndex
  split
  · rename_i e
    rw [List.mem_singleton.mp hd] at ha
    simp [ha]
  · cases hpol : p.memSchedPolicy with
    | fcfs =>
      simp only [ne_eq]
      rw [findIdx?_eq_firstFrom, firstFrom_eq_none]
      intro hall
      rw [hall d hd] at ha
      exact absurd ha (by decide)
    | frfcfs => exact reorderQueue_isSome hb c now queue extra hd ha

lemma preferred_eq_some {hidden : Bool} {hit miss : Option Nat} {i : Nat}
    (h : preferred hidden hit miss = some i) : hit = some i ∨ miss = some i := by
  unfold preferred at h
  split at h
  · cases miss <;> simp_all
  · cases hit <;> simp_all

/-- Whatever policy chooses, it chooses a packet of the queue that goes to an available rank. -/
theorem chooseIndex_spec (c : Channel p) (now : Nat) (queue : List (DRAMPacket p)) (extra : Nat)
    {i : Nat} (h : c.chooseIndex now queue extra = some i) :
    ∃ pre d post, queue = pre ++ d :: post ∧ i = pre.length ∧ c.available d = true := by
  have key : ∀ P : DRAMPacket p → Bool, (∀ d, P d = true → c.available d = true) →
      firstFrom P queue 0 = some i →
      ∃ pre d post, queue = pre ++ d :: post ∧ i = pre.length ∧ c.available d = true := by
    intro P hP hf
    obtain ⟨pre, d, post, hq, hi, hd, -⟩ := firstFrom_eq_some.mp hf
    exact ⟨pre, d, post, hq, by omega, hP d hd⟩
  have hhit : ∀ d, rowHit c d = true → c.available d = true := by
    intro d hd
    simp only [rowHit, Bool.and_eq_true] at hd
    exact hd.1
  unfold chooseIndex at h
  split at h
  · rename_i d
    by_cases ha : c.available d = true
    · rw [if_pos ha] at h
      cases h
      exact ⟨[], d, [], rfl, rfl, ha⟩
    · rw [if_neg ha] at h
      cases h
  · cases hpol : p.memSchedPolicy with
    | fcfs =>
      simp only [hpol, findIdx?_eq_firstFrom] at h
      exact key c.available (fun _ hd => hd) h
    | frfcfs =>
      simp only [hpol, reorderQueue_eq] at h
      rcases Option.or_eq_some_iff.mp h with hs | ⟨-, hpref⟩
      · refine key _ (fun d hd => hhit d ?_) hs
        simp only [seamlessHit, Bool.and_eq_true] at hd
        exact hd.1
      · rcases preferred_eq_some hpref with hh | hm
        · exact key _ hhit hh
        · refine key _ (fun d hd => ?_) hm
          simp only [earliestMiss, Bool.and_eq_true] at hd
          exact hd.1.1

/-- `chooseNext` either finds nothing and leaves the queue, or moves a packet to the front. -/
theorem chooseNext_cases {c : Channel p} {now : Nat} {queue : List (DRAMPacket p)} {extra : Nat}
    {r : Bool × List (DRAMPacket p)} (h : c.chooseNext now queue extra = .ok r) :
    queue ≠ [] ∧ ((c.chooseIndex now queue extra = none ∧ r = (false, queue)) ∨
      ∃ pre d post, queue = pre ++ d :: post ∧ c.chooseIndex now queue extra = some pre.length ∧
        c.available d = true ∧ r = (true, d :: (pre ++ post))) := by
  obtain ⟨u, hne, hrest⟩ := bind_eq_ok.mp h
  refine ⟨ensure_eq_ok.mp hne, ?_⟩
  cases hi : c.chooseIndex now queue extra with
  | none =>
    simp only [hi] at hrest
    cases hrest
    exact .inl ⟨rfl, rfl⟩
  | some i =>
    simp only [hi] at hrest
    cases hrest
    obtain ⟨pre, d, post, hq, rfl, ha⟩ := chooseIndex_spec c now queue extra hi
    refine .inr ⟨pre, d, post, hq, rfl, ha, ?_⟩
    rw [hq, moveToFront_append]

lemma chooseNext_ok (c : Channel p) (now : Nat) {queue : List (DRAMPacket p)} (extra : Nat) (hne : queue ≠ []) :
    ∃ r, c.chooseNext now queue extra = .ok r := by
  have hensure : ensure (queue ≠ []) Failure.queueEmpty = .ok () := ensure_eq_ok.mpr hne
  cases hi : c.chooseIndex now queue extra with
  | none => exact ⟨(false, queue), bind_eq_ok.mpr ⟨(), hensure, by simp only [hi]⟩⟩
  | some i => exact ⟨(true, moveToFront queue i), bind_eq_ok.mpr ⟨(), hensure, by simp only [hi]⟩⟩

/-- `chooseNext` finds a packet exactly if one goes to an available rank. It moves the packet to the head and
keeps the others in their order; if it finds none, it leaves the queue as it is. -/
theorem chooseNext_complete (hb : p.ranksPerChannel * p.banksPerRank ≤ 64) (c : Channel p) (now : Nat)
    (queue : List (DRAMPacket p)) (extraColDelay : Nat) (hne : queue ≠ []) :
    ∃ found queue', c.chooseNext now queue extraColDelay = .ok (found, queue') ∧
      (found = true ↔ ∃ d ∈ queue, c.available d = true) ∧
      (found = true → ∃ pre d post, queue = pre ++ d :: post ∧ c.available d = true ∧
        queue' = d :: (pre ++ post)) ∧
      (found = false → queue' = queue) := by
  obtain ⟨r, hr⟩ := chooseNext_ok c now extraColDelay hne
  obtain ⟨-, ⟨hnone, rfl⟩ | ⟨pre, d, post, hq, -, ha, rfl⟩⟩ := chooseNext_cases hr
  · refine ⟨false, queue, hr, ?_, by simp, fun _ => rfl⟩
    constructor
    · intro h
      cases h
    · rintro ⟨d, hd, ha⟩
      exact absurd hnone (chooseIndex_isSome hb c now queue extraColDelay hd ha)
  · refine ⟨true, d :: (pre ++ post), hr, ?_, fun _ => ⟨pre, d, post, hq, ha, rfl⟩, by simp⟩
    have hd : d ∈ queue := by simp [hq]
    exact ⟨fun _ => ⟨d, hd, ha⟩, fun _ => rfl⟩

lemma ddr3_1600_x64_banks_pos : 0 < ddr3_1600_x64.banksPerRank := by decide

lemma noRow_pos : 0 < Row.noRow := by decide

/-- A read of row 0 of the first bank. -/
def firstRead : DRAMPacket ddr3_1600_x64 :=
  .create 0 ⟨0, .readReq 0 64, false⟩ true
    ⟨⟨0, ddr3_1600_x64.ranks_pos⟩, ⟨0, ddr3_1600_x64_banks_pos⟩, ⟨0, noRow_pos⟩⟩ 0 64

/-- Of two such reads one is found. -/
theorem chooseNext_complete_reads :
    ∃ queue', (Channel.startup ddr3_1600_x64 0).chooseNext 1 [firstRead, firstRead] 0 = .ok (true, queue') := by
  obtain ⟨found, queue', hok, hfound, -, -⟩ :=
    chooseNext_complete (by decide) (Channel.startup ddr3_1600_x64 0) 1 [firstRead, firstRead] 0 (by decide)
  have htrue : found = true := hfound.mpr ⟨firstRead, List.mem_cons_self, rfl⟩
  exact ⟨queue', by rw [hok, htrue]⟩

end MimdramLean.Proofs

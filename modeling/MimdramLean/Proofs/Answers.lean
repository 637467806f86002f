import MimdramLean.Answering
import MimdramLean.Proofs.QueueInvariants

/-!
# Every accepted packet is answered once

First for the abstract model: the balance of answers is kept by each of its steps. Then every event of
the controller is a step of the model.
-/

namespace MimdramLean.Proofs
open Library DRAMCtrl Answering

/-! ### The balance -/

section Balance

variable {Q : Type} [DecidableEq Q] {bursts : Multiset (Q × Option Nat)} {q q' : Q} {h : Nat}

lemma openReads_eq_zero : openReads bursts q = 0 ↔ ∀ helper, (q, helper) ∉ bursts := by
  unfold openReads
  rw [Nat.add_eq_zero_iff, Multiset.count_eq_zero, Finset.card_eq_zero, Finset.filter_eq_empty_iff]
  constructor
  · rintro ⟨hnone, hsome⟩ helper hmem
    cases helper with
    | none => exact hnone hmem
    | some h => exact hsome (Multiset.mem_toFinset.mpr hmem) ⟨rfl, nofun⟩
  · intro hno
    refine ⟨hno none, ?_⟩
    rintro ⟨q', helper⟩ hmem ⟨rfl, -⟩
    exact hno helper (Multiset.mem_toFinset.mp hmem)

lemma openReads_cons_none : openReads ((q, none) ::ₘ bursts) q' = openReads bursts q' + if q = q' then 1 else 0 := by
  have hfilter : (((q, none) ::ₘ bursts).toFinset.filter fun x => x.1 = q' ∧ x.2 ≠ none) =
      bursts.toFinset.filter fun x => x.1 = q' ∧ x.2 ≠ none := by
    rw [Multiset.toFinset_cons, Finset.filter_insert, if_neg (by simp)]
  unfold openReads
  rw [hfilter, Multiset.count_cons]
  by_cases hq : q = q'
  · simp only [hq, if_true]
    omega
  · simp [hq, Ne.symm hq]

/-- A further burst of a split packet. -/
lemma openReads_cons_again (hmem : (q, some h) ∈ bursts) :
    openReads ((q, some h) ::ₘ bursts) q' = openReads bursts q' := by
  unfold openReads
  rw [Multiset.toFinset_cons, Finset.insert_eq_of_mem (Multiset.mem_toFinset.mpr hmem),
    Multiset.count_cons_of_ne (by simp)]

/-- The first burst of a split packet. -/
lemma openReads_cons_new (hnew : (q, some h) ∉ bursts) :
    openReads ((q, some h) ::ₘ bursts) q' = openReads bursts q' + if q = q' then 1 else 0 := by
  unfold openReads
  rw [Multiset.toFinset_cons, Multiset.count_cons_of_ne (by simp), Finset.filter_insert]
  by_cases hq : q = q'
  · rw [if_pos ⟨hq, nofun⟩, if_pos hq, Finset.card_insert_of_notMem, Nat.add_assoc]
    intro hmem
    exact hnew (Multiset.mem_toFinset.mp (Finset.mem_filter.mp hmem).1)
  · rw [if_neg (fun hc => hq hc.1), if_neg hq, Nat.add_zero]

lemma openReads_split (hnew : (q, some h) ∉ bursts) (n : Nat) :
    openReads (Multiset.replicate (n + 1) (q, some h) + bursts) q' =
      openReads bursts q' + if q = q' then 1 else 0 := by
  induction n with
  | zero =>
    rw [Multiset.replicate_one, Multiset.singleton_add]
    exact openReads_cons_new hnew
  | succ n ih =>
    rw [Multiset.replicate_succ, Multiset.cons_add, openReads_cons_again, ih]
    exact Multiset.mem_add.mpr (.inl (Multiset.mem_replicate.mpr ⟨by omega, rfl⟩))

omit [DecidableEq Q] in
/-- The bursts of a helper that is new. -/
lemma countP_split (hnew : ∀ q', (q', some h) ∉ bursts) (n h' : Nat) :
    (Multiset.replicate n (q, some h) + bursts).countP (fun x => x.2 = some h') =
      if h' = h then n else bursts.countP (fun x => x.2 = some h') := by
  rw [Multiset.countP_add, ← Multiset.coe_replicate, Multiset.coe_countP, List.countP_replicate]
  by_cases heq : h' = h
  · subst heq
    have hnone : bursts.countP (fun x => x.2 = some h') = 0 := by
      rw [Multiset.countP_eq_zero]
      rintro ⟨q', helper⟩ hx rfl
      exact hnew q' hx
    simp [hnone]
  · simp [heq, Ne.symm heq]

lemma countBurst_some {helpers : List BurstHelper} {b : BurstHelper} (hb : helpers[h]? = some b) :
    countBurst helpers (some h) =
      (helpers.modify h fun b => { b with burstsServiced := b.burstsServiced + 1 },
        b.burstsServiced + 1 == b.burstCount) := by
  simp [countBurst, hb]

variable {a a' : Answering Q} {accepted now : List Q}

/-- The helper of a burst counts the bursts that are not done. -/
lemma balanced_helper (hbal : Balanced a accepted) {rest : Multiset (Q × Option Nat)}
    (hb : a.bursts = (q, some h) ::ₘ rest) :
    ∃ b, a.helpers[h]? = some b ∧
      b.burstsServiced + (rest.countP (fun x => x.2 = some h) + 1) = b.burstCount := by
  have hlt : h < a.helpers.length := hbal.known q h (hb ▸ Multiset.mem_cons_self _ _)
  refine ⟨a.helpers[h], List.getElem?_eq_getElem hlt, ?_⟩
  have hserved := hbal.served h _ (List.getElem?_eq_getElem hlt)
  rw [hb, Multiset.countP_cons_of_pos] at hserved
  · exact hserved
  · rfl

/-- The last burst of a packet, and no other, brings its helper to the full count. -/
lemma balanced_last_iff (hbal : Balanced a accepted) {rest : Multiset (Q × Option Nat)}
    (hb : a.bursts = (q, some h) ::ₘ rest) :
    (countBurst a.helpers (some h)).2 = true ↔ (q, some h) ∉ rest := by
  obtain ⟨b, hhelper, hcount⟩ := balanced_helper hbal hb
  rw [countBurst_some hhelper, beq_iff_eq]
  constructor
  · intro hfull hmem
    have hpos : 0 < rest.countP (fun x => x.2 = some h) := Multiset.countP_pos.mpr ⟨_, hmem, rfl⟩
    omega
  · intro hnot
    have hzero : rest.countP (fun x => x.2 = some h) = 0 := by
      rw [Multiset.countP_eq_zero]
      rintro ⟨q', helper⟩ hmem rfl
      apply hnot
      rwa [hbal.owner q q' h (hb ▸ Multiset.mem_cons_self _ _) (hb ▸ Multiset.mem_cons_of_mem hmem)]
    omega

lemma balanced_done (hbal : Balanced a accepted) {helper : Option Nat} {rest : Multiset (Q × Option Nat)}
    (hb : a.bursts = (q, helper) ::ₘ rest) :
    Balanced ⟨rest, (countBurst a.helpers helper).1,
      if (countBurst a.helpers helper).2 then a.responded ++ [q] else a.responded⟩ accepted := by
  have hrest : ∀ x ∈ rest, x ∈ a.bursts := fun x hx => hb ▸ Multiset.mem_cons_of_mem hx
  have howner : ∀ q q' h, (q, some h) ∈ rest → (q', some h) ∈ rest → q = q' :=
    fun q q' h hq hq' => hbal.owner q q' h (hrest _ hq) (hrest _ hq')
  have hknown : ∀ q h, (q, some h) ∈ rest → h < a.helpers.length := fun q h hq => hbal.known q h (hrest _ hq)
  have hanswered := hbal.answered
  simp only [hb] at hanswered
  cases helper with
  | none =>
    refine ⟨hknown, howner, ?_, ?_⟩
    · intro h b hh
      have hserved := hbal.served h b hh
      rwa [hb, Multiset.countP_cons_of_neg _ (by simp)] at hserved
    · intro q'
      have hcount := hanswered q'
      rw [openReads_cons_none] at hcount
      simp only [countBurst, if_true, List.count_append, List.count_singleton, beq_iff_eq]
      omega
  | some h =>
    obtain ⟨b, hhelper, hcount⟩ := balanced_helper hbal hb
    have hlast := balanced_last_iff hbal hb
    refine ⟨?_, howner, ?_, ?_⟩
    · intro q' h' hq'
      rw [countBurst_some hhelper, List.length_modify]
      exact hknown q' h' hq'
    · intro h' b' hh'
      simp only [countBurst_some hhelper] at hh'
      by_cases heq : h = h'
      · subst heq
        rw [List.getElem?_modify_eq, hhelper] at hh'
        obtain rfl := Option.some.inj hh'
        simp only
        omega
      · rw [List.getElem?_modify_ne _ _ heq] at hh'
        have hserved := hbal.served h' b' hh'
        rwa [hb, Multiset.countP_cons_of_neg _ (by simpa using heq)] at hserved
    · intro q'
      have hcount' := hanswered q'
      by_cases hmem : (q, some h) ∈ rest
      · rw [openReads_cons_again hmem] at hcount'
        rwa [if_neg (fun hdone => hlast.mp hdone hmem)]
      · rw [openReads_cons_new hmem] at hcount'
        rw [if_pos (hlast.mpr hmem)]
        simp only [List.count_append, List.count_singleton, beq_iff_eq]
        omega

lemma balanced_split (hbal : Balanced a accepted) (q : Q) {count missed : Nat} (hpos : 0 < missed)
    (hle : missed ≤ count) :
    Balanced { a with
      bursts := Multiset.replicate missed (q, some a.helpers.length) + a.bursts
      helpers := a.helpers ++ [⟨count, count - missed⟩] } (accepted ++ [q]) := by
  have hnew : ∀ q', (q', some a.helpers.length) ∉ a.bursts := fun q' hq' => (hbal.known q' _ hq').false
  have hmem : ∀ q' h, (q', some h) ∈ Multiset.replicate missed (q, some a.helpers.length) + a.bursts →
      (q' = q ∧ h = a.helpers.length) ∨ (q', some h) ∈ a.bursts := by
    intro q' h hq'
    rcases Multiset.mem_add.mp hq' with hq' | hq'
    · have := Multiset.eq_of_mem_replicate hq'
      simp only [Prod.mk.injEq, Option.some.injEq] at this
      exact .inl this
    · exact .inr hq'
  refine ⟨?_, ?_, ?_, ?_⟩
  · intro q' h hq'
    rw [List.length_append, List.length_singleton]
    rcases hmem q' h hq' with ⟨-, rfl⟩ | hq'
    · omega
    · have := hbal.known q' h hq'
      omega
  · intro q₁ q₂ h hq₁ hq₂
    rcases hmem q₁ h hq₁ with ⟨hq, rfl⟩ | hold₁
    · rcases hmem q₂ _ hq₂ with ⟨hq', -⟩ | hold₂
      · rw [hq, hq']
      · exact absurd hold₂ (hnew q₂)
    · rcases hmem q₂ h hq₂ with ⟨-, rfl⟩ | hold₂
      · exact absurd hold₁ (hnew q₁)
      · exact hbal.owner q₁ q₂ h hold₁ hold₂
  · intro h b hh
    rw [countP_split hnew]
    by_cases hlt : h < a.helpers.length
    · rw [List.getElem?_append_left hlt] at hh
      rw [if_neg hlt.ne]
      exact hbal.served h b hh
    · rw [List.getElem?_append_right (by omega), List.getElem?_singleton] at hh
      split at hh
      · obtain rfl := Option.some.inj hh
        rw [if_pos (by omega)]
        exact Nat.sub_add_cancel hle
      · cases hh
  · intro q'
    obtain ⟨n, rfl⟩ : ∃ n, missed = n + 1 := ⟨missed - 1, by omega⟩
    have hcount := hbal.answered q'
    rw [openReads_split (hnew q)]
    simp only [List.count_append, List.count_singleton, beq_iff_eq]
    omega

theorem balanced_step (hbal : Balanced a accepted) (hstep : Step a now a') :
    Balanced a' (accepted ++ now) := by
  cases hstep with
  | idle => rwa [List.append_nil]
  | answer q =>
    refine ⟨hbal.known, hbal.owner, hbal.served, ?_⟩
    intro q'
    have hcount := hbal.answered q'
    simp only [List.count_append]
    omega
  | single q =>
    have hmem : ∀ q' h, (q', some h) ∈ (q, none) ::ₘ a.bursts → (q', some h) ∈ a.bursts := by
      intro q' h hq'
      simpa using hq'
    refine ⟨fun q' h hq' => hbal.known q' h (hmem q' h hq'),
      fun q₁ q₂ h hq₁ hq₂ => hbal.owner q₁ q₂ h (hmem q₁ h hq₁) (hmem q₂ h hq₂), ?_, ?_⟩
    · intro h b hh
      rw [Multiset.countP_cons_of_neg _ (by simp)]
      exact hbal.served h b hh
    · intro q'
      have hcount := hbal.answered q'
      rw [openReads_cons_none]
      simp only [List.count_append, List.count_singleton, beq_iff_eq]
      omega
  | split q hpos hle => exact balanced_split hbal q hpos hle
  | done hb =>
    rw [List.append_nil]
    exact balanced_done hbal hb

end Balance

/-! ### The controller -/

variable {p : Params}

/-- The packet of a burst and its burst helper. -/
def tag (d : DRAMPacket p) : Packet × Option Nat := (d.pkt, d.burstHelper)

def answering (s : DRAMCtrl p) : Answering Packet where
  bursts := ((s.readQueue ++ s.respQueue).map tag : List (Packet × Option Nat))
  helpers := s.burstHelpers
  responded := s.responded.map Prod.fst

/-- Inhibited packets and clean evictions are dropped. -/
def dropped (pkt : Packet) : Bool :=
  pkt.memInhibit || match pkt.kind with
    | .cleanEvict _ _ => true
    | _ => false

def accepts (s : DRAMCtrl p) (pkt : Packet) : Bool :=
  !dropped pkt && match s.recvTimingReq pkt with
    | .ok r => r.2
    | .error _ => false

def acceptedBy (s : DRAMCtrl p) : Event p → List Packet
  | .recvTimingReq pkt => if accepts s pkt then [pkt] else []
  | _ => []

/-- What is answered as soon as a packet is accepted: a write or row operation, and a read all of whose
bursts are in the write queue. -/
def answersNow (s : DRAMCtrl p) (pkt : Packet) : List (Packet × Nat) :=
  match pkt.kind with
  | .readReq _ _ =>
    if missedBursts s pkt (dramPktCount p pkt) pkt.getAddr = 0 then [(pkt, p.frontendLatency)] else []
  | .writeReq _ _ => [(pkt, p.frontendLatency)]
  | .rowOpReq _ => [(pkt, p.frontendLatency)]
  | .other _ _ => [(pkt, 1)]
  | .cleanEvict _ _ => []

/-- Two bursts into which one packet was split when it was accepted. -/
def SamePacket (d e : DRAMPacket p) : Prop := d.burstHelper ≠ none ∧ tag e = tag d

instance (d e : DRAMPacket p) : Decidable (SamePacket d e) := inferInstanceAs (Decidable (_ ∧ _))

/-- The calls of `accessAndRespond` during an event. -/
def answers (s : DRAMCtrl p) : Event p → List (Packet × Nat)
  | .recvTimingReq pkt => if accepts s pkt then answersNow s pkt else []
  | .respond =>
    match s.respQueue with
    | [] => []
    | d :: ds =>
      -- no burst of the packet is left in the queues
      if ∀ e ∈ s.readQueue ++ ds, ¬SamePacket d e then [(d.pkt, add64 p.frontendLatency p.backendLatency)] else []
  | _ => []

/-- `s'` is `s` after `now` has been accepted and `out` has been answered. -/
structure Replies (s s' : DRAMCtrl p) (now : List Packet) (out : List (Packet × Nat)) : Prop where
  step : Step (answering s) now (answering s')
  responded : s'.responded = s.responded ++ out

/-- Nothing is accepted and nothing is answered. -/
structure SameAnswers (s s' : DRAMCtrl p) : Prop where
  same : answering s' = answering s
  responded : s'.responded = s.responded

section Handlers

variable {s s' : DRAMCtrl p}

lemma SameAnswers.of_perm
    (hperm : ((s'.readQueue ++ s'.respQueue).map tag).Perm ((s.readQueue ++ s.respQueue).map tag))
    (hhelpers : s'.burstHelpers = s.burstHelpers) (hout : s'.responded = s.responded) : SameAnswers s s' := by
  refine ⟨?_, hout⟩
  simp only [answering, hhelpers, hout, Multiset.coe_eq_coe.mpr hperm]

lemma SameAnswers.of_eq (hread : s'.readQueue = s.readQueue) (hresp : s'.respQueue = s.respQueue)
    (hhelpers : s'.burstHelpers = s.burstHelpers) (hout : s'.responded = s.responded) : SameAnswers s s' :=
  .of_perm (by rw [hread, hresp]) hhelpers hout

lemma SameAnswers.trans {t : DRAMCtrl p} (h : SameAnswers s t) (h' : SameAnswers t s') : SameAnswers s s' :=
  ⟨h'.same.trans h.same, h'.responded.trans h.responded⟩

lemma SameAnswers.replies (h : SameAnswers s s') : Replies s s' [] [] := by
  refine ⟨?_, by rw [h.responded, List.append_nil]⟩
  rw [h.same]
  exact .idle _

lemma scheduleNextReq_same (s : DRAMCtrl p) (t : Nat) : SameAnswers s (s.scheduleNextReq t) := by
  obtain ⟨ev, heq⟩ := scheduleNextReq_eq s t
  rw [heq]
  exact ⟨rfl, rfl⟩

lemma Replies.trans_same {t : DRAMCtrl p} {now : List Packet} {out : List (Packet × Nat)}
    (h : Replies s t now out) (h' : SameAnswers t s') : Replies s s' now out :=
  ⟨h'.same ▸ h.step, h'.responded.trans h.responded⟩

lemma Replies.answer (pkt : Packet) (latency : Nat) (hread : s'.readQueue = s.readQueue)
    (hresp : s'.respQueue = s.respQueue) (hhelpers : s'.burstHelpers = s.burstHelpers)
    (hout : s'.responded = s.responded ++ [(pkt, latency)]) : Replies s s' [pkt] [(pkt, latency)] := by
  have heq : answering s' = { answering s with responded := (answering s).responded ++ [pkt] } := by
    simp only [answering, hread, hresp, hhelpers, hout, List.map_append, List.map_singleton]
  refine ⟨?_, hout⟩
  rw [heq]
  exact .answer _ pkt

/-! #### Requests -/

section Reads

variable {t : DRAMCtrl p} {pkt : Packet} {rs : List (DRAMPacket p)} (hread : t.readQueue = s.readQueue ++ rs)
  (hresp : t.respQueue = s.respQueue) (hout : t.responded = s.responded)
include hread hresp

lemma answering_bursts_append {helper : Option Nat} (htags : rs.map tag = List.replicate rs.length (pkt, helper)) :
    (answering t).bursts = Multiset.replicate rs.length (pkt, helper) + (answering s).bursts := by
  simp only [answering]
  rw [hread, hresp, ← Multiset.coe_replicate, Multiset.coe_add, Multiset.coe_eq_coe, ← htags,
    ← List.map_append]
  apply List.Perm.map
  rw [← List.append_assoc]
  exact List.perm_append_comm.append_right _

include hout

/-- A read of one burst is queued. -/
lemma Replies.single (hhelpers : t.burstHelpers = s.burstHelpers)
    (htags : rs.map tag = List.replicate rs.length (pkt, none)) (hone : rs.length = 1) :
    Replies s t [pkt] [] := by
  refine ⟨?_, by rw [hout, List.append_nil]⟩
  have hbursts := answering_bursts_append hread hresp htags
  rw [hone, Multiset.replicate_one, Multiset.singleton_add] at hbursts
  have heq : answering t = { answering s with bursts := (pkt, none) ::ₘ (answering s).bursts } := by
    rw [← hbursts]
    simp only [answering, hhelpers, hout]
  rw [heq]
  exact .single _ pkt

/-- The bursts of a split read that are not in the write queue are queued. -/
lemma Replies.split {n serviced : Nat} (hhelpers : t.burstHelpers = s.burstHelpers ++ [⟨n, 0⟩])
    (htags : rs.map tag = List.replicate rs.length (pkt, some s.burstHelpers.length)) (hpos : 0 < rs.length)
    (hlen : rs.length + serviced = n) :
    Replies s (t.setServiced (some s.burstHelpers.length) serviced) [pkt] [] := by
  refine ⟨?_, by simp only [setServiced, hout, List.append_nil]⟩
  have hbursts := answering_bursts_append hread hresp htags
  have hserviced : serviced = n - rs.length := by omega
  have heq : answering (t.setServiced (some s.burstHelpers.length) serviced) =
      { answering s with
        bursts := Multiset.replicate rs.length (pkt, some (answering s).helpers.length) + (answering s).bursts
        helpers := (answering s).helpers ++ [⟨n, n - rs.length⟩] } := by
    simp only [answering, setServiced, hhelpers, hout, hserviced] at hbursts ⊢
    rw [hbursts]
    congr 1
    simp [List.modify_eq_take_drop]
  rw [heq]
  exact .split _ pkt hpos (by omega)

end Reads

lemma addToReadQueue_replies {pkt : Packet} {n : Nat} (h : s.addToReadQueue pkt n = .ok s') :
    Replies s s' [pkt]
      (if missedBursts s pkt n pkt.getAddr = 0 then [(pkt, p.frontendLatency)] else []) := by
  obtain ⟨_, hn, h⟩ := bind_eq_ok.mp h
  obtain ⟨⟨t, helper, serviced⟩, hloop, h⟩ := bind_eq_ok.mp h
  obtain ⟨rs, ht, hmissed, hlen, hrs, hhelpers⟩ := addReadBursts_spec hloop
  simp only [ensure_eq_ok, Nat.add_zero] at hn ht hlen hrs hhelpers h
  have htags : rs.map tag = List.replicate rs.length (pkt, helper) := by
    rw [List.eq_replicate_iff, List.length_map]
    refine ⟨rfl, ?_⟩
    intro x hx
    obtain ⟨d, hd, rfl⟩ := List.mem_map.mp hx
    obtain ⟨-, hpkt, hhelper⟩ := hrs d hd
    rw [tag, hpkt, hhelper]
  have hread := congrArg DRAMCtrl.readQueue ht
  have hresp := congrArg DRAMCtrl.respQueue ht
  have hout := congrArg DRAMCtrl.responded ht
  simp only at hread hresp hout
  rw [← hmissed]
  by_cases hall : rs = []
  · -- every burst was found in the write queue
    subst hall
    rw [if_pos rfl, Prod.mk.injEq] at hhelpers
    rw [if_pos (by simpa using hlen)] at h
    cases h
    rw [List.length_nil, if_pos rfl]
    refine .answer pkt p.frontendLatency ?_ hresp hhelpers.1 ?_
    · rwa [List.append_nil] at hread
    · rw [accessAndRespond, hout]
  · have hpos : 0 < rs.length := List.length_pos_iff.mpr hall
    rw [if_neg hall] at hhelpers
    rw [if_neg (by omega)] at h
    cases h
    rw [if_neg hpos.ne']
    refine Replies.trans_same ?_ (scheduleNextReq_same _ _)
    by_cases hone : 1 < n
    · rw [withHelper, if_pos ⟨hone, rfl⟩, Prod.mk.injEq] at hhelpers
      obtain ⟨hh, rfl⟩ := hhelpers
      exact .split hread hresp hout hh htags hpos hlen
    · rw [withHelper, if_neg (fun hc => hone hc.1), Prod.mk.injEq] at hhelpers
      obtain ⟨hh, rfl⟩ := hhelpers
      exact .single hread hresp hout hh htags (by omega)

lemma addToWriteQueue_replies {pkt : Packet} {n : Nat} (h : s.addToWriteQueue pkt n = .ok s') :
    Replies s s' [pkt] [(pkt, p.frontendLatency)] := by
  obtain ⟨t, hpush, h⟩ := bind_eq_ok.mp h
  have hframe : t.readQueue = s.readQueue ∧ t.respQueue = s.respQueue ∧ t.burstHelpers = s.burstHelpers ∧
      t.responded = s.responded := by
    unfold addWritePackets at hpush
    split at hpush
    · obtain ⟨d, -, hpush⟩ := bind_eq_ok.mp hpush
      cases hpush
      exact ⟨rfl, rfl, rfl, rfl⟩
    · obtain ⟨ws, rfl, -⟩ := addWriteBursts_spec hpush
      exact ⟨rfl, rfl, rfl, rfl⟩
  obtain ⟨hread, hresp, hhelpers, hout⟩ := hframe
  cases h
  refine Replies.trans_same ?_ (scheduleNextReq_same _ _)
  refine .answer pkt p.frontendLatency hread hresp hhelpers ?_
  rw [accessAndRespond, hout]

lemma recvTimingReq_replies {pkt : Packet} {r : DRAMCtrl p × Bool} (h : s.recvTimingReq pkt = .ok r) :
    Replies s r.1 (if accepts s pkt then [pkt] else []) (if accepts s pkt then answersNow s pkt else []) := by
  have hacc : accepts s pkt = (!dropped pkt && r.2) := by simp only [accepts, h]
  rw [hacc]
  cases recvTimingReq_cases h with
  | dropped hdropped =>
    have hd : dropped pkt = true := by
      rcases hdropped with hin | ⟨addr, size, hkind⟩
      · simp [dropped, hin]
      · simp [dropped, hkind]
    rw [hd]
    exact SameAnswers.replies ⟨rfl, rfl⟩
  | other hin hkind =>
    simp only [dropped, answersNow, hin, hkind]
    exact .answer pkt 1 rfl rfl rfl rfl
  | refuseRead =>
    rw [Bool.and_false]
    exact SameAnswers.replies ⟨rfl, rfl⟩
  | read hin hkind hadd =>
    simp only [dropped, answersNow, hin, hkind]
    exact addToReadQueue_replies hadd
  | refuseWrite =>
    rw [Bool.and_false]
    exact SameAnswers.replies ⟨rfl, rfl⟩
  | write hin hkind hroom hadd =>
    rcases hkind with ⟨addr, size, hkind⟩ | ⟨addrs, hkind⟩
    · simp only [dropped, answersNow, hin, hkind]
      exact addToWriteQueue_replies hadd
    · simp only [dropped, answersNow, hin, hkind]
      exact addToWriteQueue_replies hadd

/-! #### The request loop and the responses -/

lemma serveRead_same {switched : Bool} {pre post : List (DRAMPacket p)} {d : DRAMPacket p}
    (hread : s.readQueue = pre ++ d :: post) (h : s.serveRead switched d (pre ++ post) = .ok s') :
    SameAnswers s s' := by
  obtain ⟨served, channel, t, bus, hacc, -, rfl⟩ := serveRead_cases h
  obtain ⟨ready, rfl⟩ := doDRAMAccess_packet hacc
  have hperm : ((pre ++ post ++ (s.respQueue ++ [{ d with readyTime := ready }])).map tag).Perm
      ((s.readQueue ++ s.respQueue).map tag) := by
    have htag : tag { d with readyTime := ready } = tag d := rfl
    simp only [hread, List.map_append, List.map_cons, List.map_nil, htag]
    rw [← List.append_assoc]
    exact List.perm_append_comm.trans (List.perm_middle.symm.append_right _)
  exact .of_perm hperm rfl rfl

lemma serveRequest_same {switched : Bool} {r : DRAMCtrl p × Bool} (h : s.serveRequest switched = .ok r) :
    SameAnswers s r.1 := by
  unfold serveRequest at h
  split at h
  · rcases readBranch_cases h with ⟨-, -, rfl⟩ | ⟨-, -, ds, rfl⟩ | ⟨-, rfl, -⟩ | ⟨pre, d, post, t, hread, ht, rfl⟩
    · exact ⟨rfl, rfl⟩
    · exact ⟨rfl, rfl⟩
    · exact ⟨rfl, rfl⟩
    · exact serveRead_same hread ht
  · rcases writeBranch_cases h with ⟨-, rfl, -⟩ | ⟨pre, d, post, t, -, -, ht, rfl⟩
    · exact ⟨rfl, rfl⟩
    · obtain ⟨_, -, ht⟩ := bind_eq_ok.mp ht
      obtain ⟨_, -, ht⟩ := bind_eq_ok.mp ht
      obtain ⟨_, -, ht⟩ := bind_eq_ok.mp ht
      cases ht
      simp only
      split
      · exact ⟨rfl, rfl⟩
      · exact ⟨rfl, rfl⟩

lemma finishNextReq_same (s : DRAMCtrl p) : SameAnswers s s.finishNextReq := by
  have hsched := scheduleNextReq_same s (max s.channel.nextReqTime s.curTick)
  simp only [finishNextReq]
  split
  · exact ⟨hsched.same, hsched.responded⟩
  · exact hsched

lemma processNextReqEvent_same (h : s.processNextReqEvent = .ok s') : SameAnswers s s' := by
  have hswitch : SameAnswers s s.checkDrains.switchBus.1 := by
    unfold switchBus
    split <;> exact ⟨rfl, rfl⟩
  simp only [processNextReqEvent] at h
  split at h
  · cases h
    exact ⟨rfl, rfl⟩
  · obtain ⟨⟨t, goesOn⟩, hserve, h⟩ := bind_eq_ok.mp h
    have ht := hswitch.trans (serveRequest_same hserve)
    cases h
    split
    · exact ht.trans (finishNextReq_same t)
    · exact ht

lemma nextResponse_same (h : s.nextResponse = .ok s') : SameAnswers s s' := by
  unfold nextResponse at h
  split at h
  · obtain ⟨_, -, h⟩ := bind_eq_ok.mp h
    cases h
    exact ⟨rfl, rfl⟩
  · cases h
    unfold signalDrainDone
    split
    · split <;> exact ⟨rfl, rfl⟩
    · exact ⟨rfl, rfl⟩

lemma answering_bursts_cons {d : DRAMPacket p} {ds : List (DRAMPacket p)} (hresp : s.respQueue = d :: ds) :
    (answering s).bursts = tag d ::ₘ (((s.readQueue ++ ds).map tag : List (Packet × Option Nat)) : Multiset _) := by
  rw [answering, hresp, Multiset.cons_coe, Multiset.coe_eq_coe, ← List.map_cons]
  exact List.perm_middle.map tag

/-- A packet is complete when the last of its bursts is done. -/
lemma complete_iff {acc : List Packet} {d : DRAMPacket p} {ds : List (DRAMPacket p)}
    (hbal : Balanced (answering s) acc) (hresp : s.respQueue = d :: ds) :
    (countBurst s.burstHelpers d.burstHelper).2 = true ↔ ∀ e ∈ s.readQueue ++ ds, ¬SamePacket d e := by
  have hb := answering_bursts_cons hresp
  cases hhelper : d.burstHelper with
  | none => simp [countBurst, SamePacket, hhelper]
  | some h =>
    rw [tag, hhelper] at hb
    rw [show s.burstHelpers = (answering s).helpers from rfl, balanced_last_iff hbal hb, Multiset.mem_coe,
      List.mem_map]
    simp only [SamePacket, tag, hhelper, not_exists, not_and, ne_eq, reduceCtorEq, not_false_eq_true,
      true_implies]

lemma processRespondEvent_replies {acc : List Packet} (hbal : Balanced (answering s) acc)
    (h : s.processRespondEvent = .ok s') : Replies s s' [] (answers s .respond) := by
  unfold processRespondEvent at h
  split at h
  · cases h
  · rename_i d ds hresp
    obtain ⟨t, hnext, h⟩ := bind_eq_ok.mp h
    cases h
    have hdone := Step.done (answering s) (answering_bursts_cons hresp)
    have hcomplete := complete_iff hbal hresp
    have hsent : Replies s { s.sendResponse d with respQueue := ds } [] (answers s .respond) := by
      have hanswers : answers s .respond = if (countBurst s.burstHelpers d.burstHelper).2 then
          [(d.pkt, add64 p.frontendLatency p.backendLatency)] else [] := by
        simp only [answers, hresp, hcomplete]
      rw [hanswers]
      by_cases hlast : (countBurst s.burstHelpers d.burstHelper).2 = true
      · refine ⟨?_, by simp [sendResponse, hlast, accessAndRespond]⟩
        simpa [answering, sendResponse, hlast, accessAndRespond] using hdone
      · refine ⟨?_, by simp [sendResponse, hlast]⟩
        simpa [answering, sendResponse, hlast] using hdone
    have hsame : SameAnswers { s.sendResponse d with respQueue := ds } { t with retryRdReq := false } :=
      (nextResponse_same hnext).trans ⟨rfl, rfl⟩
    exact hsent.trans_same hsame

/-! #### Every event -/

lemma setRank_same (s : DRAMCtrl p) (r : Fin p.ranksPerChannel) (rk : Rank p) : SameAnswers s (s.setRank r rk) :=
  ⟨rfl, rfl⟩

lemma drain_same (s : DRAMCtrl p) : SameAnswers s s.drain := by
  simp only [drain]
  split
  · exact ⟨rfl, rfl⟩
  · split
    · have hsame : SameAnswers s { s with drainState := .draining } := ⟨rfl, rfl⟩
      exact hsame.trans (scheduleNextReq_same _ _)
    · exact ⟨rfl, rfl⟩

/-- Every event is a step of the abstract model. -/
theorem handle_replies {acc : List Packet} {e : Event p} (hbal : Balanced (answering s) acc)
    (h : s.handle e = .ok s') : Replies s s' (acceptedBy s e) (answers s e) := by
  cases handle_cases h with
  | recvTimingReq hr => exact recvTimingReq_replies hr
  | nextReq h =>
    have hsame := processNextReqEvent_same h
    exact SameAnswers.replies ⟨hsame.same, hsame.responded⟩
  | respond h =>
    have hreplies := processRespondEvent_replies (s := { s with respondEvent := none }) hbal h
    exact ⟨hreplies.step, hreplies.responded⟩
  | activate _ => exact (setRank_same s _ _).replies
  | precharge _ => exact (setRank_same s _ _).replies
  | refresh _ => exact (setRank_same s _ _).replies
  | @power r rk kick _ =>
    apply SameAnswers.replies
    split
    · exact (setRank_same s r rk).trans (scheduleNextReq_same _ _)
    · exact setRank_same s r rk
  | drain => exact (drain_same s).replies
  | drainResume => exact SameAnswers.replies ⟨rfl, rfl⟩

end Handlers

/-! ### Runs -/

/-- The packets that a run accepts. -/
def accepted (s : DRAMCtrl p) : List (Nat × Event p) → List Packet
  | [] => []
  | e :: es =>
    acceptedBy { s with curTick := e.1 } e.2 ++
      match s.step e with
      | .ok t => accepted t es
      | .error _ => []

lemma run_balanced {s t : DRAMCtrl p} {acc : List Packet} {es : List (Nat × Event p)}
    (hbal : Balanced (answering s) acc) (h : runFrom step s es = .ok t) :
    Balanced (answering t) (acc ++ accepted s es) := by
  induction es generalizing s acc with
  | nil =>
    cases h
    rwa [accepted, List.append_nil]
  | cons e es ih =>
    obtain ⟨s', he, hrest⟩ := bind_eq_ok.mp h
    obtain ⟨-, hh⟩ := step_eq_ok.mp he
    have hstep := (handle_replies (s := { s with curTick := e.1 }) hbal hh).step
    rw [accepted, he, ← List.append_assoc]
    exact ih (balanced_step hbal hstep) hrest

lemma balanced_startup (p : Params) (now : Nat) : Balanced (answering (startup p now)) [] := by
  refine ⟨?_, ?_, ?_, ?_⟩ <;> simp [answering, startup, openReads]

/-- Every accepted packet is answered once. As often as a packet has been accepted it has been
answered, unless bursts of it are still in the queues; no burst helper counts too far; and the answers
are given when `answers` says: to a write or row operation when it is accepted, to a read when it is
accepted if the write queue serves all its bursts, and otherwise when the last of its bursts leaves
the response queue. -/
theorem accepted_packets_answered_once {now : Nat} {es : List (Nat × Event p)} {s : DRAMCtrl p}
    (hrun : run p now es = .ok s) :
    (∀ q, (s.responded.map Prod.fst).count q ≤ (accepted (startup p now) es).count q ∧
      ((s.responded.map Prod.fst).count q = (accepted (startup p now) es).count q ↔
        ∀ d ∈ s.readQueue ++ s.respQueue, d.pkt ≠ q)) ∧
    (∀ b ∈ s.burstHelpers, b.burstsServiced ≤ b.burstCount) ∧
    ∀ e t, s.step e = .ok t → t.responded = s.responded ++ answers { s with curTick := e.1 } e.2 := by
  have hbal := run_balanced (balanced_startup p now) hrun
  rw [List.nil_append] at hbal
  refine ⟨?_, ?_, ?_⟩
  · intro q
    have hcount : (s.responded.map Prod.fst).count q + openReads (answering s).bursts q =
        (accepted (startup p now) es).count q := hbal.answered q
    refine ⟨by omega, ?_⟩
    have hzero : (s.responded.map Prod.fst).count q = (accepted (startup p now) es).count q ↔
        openReads (answering s).bursts q = 0 := by omega
    rw [hzero, openReads_eq_zero]
    constructor
    · intro hno d hd hq
      exact hno d.burstHelper (List.mem_map.mpr ⟨d, hd, by rw [tag, hq]⟩)
    · intro hno helper hmem
      obtain ⟨d, hd, htag⟩ := List.mem_map.mp (Multiset.mem_coe.mp hmem)
      exact hno d hd (Prod.mk.inj htag).1
  · intro b hb
    obtain ⟨h, hh⟩ := List.mem_iff_getElem?.mp hb
    have hserved := hbal.served h b hh
    omega
  · intro e t he
    obtain ⟨-, hh⟩ := step_eq_ok.mp he
    exact (handle_replies (s := { s with curTick := e.1 }) hbal hh).responded

/-- A read of three bursts, the first of which is in the write queue, up to its last response. -/
def readOfThreeBursts : List (Nat × Event ddr3_1600_x64) :=
  [(1, .recvTimingReq ⟨0, .writeReq 0 64, false⟩), (1, .recvTimingReq ⟨1, .readReq 0 192, false⟩),
    (1, .nextReq), (5000, .nextReq), (46250, .respond), (51250, .respond)]

theorem accepted_packets_answered_once_readOfThreeBursts :
    ∃ s, run ddr3_1600_x64 0 readOfThreeBursts = .ok s ∧ s.readQueue ++ s.respQueue = [] ∧
      (s.responded.map Prod.fst).count ⟨1, .readReq 0 192, false⟩ =
        (accepted (startup ddr3_1600_x64 0) readOfThreeBursts).count ⟨1, .readReq 0 192, false⟩ := by
  obtain ⟨s, hrun, hs⟩ := exists_of_okWith (x := run ddr3_1600_x64 0 readOfThreeBursts)
    (P := fun s => (s.readQueue ++ s.respQueue).isEmpty) (by decide +kernel)
  have hempty : s.readQueue ++ s.respQueue = [] := List.isEmpty_iff.mp hs
  refine ⟨s, hrun, hempty, ?_⟩
  exact ((accepted_packets_answered_once hrun).1 _).2.mpr (by simp [hempty])

end MimdramLean.Proofs

import MimdramLean.Translation
import Mathlib.Data.Finset.Card

/-!
# Faults and addresses of a row operation's translation

The operands' translations may finish in any order. `Answered` describes the translation state
after some of them have; the last one turns it into a finished state, whose fault is that of the
destination alone.
-/

namespace MimdramLean.Proofs
open Library WholeTranslationState

variable {F : Type}

/-- The operands that a row operation uses. -/
def used (op : RowOp) : Finset Operand := Finset.univ.filter fun o => op.uses o = true

lemma mem_used {op : RowOp} {o : Operand} : o ∈ used op ↔ op.uses o = true := by simp [used]

lemma index_injective : Function.Injective Operand.index := by
  intro o o' h
  cases o <;> cases o' <;> simp_all [Operand.index]

@[simp] lemma get_set_self (addrs : RowOpPayload) (o : Operand) (a : Nat) : (addrs.set o a).get o = a := by
  cases o <;> rfl

@[simp] lemma get_set_of_ne (addrs : RowOpPayload) {o o' : Operand} (a : Nat) (h : o' ≠ o) :
    (addrs.set o a).get o' = addrs.get o' := by
  cases o <;> cases o' <;> first | rfl | exact absurd rfl h

/-- The answers to the requests for the operands of `virt`. -/
def tlbAnswers (tlb : Operand → Nat → Answer F) (virt : RowOpPayload) (o : Operand) : Answer F := tlb o (virt.get o)

/-- The translation state of a row operation on `virt` after the answers for `done`. -/
structure Answered (virt : RowOpPayload) (answer : Operand → Answer F) (done : Finset Operand)
    (st : WholeTranslationState F) : Prop where
  notSplit : st.isSplit = false
  rowOp : st.isRowOp = true
  outstanding : st.outstanding = (used virt.op \ done).card
  faults : ∀ o, st.faults o.index = if o ∈ done then faultOf (answer o) else none
  unused : ∀ o, virt.op.uses o = false → st.sreq o = none
  waiting : ∀ o, virt.op.uses o = true → ∃ req, st.sreq o = some req ∧ req.vaddr = virt.get o
  paddr : ∀ o ∈ done, ∀ req pa flags, st.sreq o = some req → answer o = .ok (pa, flags) →
    req.paddr = some pa
  data : st.data = virt

lemma answered_ofRowOp (req : Request) (virt : RowOpPayload) (answer : Operand → Answer F) :
    Answered virt answer ∅ (ofRowOp req (req.splitRowOp virt) virt) where
  notSplit := rfl
  rowOp := rfl
  outstanding := by
    obtain ⟨op, dest, src1, src2⟩ := virt
    cases op <;> rfl
  faults := fun o => by simp [ofRowOp]
  unused := fun o ho => by simp [ofRowOp, Request.splitRowOp, ho]
  waiting := fun o ho => by simp [ofRowOp, Request.splitRowOp, ho]
  paddr := fun o ho => absurd ho (Finset.notMem_empty o)
  data := rfl

/-- What the translation leaves in the payload. -/
def physical (virt : RowOpPayload) (answer : Operand → Answer F) (o : Operand) : Nat :=
  match answer o with
  | .ok (pa, _) => pa
  | .error _ => virt.get o

/-- A translation state after all answers. -/
structure Finished (virt : RowOpPayload) (answer : Operand → Answer F) (st : WholeTranslationState F) :
    Prop where
  notSplit : st.isSplit = false
  outstanding : st.outstanding = 0
  fault : st.getFault = faultOf (answer .dest)
  op : st.data.op = virt.op
  data : ∀ o, virt.op.uses o = true → st.data.get o = physical virt answer o

/-! ### The last answer -/

/-- The requests and faults once every used operand has its answer. -/
structure AllAnswered (virt : RowOpPayload) (answer : Operand → Answer F) (sreq : Operand → Option Request)
    (faults : Fin 3 → Option F) : Prop where
  faults : ∀ o, virt.op.uses o = true → faults o.index = faultOf (answer o)
  unused : ∀ o, virt.op.uses o = false → sreq o = none
  paddr : ∀ o, virt.op.uses o = true → ∃ req, sreq o = some req ∧
    ∀ pa flags, answer o = .ok (pa, flags) → req.paddr = some pa

lemma copyOperand_spec {virt : RowOpPayload} {answer : Operand → Answer F} (st : WholeTranslationState F)
    (h : AllAnswered virt answer st.sreq st.faults) {o : Operand} (hdata : st.data.get o = virt.get o) :
    ∃ data m, st.copyOperand o = .ok { st with data := data, mainReq := m } ∧ data.op = st.data.op ∧
      (virt.op.uses o = true → data.get o = physical virt answer o) ∧
      ∀ o', o' ≠ o → data.get o' = st.data.get o' := by
  cases huse : virt.op.uses o with
  | false =>
    refine ⟨st.data, st.mainReq, ?_, rfl, nofun, fun _ _ => rfl⟩
    simp only [copyOperand, h.unused o huse]
  | true =>
    obtain ⟨req, hreq, hpaddr⟩ := h.paddr o huse
    have hfault := h.faults o huse
    cases hans : answer o with
    | ok a =>
      obtain ⟨pa, flags⟩ := a
      rw [hans] at hfault
      refine ⟨st.data.set o pa, st.mainReq.setFlags req.flags, ?_, by cases o <;> rfl, fun _ => ?_,
        fun o' hne => get_set_of_ne _ _ hne⟩
      · simp only [copyOperand, hreq, hfault, faultOf, Option.isNone_none, if_true, Request.getPaddr,
          hpaddr pa flags hans, ok_bind]
      · simp only [get_set_self, physical, hans]
    | error f =>
      rw [hans] at hfault
      refine ⟨st.data, st.mainReq.setFlags req.flags, ?_, rfl, fun _ => ?_, fun _ _ => rfl⟩
      · simp only [copyOperand, hreq, hfault, faultOf, Option.isNone_some, if_false, Bool.false_eq_true]
      · simp only [hdata, physical, hans]

lemma copyRowOp_spec {virt : RowOpPayload} {answer : Operand → Answer F} {st : WholeTranslationState F}
    (h : AllAnswered virt answer st.sreq st.faults) (hdata : st.data = virt) :
    ∃ data m, st.copyRowOp = .ok { st with data := data, mainReq := m } ∧ data.op = virt.op ∧
      ∀ o, virt.op.uses o = true → data.get o = physical virt answer o := by
  obtain ⟨d₀, m₀, h₀, hop₀, hget₀, hne₀⟩ := copyOperand_spec st h (o := .dest) (by rw [hdata])
  obtain ⟨d₁, m₁, h₁, hop₁, hget₁, hne₁⟩ := copyOperand_spec { st with data := d₀, mainReq := m₀ } h
    (o := .src1) (by rw [← hdata]; exact hne₀ .src1 (by decide))
  obtain ⟨d₂, m₂, h₂, hop₂, hget₂, hne₂⟩ := copyOperand_spec { st with data := d₁, mainReq := m₁ } h
    (o := .src2) (by rw [← hdata]; exact (hne₁ .src2 (by decide)).trans (hne₀ .src2 (by decide)))
  simp only at hop₁ hop₂ hne₁ hne₂
  refine ⟨d₂, { m₂ with paddr := some 0 }, ?_, ?_, fun o ho => ?_⟩
  · exact bind_eq_ok.mpr ⟨_, h₀, bind_eq_ok.mpr ⟨_, h₁, bind_eq_ok.mpr ⟨_, h₂, rfl⟩⟩⟩
  · rw [hop₂, hop₁, hop₀, hdata]
  · cases o with
    | dest => rw [hne₂ .dest (by decide), hne₁ .dest (by decide), hget₀ ho]
    | src1 => rw [hne₂ .src1 (by decide), hget₁ ho]
    | src2 => exact hget₂ ho

/-! ### One answer -/

lemma translated_vaddr (req : Request) (a : Answer F) : (translated req a).vaddr = req.vaddr := by
  cases a <;> rfl

section Answer

variable {virt : RowOpPayload} {answer : Operand → Answer F} {done : Finset Operand}
  {st : WholeTranslationState F} {o : Operand}

/-- The state with the answer for `o` noted, before anything is copied. -/
lemma Answered.noted (h : Answered virt answer done st) (hnew : o ∉ done) (huse : virt.op.uses o = true)
    {req : Request} (hreq : st.sreq o = some req) (hvaddr : req.vaddr = virt.get o) :
    Answered virt answer (insert o done)
      ((st.setRequest o (translated req (answer o))).note (faultOf (answer o)) o.index) where
  notSplit := h.notSplit
  rowOp := h.rowOp
  outstanding := by
    have hmem : o ∈ used virt.op \ done := Finset.mem_sdiff.mpr ⟨mem_used.mpr huse, hnew⟩
    simp only [note, setRequest, h.outstanding, Finset.sdiff_insert, Finset.card_erase_of_mem hmem]
  faults := fun o' => by
    by_cases ho : o' = o
    · subst ho
      simp [note]
    · simp only [note, setRequest, Function.update_of_ne (index_injective.ne ho), h.faults, Finset.mem_insert, ho, false_or]
  unused := fun o' ho' => by
    have hne : o' ≠ o := by
      rintro rfl
      simp [huse] at ho'
    simp only [note, setRequest, Function.update_of_ne hne]
    exact h.unused o' ho'
  waiting := fun o' ho' => by
    by_cases ho : o' = o
    · subst ho
      exact ⟨_, Function.update_self _ _ _, (translated_vaddr req _).trans hvaddr⟩
    · simp only [note, setRequest, Function.update_of_ne ho]
      exact h.waiting o' ho'
  paddr := fun o' ho' req' pa flags hreq' hans => by
    by_cases ho : o' = o
    · subst ho
      simp only [note, setRequest, Function.update_self] at hreq'
      cases hreq'
      simp only [translated, hans]
    · simp only [note, setRequest, Function.update_of_ne ho] at hreq'
      exact h.paddr o' ((Finset.mem_insert.mp ho').resolve_left ho) req' pa flags hreq' hans
  data := h.data

lemma Answered.allAnswered (h : Answered virt answer done st) (hall : used virt.op ⊆ done) :
    AllAnswered virt answer st.sreq st.faults where
  faults := fun o ho => by rw [h.faults, if_pos (hall (mem_used.mpr ho))]
  unused := h.unused
  paddr := fun o ho => by
    obtain ⟨req, hreq, _⟩ := h.waiting o ho
    exact ⟨req, hreq, fun pa flags => h.paddr o (hall (mem_used.mpr ho)) req pa flags hreq⟩

lemma Answered.outstanding_eq_zero (h : Answered virt answer done st) :
    st.outstanding = 0 ↔ used virt.op ⊆ done := by
  rw [h.outstanding, Finset.card_eq_zero, Finset.sdiff_eq_empty_iff_subset]

lemma Answered.outstanding_ne_zero (h : Answered virt answer done st) (hnew : o ∉ done)
    (huse : virt.op.uses o = true) : st.outstanding ≠ 0 := fun hzero =>
  hnew (h.outstanding_eq_zero.mp hzero (mem_used.mpr huse))

/-- The TLB looks up the operand itself. -/
lemma answer_eq {req : Request} (hreq : st.sreq o = some req) (hvaddr : req.vaddr = virt.get o)
    (tlb : Operand → Nat → Answer F) :
    st.answer o (tlb o) =
      (st.setRequest o (translated req (tlbAnswers tlb virt o))).finish (faultOf (tlbAnswers tlb virt o)) o.index := by
  simp only [WholeTranslationState.answer, hreq, hvaddr, tlbAnswers]

variable {tlb : Operand → Nat → Answer F}

/-- Any answer but the last is noted. -/
lemma Answered.answer_more (h : Answered virt (tlbAnswers tlb virt) done st) (hnew : o ∉ done)
    (huse : virt.op.uses o = true) (hmore : ¬ used virt.op ⊆ insert o done) :
    ∃ st', st.answer o (tlb o) = .ok (st', false) ∧ Answered virt (tlbAnswers tlb virt) (insert o done) st' := by
  obtain ⟨req, hreq, hvaddr⟩ := h.waiting o huse
  have hnote := h.noted hnew huse hreq hvaddr
  have hleft := fun hzero => hmore (hnote.outstanding_eq_zero.mp hzero)
  refine ⟨_, ?_, hnote⟩
  rw [answer_eq hreq hvaddr]
  refine bind_eq_ok.mpr ⟨(), ensure_eq_ok.mpr (h.outstanding_ne_zero hnew huse),
    bind_eq_ok.mpr ⟨_, if_neg fun hs => hleft hs.2, bind_eq_ok.mpr ⟨_, if_neg fun hr => hleft hr.2, ?_⟩⟩⟩
  rw [beq_false_of_ne hleft]

/-- The last answer finishes the translation. -/
lemma Answered.answer_last (h : Answered virt (tlbAnswers tlb virt) done st) (hnew : o ∉ done)
    (huse : virt.op.uses o = true) (hlast : used virt.op ⊆ insert o done) :
    ∃ st', st.answer o (tlb o) = .ok (st', true) ∧ Finished virt (tlbAnswers tlb virt) st' := by
  obtain ⟨req, hreq, hvaddr⟩ := h.waiting o huse
  have hnote := h.noted hnew huse hreq hvaddr
  set noted := (st.setRequest o (translated req (tlbAnswers tlb virt o))).note
    (faultOf (tlbAnswers tlb virt o)) o.index with hnoted
  have hzero : noted.outstanding = 0 := hnote.outstanding_eq_zero.mpr hlast
  have hsplit : ¬ (noted.isSplit = true ∧ noted.outstanding = 0) := by simp [hnote.notSplit]
  have hall := hnote.allAnswered hlast
  obtain ⟨data, m, hcopy, hop, hget⟩ := copyRowOp_spec hall hnote.data
  refine ⟨{ noted with data := data, mainReq := m }, ?_, hnote.notSplit, hzero, ?_, hop, hget⟩
  · rw [answer_eq hreq hvaddr]
    refine bind_eq_ok.mpr ⟨(), ensure_eq_ok.mpr (h.outstanding_ne_zero hnew huse),
      bind_eq_ok.mpr ⟨noted, if_neg hsplit,
        bind_eq_ok.mpr ⟨_, (if_pos ⟨hnote.rowOp, hzero⟩).trans hcopy, ?_⟩⟩⟩
    simp only [hzero, beq_self_eq_true]
  · have hfault := hall.faults .dest rfl
    simp only [getFault, hnote.notSplit, Bool.not_false, if_true]
    exact hfault

end Answer

/-! ### All answers, in any order -/

/-- The TLB answers for the operands of a list, one after the other. -/
def answerAll (tlb : Operand → Nat → Answer F) (st : WholeTranslationState F) (os : List Operand) :
    Except TranslationFailure (WholeTranslationState F) :=
  runFrom (fun st o => (st.answer o (tlb o)).map Prod.fst) st os

lemma answerAll_cons {tlb : Operand → Nat → Answer F} {st st' : WholeTranslationState F} {o : Operand}
    {os : List Operand} {b : Bool} (h : st.answer o (tlb o) = .ok (st', b)) :
    answerAll tlb st (o :: os) = answerAll tlb st' os := by
  simp only [answerAll, runFrom, h]
  rfl

/-- Whatever the order, the translation finishes. -/
lemma answerAll_finished {virt : RowOpPayload} {tlb : Operand → Nat → Answer F} (os : List Operand)
    {done : Finset Operand} {st : WholeTranslationState F} (h : Answered virt (tlbAnswers tlb virt) done st)
    (hnodup : os.Nodup) (hnew : ∀ o ∈ os, virt.op.uses o = true ∧ o ∉ done)
    (hall : used virt.op ⊆ done ∪ os.toFinset) (hne : os ≠ []) :
    ∃ st', answerAll tlb st os = .ok st' ∧ Finished virt (tlbAnswers tlb virt) st' := by
  induction os generalizing done st with
  | nil => exact absurd rfl hne
  | cons o os ih =>
    obtain ⟨huse, hfresh⟩ := hnew o (by simp)
    obtain ⟨hnotin, hnodup⟩ := List.nodup_cons.mp hnodup
    cases os with
    | nil =>
      have hlast : used virt.op ⊆ insert o done := by simpa [Finset.union_comm] using hall
      obtain ⟨st', hans, hfin⟩ := h.answer_last hfresh huse hlast
      exact ⟨st', (answerAll_cons hans).trans rfl, hfin⟩
    | cons o' os =>
      have hmore : ¬ used virt.op ⊆ insert o done := by
        intro hsub
        have hmem := hsub (mem_used.mpr (hnew o' (by simp)).1)
        rcases Finset.mem_insert.mp hmem with rfl | hdone
        · simp at hnotin
        · exact (hnew o' (by simp)).2 hdone
      obtain ⟨st', hans, hst'⟩ := h.answer_more hfresh huse hmore
      obtain ⟨fin, hfin, hfinished⟩ := ih hst' hnodup
        (fun x hx => ⟨(hnew x (by simp [hx])).1, by
          rw [Finset.mem_insert, not_or]
          exact ⟨fun hxo => hnotin (hxo ▸ hx), (hnew x (by simp [hx])).2⟩⟩)
        (by rwa [List.toFinset_cons, Finset.union_insert, ← Finset.insert_union] at hall) (by simp)
      exact ⟨fin, (answerAll_cons hans).trans hfin, hfinished⟩

/-- The TLB translates every operand that the operation uses. -/
def AllTranslated (op : RowOp) (answer : Operand → Answer F) : Prop :=
  ∀ o, op.uses o = true → ∃ a, answer o = .ok a

/-- What is sent on is the payload of the translation state, and only without a fault. -/
lemma forwarded_eq {st : WholeTranslationState F} {req : Request} {size : Nat} {payload : RowOpPayload}
    (h : TimingSimpleCPU.finishTranslation st = .sendData payload ∨
      (((DynInst.fetched F).finishTranslation st).finishWrite req st.data size).written = some payload) :
    st.getFault = none ∧ st.data = payload := by
  rcases h with h | h
  · unfold TimingSimpleCPU.finishTranslation at h
    cases hfault : st.getFault with
    | some fault => simp [hfault] at h
    | none =>
      cases hsplit : st.isSplit with
      | true => simp [hfault, hsplit] at h
      | false => exact ⟨rfl, by simpa [hfault, hsplit] using h⟩
  · cases hfault : st.getFault with
    | some fault => simp [DynInst.finishWrite, DynInst.finishTranslation, DynInst.fetched, hfault] at h
    | none =>
      exact ⟨rfl, by simpa [DynInst.finishWrite, DynInst.finishTranslation, DynInst.fetched, hfault] using h⟩

lemma Finished.forwards {virt : RowOpPayload} {answer : Operand → Answer F} {st : WholeTranslationState F}
    (h : Finished virt answer st) (hall : AllTranslated virt.op answer) {o : Operand}
    (huse : virt.op.uses o = true) : ∃ flags, answer o = .ok (st.data.get o, flags) := by
  obtain ⟨⟨pa, flags⟩, hans⟩ := hall o huse
  refine ⟨flags, ?_⟩
  rw [h.data o huse, physical, hans]

/-- A row operation is stopped by a fault of any operand exactly when its destination faults, or
nothing does: the faults of the sources are not looked at. -/
theorem faulting_operand_stops_rowOp_iff (req : Request) (virt : RowOpPayload) (tlb : Operand → Nat → Answer F)
    (order : List Operand) (size : Nat) (hnodup : order.Nodup)
    (horder : ∀ o, o ∈ order ↔ virt.op.uses o = true) :
    ∃ st, answerAll tlb (ofRowOp req (req.splitRowOp virt) virt) order = .ok st ∧ st.outstanding = 0 ∧
      (((st.getFault = none → AllTranslated virt.op (tlbAnswers tlb virt)) ∧
        ∀ payload, TimingSimpleCPU.finishTranslation st = .sendData payload ∨
            (((DynInst.fetched F).finishTranslation st).finishWrite req st.data size).written = some payload →
          ∀ o, virt.op.uses o = true → ∃ flags, tlb o (virt.get o) = .ok (payload.get o, flags)) ↔
      ((∃ fault, tlb .dest virt.dest = .error fault) ∨ AllTranslated virt.op (tlbAnswers tlb virt))) := by
  obtain ⟨st, hst, hfin⟩ := answerAll_finished order (answered_ofRowOp req virt (tlbAnswers tlb virt)) hnodup
    (fun o ho => ⟨(horder o).mp ho, Finset.notMem_empty o⟩)
    (fun o ho => by simpa [horder] using mem_used.mp ho)
    (List.ne_nil_of_mem ((horder .dest).mpr rfl))
  have hfault : st.getFault = faultOf (tlb .dest virt.dest) := hfin.fault
  refine ⟨st, hst, hfin.outstanding, ⟨fun hstops => ?_, fun hcond => ?_⟩⟩
  · cases hdest : tlb .dest virt.dest with
    | error fault => exact .inl ⟨fault, rfl⟩
    | ok a => exact .inr (hstops.1 (by rw [hfault, hdest]; rfl))
  · have hall : st.getFault = none → AllTranslated virt.op (tlbAnswers tlb virt) := by
      intro hnone
      refine hcond.resolve_left ?_
      rintro ⟨fault, hdest⟩
      rw [hfault, hdest] at hnone
      cases hnone
    refine ⟨hall, fun payload hsent o huse => ?_⟩
    obtain ⟨hnone, rfl⟩ := forwarded_eq hsent
    exact hfin.forwards (hall hnone) huse

/-- A conjunction whose first source page faults. -/
def sourceFault : Operand → Nat → Answer Unit
  | .dest, _ => .ok (65536, 0)
  | .src1, _ => .error ()
  | .src2, _ => .ok (131072, 0)

theorem faulting_operand_stops_rowOp_iff_sourceFault :
    ∃ st, answerAll sourceFault
        (ofRowOp ⟨0, 32, none, 0⟩ (Request.splitRowOp ⟨0, 32, none, 0⟩ ⟨.rowNot, 8192, 16384, 0⟩)
          ⟨.rowNot, 8192, 16384, 0⟩) [.src1, .dest] = .ok st ∧ st.outstanding = 0 ∧
      (((st.getFault = none → AllTranslated .rowNot (tlbAnswers sourceFault ⟨.rowNot, 8192, 16384, 0⟩)) ∧
        ∀ payload, TimingSimpleCPU.finishTranslation st = .sendData payload ∨
            (((DynInst.fetched Unit).finishTranslation st).finishWrite ⟨0, 32, none, 0⟩ st.data 32).written =
              some payload →
          ∀ o, RowOp.uses .rowNot o = true →
            ∃ flags, sourceFault o (RowOpPayload.get ⟨.rowNot, 8192, 16384, 0⟩ o) = .ok (payload.get o, flags)) ↔
      ((∃ fault, sourceFault .dest 8192 = .error fault) ∨
        AllTranslated .rowNot (tlbAnswers sourceFault ⟨.rowNot, 8192, 16384, 0⟩))) :=
  faulting_operand_stops_rowOp_iff ⟨0, 32, none, 0⟩ ⟨.rowNot, 8192, 16384, 0⟩ sourceFault [.src1, .dest] 32
    (by decide) (fun o => by cases o <;> decide)

/-- The fault of the first source is lost, and its virtual address is sent to memory. -/
theorem source_fault_lost :
    ∃ st, answerAll sourceFault
        (ofRowOp ⟨0, 32, none, 0⟩ (Request.splitRowOp ⟨0, 32, none, 0⟩ ⟨.rowAnd, 8192, 16384, 24576⟩)
          ⟨.rowAnd, 8192, 16384, 24576⟩) [.dest, .src1, .src2] = .ok st ∧ st.outstanding = 0 ∧
      st.getFault = none ∧ ¬ AllTranslated .rowAnd (tlbAnswers sourceFault ⟨.rowAnd, 8192, 16384, 24576⟩) ∧
      TimingSimpleCPU.finishTranslation st = .sendData ⟨.rowAnd, 65536, 16384, 131072⟩ ∧
      (((DynInst.fetched Unit).finishTranslation st).finishWrite ⟨0, 32, none, 0⟩ st.data 32).written =
        some ⟨.rowAnd, 65536, 16384, 131072⟩ := by
  refine ⟨_, rfl, rfl, rfl, fun hall => ?_, rfl, rfl⟩
  obtain ⟨a, ha⟩ := hall .src1 rfl
  cases ha

end MimdramLean.Proofs

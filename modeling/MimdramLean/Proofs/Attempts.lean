import MimdramLean.Proofs.Translation

/-!
# The payload that reaches the store queue

An instruction whose translations are all immediate writes the payload of its only attempt, in
which the translation state has put physical addresses. If a translation is delayed, the instruction
is executed again: then it writes the payload of its second attempt, which nobody translates.
-/

namespace MimdramLean.Proofs
open Library WholeTranslationState DynInst

variable {F : Type} {env : RowOpEnv F}

/-- The payload that the first attempt hands to the translation state. -/
def virtualPayload (env : RowOpEnv F) : RowOpPayload := env.payload.rowAlign

/-- The answers to the requests of the first attempt. -/
def given (env : RowOpEnv F) : Operand → Answer F := tlbAnswers env.answer (virtualPayload env)

/-- The request of a row operation. -/
def rowOpRequest : Request :=
  ⟨0, RowOpPayload.sizeOf, none, RequestFlag.uncacheable ||| RequestFlag.rowOp⟩

/-- Some translation of the row operation waits for a page walk. -/
def Slow (env : RowOpEnv F) : Prop := ∃ o, env.op.uses o = true ∧ env.delayed o = true

lemma not_slow_iff : ¬ Slow env ↔ ∀ o, env.op.uses o = true → env.delayed o = false := by
  simp [Slow]

/-- Translations are under way, with the answers for `done` and some still to come. -/
structure InFlight (env : RowOpEnv F) (done : Finset Operand) (inst : DynInst F) : Prop where
  state : ∃ st, inst.state = some st ∧ Answered (virtualPayload env) (given env) done st
  more : ¬ used env.op ⊆ done
  started : inst.translationStarted = true
  notCompleted : inst.translationCompleted = false
  notWritten : inst.written = none
  noStore : inst.storeSize = 0

lemma InFlight.of_eq {done : Finset Operand} {inst inst' : DynInst F} (h : InFlight env done inst)
    (heq : (inst'.state, inst'.translationStarted, inst'.translationCompleted, inst'.written, inst'.storeSize) =
      (inst.state, inst.translationStarted, inst.translationCompleted, inst.written, inst.storeSize)) :
    InFlight env done inst' := by
  simp only [Prod.mk.injEq] at heq
  obtain ⟨hstate, hstarted, hcompleted, hwritten, hsize⟩ := heq
  exact ⟨hstate ▸ h.state, h.more, hstarted ▸ h.started, hcompleted ▸ h.notCompleted,
    hwritten ▸ h.notWritten, hsize ▸ h.noStore⟩

/-- The translations are complete, and nothing has been written yet. -/
structure Complete (env : RowOpEnv F) (inst : DynInst F) : Prop where
  state : inst.state = none
  started : inst.translationStarted = true
  completed : inst.translationCompleted = true
  notWritten : inst.written = none
  noStore : inst.storeSize = 0
  fault : inst.fault = faultOf (given env .dest)
  frame : ∀ o, env.op.uses o = true → inst.frame.get o = physical (virtualPayload env) (given env) o

/-- What `finishPart` leaves alone. -/
structure SameWalks (inst inst' : DynInst F) : Prop where
  walking : inst'.walking = inst.walking
  savedReq : inst'.savedReq = inst.savedReq
  deferred : inst'.deferred = inst.deferred

lemma finishPart_more {done : Finset Operand} {inst : DynInst F} {o : Operand} (h : InFlight env done inst)
    (huse : env.op.uses o = true) (hnew : o ∉ done) (hmore : ¬ used env.op ⊆ insert o done) :
    ∃ inst', inst.finishPart o (env.answer o) = .ok inst' ∧ InFlight env (insert o done) inst' ∧
      SameWalks inst inst' := by
  obtain ⟨st, hst, hans⟩ := h.state
  obtain ⟨st', hst', hans'⟩ := hans.answer_more hnew huse hmore
  refine ⟨{ inst with state := some st' }, ?_,
    ⟨⟨st', rfl, hans'⟩, hmore, h.started, h.notCompleted, h.notWritten, h.noStore⟩, rfl, rfl, rfl⟩
  rw [finishPart, hst]
  exact bind_eq_ok.mpr ⟨_, hst', rfl⟩

lemma finishPart_last {done : Finset Operand} {inst : DynInst F} {o : Operand} (h : InFlight env done inst)
    (huse : env.op.uses o = true) (hnew : o ∉ done) (hlast : used env.op ⊆ insert o done) :
    ∃ inst', inst.finishPart o (env.answer o) = .ok inst' ∧ Complete env inst' ∧ SameWalks inst inst' := by
  obtain ⟨st, hst, hans⟩ := h.state
  obtain ⟨st', hst', hfin⟩ := hans.answer_last hnew huse hlast
  refine ⟨inst.finishTranslation st', ?_,
    ⟨rfl, h.started, rfl, h.notWritten, h.noStore, hfin.fault, hfin.data⟩, rfl, rfl, rfl⟩
  rw [finishPart, hst]
  exact bind_eq_ok.mpr ⟨_, hst', rfl⟩

/-! ### The first attempt -/

/-- The operands whose answer is immediate, among those of `handed`. -/
def immediate (env : RowOpEnv F) (handed : Finset Operand) : Finset Operand :=
  (used env.op ∩ handed).filter fun o => env.delayed o = false

lemma mem_immediate {handed : Finset Operand} {o : Operand} :
    o ∈ immediate env handed ↔ env.op.uses o = true ∧ o ∈ handed ∧ env.delayed o = false := by
  simp [immediate, mem_used, and_assoc]

/-- After the operands of `handed` have been handed to the TLB. -/
inductive Handed (env : RowOpEnv F) (handed : Finset Operand) (inst : DynInst F) : Prop
  | waiting (flight : InFlight env (immediate env handed) inst)
      (walking : ∀ o, inst.walking o = true ↔ env.op.uses o = true ∧ o ∈ handed ∧ env.delayed o = true)
  | complete (complete : Complete env inst) (fast : ¬ Slow env) (all : used env.op ⊆ handed)
      (walking : ∀ o, inst.walking o = false)

lemma immediate_insert_of_not {handed : Finset Operand} {o : Operand}
    (h : env.op.uses o = false ∨ env.delayed o = true) :
    immediate env (insert o handed) = immediate env handed := by
  ext x
  simp only [mem_immediate, Finset.mem_insert]
  by_cases hx : x = o
  · subst hx
    rcases h with h | h <;> simp [h]
  · simp [hx]

lemma immediate_insert {handed : Finset Operand} {o : Operand} (huse : env.op.uses o = true)
    (hfast : env.delayed o = false) :
    immediate env (insert o handed) = insert o (immediate env handed) := by
  ext x
  simp only [mem_immediate, Finset.mem_insert]
  by_cases hx : x = o
  · subst hx
    simp [huse, hfast]
  · simp [hx]

/-- An operand that the operation does not use has no translation. -/
lemma Handed.unused {handed : Finset Operand} {inst : DynInst F} {o : Operand} (h : Handed env handed inst)
    (huse : env.op.uses o = false) : Handed env (insert o handed) inst := by
  cases h with
  | waiting flight walking =>
    refine .waiting (by rwa [immediate_insert_of_not (.inl huse)]) fun x => ?_
    rw [walking, Finset.mem_insert]
    by_cases hx : x = o
    · subst hx
      simp [huse]
    · simp [hx]
  | complete complete fast all walking =>
    exact .complete complete fast (all.trans (Finset.subset_insert _ _)) walking

/-- A delayed operand is walked for. -/
lemma Handed.delayed {handed : Finset Operand} {inst : DynInst F} {o : Operand}
    (flight : InFlight env (immediate env handed) inst)
    (walking : ∀ x, inst.walking x = true ↔ env.op.uses x = true ∧ x ∈ handed ∧ env.delayed x = true)
    (huse : env.op.uses o = true) (hslow : env.delayed o = true) :
    Handed env (insert o handed) { inst with walking := Function.update inst.walking o true } := by
  refine .waiting ?_ fun x => ?_
  · rw [immediate_insert_of_not (.inr hslow)]
    exact flight.of_eq rfl
  · by_cases hx : x = o
    · subst hx
      simp [huse, hslow]
    · simp only [Function.update_of_ne hx, walking, Finset.mem_insert, hx, false_or]

/-- An immediate answer may be the last one. -/
lemma finishPart_handed {handed : Finset Operand} {inst : DynInst F} {o : Operand}
    (flight : InFlight env (immediate env handed) inst)
    (walking : ∀ x, inst.walking x = true ↔ env.op.uses x = true ∧ x ∈ handed ∧ env.delayed x = true)
    (hnew : o ∉ handed) (huse : env.op.uses o = true) (hquick : env.delayed o = false) :
    ∃ inst', inst.finishPart o (env.answer o) = .ok inst' ∧ Handed env (insert o handed) inst' := by
  have hfresh : o ∉ immediate env handed := fun ho => hnew (mem_immediate.mp ho).2.1
  by_cases hlast : used env.op ⊆ insert o (immediate env handed)
  · obtain ⟨inst', hfin, hcomplete, hsame⟩ := finishPart_last flight huse hfresh hlast
    have hall : ∀ x, env.op.uses x = true → (x = o ∨ x ∈ handed) ∧ env.delayed x = false := by
      intro x hx
      rcases Finset.mem_insert.mp (hlast (mem_used.mpr hx)) with rfl | hx'
      · exact ⟨.inl rfl, hquick⟩
      · exact ⟨.inr (mem_immediate.mp hx').2.1, (mem_immediate.mp hx').2.2⟩
    refine ⟨inst', hfin, .complete hcomplete (not_slow_iff.mpr fun x hx => (hall x hx).2) ?_ fun x => ?_⟩
    · exact fun x hx => Finset.mem_insert.mpr (hall x (mem_used.mp hx)).1
    · rw [hsame.walking, ← Bool.not_eq_true, walking]
      rintro ⟨hx, -, hxslow⟩
      simp [(hall x hx).2] at hxslow
  · obtain ⟨inst', hfin, hflight, hsame⟩ := finishPart_more flight huse hfresh hlast
    refine ⟨inst', hfin, .waiting (by rwa [immediate_insert huse hquick]) fun x => ?_⟩
    rw [hsame.walking, walking, Finset.mem_insert]
    by_cases hx : x = o
    · subst hx
      simp [hquick]
    · simp [hx]

lemma translateTiming_handed {handed : Finset Operand} {inst : DynInst F} {o : Operand}
    (h : Handed env handed inst) (hnew : o ∉ handed) :
    ∃ inst', inst.translateTiming env o = .ok inst' ∧ Handed env (insert o handed) inst' := by
  unfold translateTiming
  cases huse : env.op.uses o with
  | false => exact ⟨inst, by simp, h.unused huse⟩
  | true =>
    cases h with
    | complete complete fast all walking => exact absurd (all (mem_used.mpr huse)) hnew
    | waiting flight walking =>
      cases hslow : env.delayed o with
      | true => exact ⟨_, by simp, Handed.delayed flight walking huse hslow⟩
      | false => simpa using finishPart_handed flight walking hnew huse hslow

/-- The first attempt: with a slow operand the instruction waits for the page walks, otherwise the
translations are complete. -/
lemma startTranslation_spec (env : RowOpEnv F) :
    ∃ inst, (fetched F).startTranslation env rowOpRequest (virtualPayload env) = .ok inst ∧
      ((Slow env ∧ InFlight env (immediate env Finset.univ) inst ∧ inst.fault = none ∧
          inst.savedReq = some rowOpRequest ∧
          ∀ o, inst.walking o = true ↔ env.op.uses o = true ∧ env.delayed o = true) ∨
        (¬ Slow env ∧ Complete env inst ∧ ∀ o, inst.walking o = false)) := by
  have hstart : Handed env ∅ { fetched F with
      translationStarted := true
      state := some (ofRowOp rowOpRequest (rowOpRequest.splitRowOp (virtualPayload env)) (virtualPayload env))
      frame := virtualPayload env } := by
    have hnone : immediate env ∅ = ∅ := by simp [immediate]
    refine .waiting ⟨⟨_, rfl, ?_⟩, ?_, rfl, rfl, rfl, rfl⟩ fun o => by simp [fetched]
    · rw [hnone]
      exact answered_ofRowOp _ _ _
    · rw [hnone]
      exact fun hsub => Finset.notMem_empty _ (hsub (mem_used.mpr rfl : Operand.dest ∈ used env.op))
  obtain ⟨i₀, h₀, hh₀⟩ := translateTiming_handed (o := .dest) hstart (by decide)
  obtain ⟨i₁, h₁, hh₁⟩ := translateTiming_handed (o := .src1) hh₀ (by decide)
  obtain ⟨i₂, h₂, hh₂⟩ := translateTiming_handed (o := .src2) hh₁ (by decide)
  rw [show insert Operand.src2 (insert .src1 (insert .dest ∅)) = (Finset.univ : Finset Operand) by decide] at hh₂
  refine ⟨_, bind_eq_ok.mpr ⟨i₀, h₀, bind_eq_ok.mpr ⟨i₁, h₁, bind_eq_ok.mpr ⟨i₂, h₂, rfl⟩⟩⟩, ?_⟩
  cases hh₂ with
  | waiting flight walking =>
    refine .inl ?_
    rw [if_neg (by simp [flight.notCompleted])]
    refine ⟨?_, flight.of_eq rfl, rfl, rfl, fun o => by simpa using walking o⟩
    by_contra hfast
    exact flight.more fun o ho =>
      mem_immediate.mpr ⟨mem_used.mp ho, Finset.mem_univ o, not_slow_iff.mp hfast o (mem_used.mp ho)⟩
  | complete complete fast all walking =>
    refine .inr ?_
    rw [if_pos complete.completed]
    exact ⟨fast, complete, walking⟩

/-! ### The life of the instruction -/

/-- The first attempt has returned, and page walks are under way. -/
structure Waiting (env : RowOpEnv F) (done : Finset Operand) (inst : DynInst F) : Prop where
  slow : Slow env
  flight : InFlight env done inst
  walking : ∀ o, inst.walking o = true ↔ env.op.uses o = true ∧ o ∉ done
  saved : inst.savedReq = some rowOpRequest
  deferred : inst.deferred = true

/-- The page walks are over, and the instruction is to be executed again. -/
structure Ready (env : RowOpEnv F) (inst : DynInst F) : Prop where
  slow : Slow env
  complete : Complete env inst
  walking : ∀ o, inst.walking o = false
  saved : inst.savedReq = some rowOpRequest
  deferred : inst.deferred = true

/-- What the store queue holds after the last attempt. -/
structure Stored (env : RowOpEnv F) (inst : DynInst F) (data : RowOpPayload) : Prop where
  written : inst.written = some data
  effAddr : inst.effAddr = 0
  effSize : inst.effSize = RowOpPayload.sizeOf
  storeSize : inst.storeSize = RowOpPayload.sizeOf
  content : (¬ Slow env ∧ ∀ o, env.op.uses o = true →
    data.get o = physical (virtualPayload env) (given env) o) ∨ (Slow env ∧ data = env.payload)

/-- The last attempt has returned. -/
structure Executed (env : RowOpEnv F) (inst : DynInst F) : Prop where
  started : inst.translationStarted = true
  completed : inst.translationCompleted = true
  walking : ∀ o, inst.walking o = false
  deferred : inst.deferred = false
  stored : (faultOf (given env .dest) = none ∧ ∃ data, Stored env inst data) ∨
    (faultOf (given env .dest) ≠ none ∧ inst.written = none ∧ inst.storeSize = 0)

/-- The end of `writeMem` when the translations are complete. -/
lemma finishWrite_executed {inst : DynInst F} {data : RowOpPayload} (h : Complete env inst)
    (hwalk : ∀ o, inst.walking o = false)
    (hdata : (¬ Slow env ∧ ∀ o, env.op.uses o = true →
      data.get o = physical (virtualPayload env) (given env) o) ∨ (Slow env ∧ data = env.payload)) :
    Executed env { inst.finishWrite rowOpRequest data RowOpPayload.sizeOf with
      deferred := (inst.finishWrite rowOpRequest data RowOpPayload.sizeOf).isTranslationDelayed &&
        (inst.finishWrite rowOpRequest data RowOpPayload.sizeOf).fault.isNone } := by
  unfold finishWrite
  cases hfault : faultOf (given env .dest) with
  | none =>
    rw [if_pos ⟨by simp [h.fault, hfault], h.completed⟩]
    exact ⟨h.started, h.completed, hwalk, by simp [isTranslationDelayed, h.completed],
      .inl ⟨hfault, data, rfl, rfl, rfl, rfl, hdata⟩⟩
  | some fault =>
    rw [if_neg (by simp [h.fault, hfault])]
    exact ⟨h.started, h.completed, hwalk, by simp [isTranslationDelayed, h.completed],
      .inr ⟨by simp [hfault], h.notWritten, h.noStore⟩⟩

/-- The first attempt. -/
lemma execute_fetched (env : RowOpEnv F) :
    ∃ inst, step env (fetched F) .execute = .ok inst ∧
      ((∃ done, Waiting env done inst) ∨ (¬ Slow env ∧ Executed env inst)) := by
  obtain ⟨i, hi, hcases⟩ := startTranslation_spec env
  have hrun : step env (fetched F) .execute = .ok { i.finishWrite rowOpRequest i.frame RowOpPayload.sizeOf with
      deferred := (i.finishWrite rowOpRequest i.frame RowOpPayload.sizeOf).isTranslationDelayed &&
        (i.finishWrite rowOpRequest i.frame RowOpPayload.sizeOf).fault.isNone } := by
    refine bind_eq_ok.mpr ⟨(), ensure_eq_ok.mpr (.inl rfl), bind_eq_ok.mpr ⟨_, ?_, rfl⟩⟩
    exact bind_eq_ok.mpr ⟨i, hi, rfl⟩
  refine ⟨_, hrun, ?_⟩
  rcases hcases with ⟨hslow, hflight, hfault, hsaved, hwalk⟩ | ⟨hfast, hcomplete, hwalk⟩
  · refine .inl ⟨immediate env Finset.univ, ?_⟩
    have hstay : i.finishWrite rowOpRequest i.frame RowOpPayload.sizeOf = i := by
      simp [finishWrite, hflight.notCompleted]
    rw [hstay]
    refine ⟨hslow, hflight.of_eq rfl, fun o => ?_, hsaved, ?_⟩
    · rw [hwalk, mem_immediate]
      constructor
      · rintro ⟨hu, hd⟩
        exact ⟨hu, fun hm => by simp [hd] at hm⟩
      · rintro ⟨hu, hm⟩
        refine ⟨hu, ?_⟩
        by_contra hd
        exact hm ⟨hu, Finset.mem_univ o, by simpa using hd⟩
    · simp [isTranslationDelayed, hflight.started, hflight.notCompleted, hfault]
  · exact .inr ⟨hfast, finishWrite_executed hcomplete hwalk (.inl ⟨hfast, hcomplete.frame⟩)⟩

/-- The end of a page walk. -/
lemma walked_waiting {done : Finset Operand} {inst : DynInst F} {o : Operand} (h : Waiting env done inst)
    (huse : env.op.uses o = true) (hnew : o ∉ done) :
    ∃ inst', step env inst (.walked o) = .ok inst' ∧
      (Waiting env (insert o done) inst' ∨ Ready env inst') := by
  have hflight : InFlight env done { inst with walking := Function.update inst.walking o false } :=
    h.flight.of_eq rfl
  have hen : inst.walking o = true := (h.walking o).mpr ⟨huse, hnew⟩
  by_cases hlast : used env.op ⊆ insert o done
  · obtain ⟨inst', hfin, hcomplete, hsame⟩ := finishPart_last hflight huse hnew hlast
    refine ⟨inst', bind_eq_ok.mpr ⟨(), ensure_eq_ok.mpr hen, hfin⟩,
      .inr ⟨h.slow, hcomplete, fun x => ?_, hsame.savedReq.trans h.saved, hsame.deferred.trans h.deferred⟩⟩
    rw [hsame.walking]
    by_cases hx : x = o
    · subst hx
      exact Function.update_self _ _ _
    · simp only [Function.update_of_ne hx]
      rw [← Bool.not_eq_true, h.walking]
      rintro ⟨hxu, hxd⟩
      exact (Finset.mem_insert.mp (hlast (mem_used.mpr hxu))).elim hx hxd
  · obtain ⟨inst', hfin, hflight', hsame⟩ := finishPart_more hflight huse hnew hlast
    refine ⟨inst', bind_eq_ok.mpr ⟨(), ensure_eq_ok.mpr hen, hfin⟩,
      .inl ⟨h.slow, hflight', fun x => ?_, hsame.savedReq.trans h.saved, hsame.deferred.trans h.deferred⟩⟩
    rw [hsame.walking]
    by_cases hx : x = o
    · subst hx
      simp
    · simp only [Function.update_of_ne hx, h.walking, Finset.mem_insert, hx, false_or]

/-- The second attempt. -/
lemma execute_ready {inst : DynInst F} (h : Ready env inst) :
    ∃ inst', step env inst .execute = .ok inst' ∧ Executed env inst' := by
  refine ⟨_, bind_eq_ok.mpr ⟨(), ensure_eq_ok.mpr (.inr ⟨h.deferred, h.complete.completed⟩),
    bind_eq_ok.mpr ⟨inst.finishWrite rowOpRequest env.payload RowOpPayload.sizeOf, ?_, rfl⟩⟩,
    finishWrite_executed h.complete h.walking (.inr ⟨h.slow, rfl⟩)⟩
  simp only [initiateAcc, writeMem, h.complete.started, if_true, h.saved]

/-- Where an instruction can be. -/
inductive Phase (env : RowOpEnv F) (inst : DynInst F) : Prop
  | fetched (fetched : inst = DynInst.fetched F)
  | waiting (done : Finset Operand) (waiting : Waiting env done inst)
  | ready (ready : Ready env inst)
  | executed (executed : Executed env inst)

lemma step_walked_enabled {inst inst' : DynInst F} {o : Operand} (h : step env inst (.walked o) = .ok inst') :
    inst.walking o = true := by
  obtain ⟨_, hen, -⟩ := bind_eq_ok.mp h
  exact ensure_eq_ok.mp hen

lemma step_execute_enabled {inst inst' : DynInst F} (h : step env inst .execute = .ok inst') :
    inst.translationStarted = false ∨ (inst.deferred = true ∧ inst.translationCompleted = true) := by
  obtain ⟨_, hen, -⟩ := bind_eq_ok.mp h
  exact ensure_eq_ok.mp hen

lemma step_phase (inst : DynInst F) (e : DynInst.Event) (inst' : DynInst F) (h : Phase env inst)
    (hs : step env inst e = .ok inst') : Phase env inst' := by
  cases h with
  | fetched hf =>
    subst hf
    cases e with
    | execute =>
      obtain ⟨i, hi, hcases⟩ := execute_fetched env
      obtain rfl : i = inst' := by simpa [hi] using hs
      rcases hcases with ⟨done, hwait⟩ | ⟨-, hexec⟩
      · exact .waiting done hwait
      · exact .executed hexec
    | walked o => exact absurd (step_walked_enabled hs) (by simp [DynInst.fetched])
  | waiting done hw =>
    cases e with
    | execute =>
      have hen := step_execute_enabled hs
      simp [hw.flight.started, hw.flight.notCompleted] at hen
    | walked o =>
      obtain ⟨huse, hnew⟩ := (hw.walking o).mp (step_walked_enabled hs)
      obtain ⟨i, hi, hcases⟩ := walked_waiting hw huse hnew
      obtain rfl : i = inst' := by simpa [hi] using hs
      exact hcases.elim (.waiting _) .ready
  | ready hr =>
    cases e with
    | execute =>
      obtain ⟨i, hi, hexec⟩ := execute_ready hr
      obtain rfl : i = inst' := by simpa [hi] using hs
      exact .executed hexec
    | walked o => exact absurd (step_walked_enabled hs) (by simp [hr.walking o])
  | executed he =>
    cases e with
    | execute =>
      have hen := step_execute_enabled hs
      simp [he.started, he.deferred] at hen
    | walked o => exact absurd (step_walked_enabled hs) (by simp [he.walking o])

lemma run_phase {es : List DynInst.Event} {inst : DynInst F} (h : DynInst.run env es = .ok inst) :
    Phase env inst :=
  invariant_of_run (step env) (Phase env) step_phase (.fetched rfl) h

/-- The store queue gets a payload from the last attempt only. -/
lemma Phase.stored {inst : DynInst F} {data : RowOpPayload} (h : Phase env inst)
    (hw : inst.written = some data) : faultOf (given env .dest) = none ∧ Stored env inst data ∧
      inst.translationCompleted = true := by
  cases h with
  | fetched hf => simp [hf, DynInst.fetched] at hw
  | waiting done hwait => simp [hwait.flight.notWritten] at hw
  | ready hr => simp [hr.complete.notWritten] at hw
  | executed he =>
    rcases he.stored with ⟨hnone, data', hstored⟩ | ⟨-, hnot, -⟩
    · obtain rfl : data' = data := by simpa [hstored.written] using hw
      exact ⟨hnone, hstored, he.completed⟩
    · simp [hnot] at hw

/-! ### Every row operation gets to its last attempt -/

lemma ready_executes {inst : DynInst F} (h : Ready env inst) :
    ∃ es inst', runFrom (step env) inst es = .ok inst' ∧ Executed env inst' := by
  obtain ⟨inst', hs, hexec⟩ := execute_ready h
  exact ⟨[.execute], inst', bind_eq_ok.mpr ⟨inst', hs, rfl⟩, hexec⟩

lemma waiting_executes (n : Nat) {done : Finset Operand} {inst : DynInst F} (h : Waiting env done inst)
    (hn : (used env.op \ done).card = n) :
    ∃ es inst', runFrom (step env) inst es = .ok inst' ∧ Executed env inst' := by
  induction n generalizing done inst with
  | zero =>
    rw [Finset.card_eq_zero, Finset.sdiff_eq_empty_iff_subset] at hn
    exact absurd hn h.flight.more
  | succ n ih =>
    obtain ⟨o, ho, hnew⟩ := Finset.not_subset.mp h.flight.more
    obtain ⟨mid, hs, hcases⟩ := walked_waiting h (mem_used.mp ho) hnew
    obtain ⟨es, inst', hrun, hexec⟩ : ∃ es inst', runFrom (step env) mid es = .ok inst' ∧ Executed env inst' := by
      rcases hcases with hwait | hready
      · refine ih hwait ?_
        rw [Finset.sdiff_insert, Finset.card_erase_of_mem (Finset.mem_sdiff.mpr ⟨ho, hnew⟩), hn,
          Nat.add_sub_cancel]
      · exact ready_executes hready
    exact ⟨.walked o :: es, inst', bind_eq_ok.mpr ⟨mid, hs, hrun⟩, hexec⟩

lemma exists_run_executed (env : RowOpEnv F) :
    ∃ es inst, DynInst.run env es = .ok inst ∧ Executed env inst := by
  obtain ⟨mid, hs, hcases⟩ := execute_fetched env
  rcases hcases with ⟨done, hwait⟩ | ⟨-, hexec⟩
  · obtain ⟨es, inst, hrun, hexec⟩ := waiting_executes _ hwait rfl
    exact ⟨.execute :: es, inst, bind_eq_ok.mpr ⟨mid, hs, hrun⟩, hexec⟩
  · exact ⟨[.execute], mid, bind_eq_ok.mpr ⟨mid, hs, rfl⟩, hexec⟩

/-! ### When the payload is right -/

/-- The row that the register of an operand points into. -/
def rowOperand (env : RowOpEnv F) : Operand → Nat
  | .dest => env.rdi / rowSize * rowSize
  | .src1 => env.rsi / rowSize * rowSize
  | .src2 => env.rdx / rowSize * rowSize

/-- The requests of the first attempt are for the row-aligned registers. -/
lemma virtualPayload_get {o : Operand} (huse : env.op.uses o = true) :
    (virtualPayload env).get o = rowOperand env o := by
  cases o <;> simp only [virtualPayload, RowOpPayload.rowAlign, RowOpEnv.payload, RowOpPayload.get, rowOperand,
    huse, if_true]

lemma given_eq {o : Operand} (huse : env.op.uses o = true) : given env o = env.answer o (rowOperand env o) := by
  rw [given, tlbAnswers, virtualPayload_get huse]

/-- For every operand used, the payload has the translated address of the row that its register points into. -/
def HoldsPhysical (env : RowOpEnv F) (data : RowOpPayload) : Prop :=
  ∀ o, env.op.uses o = true → ∃ flags, env.answer o (rowOperand env o) = .ok (data.get o, flags)

lemma holdsPhysical_of_physical {data : RowOpPayload}
    (hall : AllTranslated env.op fun o => env.answer o (rowOperand env o))
    (h : ∀ o, env.op.uses o = true → data.get o = physical (virtualPayload env) (given env) o) :
    HoldsPhysical env data := by
  intro o huse
  obtain ⟨⟨pa, flags⟩, hans⟩ := hall o huse
  refine ⟨flags, ?_⟩
  simp only [h o huse, physical, given_eq huse, hans]

/-- What reaches the store queue has physical addresses in every run exactly when the destination
faults, so that nothing reaches it, or every operand is translated and either no translation is
delayed or the registers hold the physical addresses already. -/
theorem stored_payload_physical_iff (env : RowOpEnv F) :
    (∀ es inst data, DynInst.run env es = .ok inst → inst.written = some data → HoldsPhysical env data) ↔
      ((∃ fault, env.answer .dest (rowOperand env .dest) = .error fault) ∨
        ((AllTranslated env.op fun o => env.answer o (rowOperand env o)) ∧
          ((∀ o, env.op.uses o = true → env.delayed o = false) ∨ HoldsPhysical env env.payload))) := by
  have hgiven : given env .dest = env.answer .dest (rowOperand env .dest) := given_eq rfl
  constructor
  · intro hruns
    cases hdest : env.answer .dest (rowOperand env .dest) with
    | error fault => exact .inl ⟨fault, rfl⟩
    | ok a =>
      obtain ⟨es, inst, hrun, hexec⟩ := exists_run_executed env
      obtain ⟨-, data, hstored⟩ := hexec.stored.resolve_right (by simp [hgiven, hdest, faultOf])
      have hphys := hruns es inst data hrun hstored.written
      refine .inr ⟨fun o ho => (hphys o ho).imp' (fun flags => (data.get o, flags)) fun _ h => h, ?_⟩
      rcases hstored.content with ⟨hfast, -⟩ | ⟨-, rfl⟩
      · exact .inl (not_slow_iff.mp hfast)
      · exact .inr hphys
  · intro hcond es inst data hrun hw
    obtain ⟨hnone, hstored, -⟩ := (run_phase hrun).stored hw
    obtain ⟨hall, hwhy⟩ := hcond.resolve_left (by
      rintro ⟨fault, hfault⟩
      simp [hgiven, hfault, faultOf] at hnone)
    rcases hstored.content with ⟨-, hdata⟩ | ⟨hslow, rfl⟩
    · exact holdsPhysical_of_physical hall hdata
    · exact hwhy.resolve_left fun hfast => not_slow_iff.mpr hfast hslow

/-- A conjunction whose destination waits for a page walk; pages are mapped 14 pages further up. -/
def slowDestination : RowOpEnv Unit where
  op := .rowAnd
  rdi := 8192
  rsi := 16384
  rdx := 24576
  answer := fun _ vaddr => .ok (vaddr + 57344, 0)
  delayed := fun o => o == .dest

/-- The second attempt stores the virtual addresses. -/
theorem second_attempt_stores_virtual :
    ∃ inst, DynInst.run slowDestination [.execute, .walked .dest, .execute] = .ok inst ∧
      inst.written = some ⟨.rowAnd, 8192, 16384, 24576⟩ ∧
      ¬ HoldsPhysical slowDestination ⟨.rowAnd, 8192, 16384, 24576⟩ := by
  refine ⟨_, rfl, rfl, fun hphys => ?_⟩
  obtain ⟨flags, hflags⟩ := hphys .dest rfl
  simp [slowDestination, rowOperand, rowSize, RowOpPayload.get] at hflags

end MimdramLean.Proofs

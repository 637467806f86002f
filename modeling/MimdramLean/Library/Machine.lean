import Mathlib.Data.List.Infix

/-!
# Machines whose steps may fail

A machine is a function `step : S → E → Except ε S`: it reads an event and either moves to a
new state or stops with a failure. This file has runs over lists of events, the induction rule
for invariants, and the rule for a property that holds along a run exactly when every step of
the run is guarded.
-/

namespace MimdramLean.Library

section Fallible

variable {ε α β : Type}

/-- Stop with `e` unless `c` holds. -/
def ensure (c : Prop) [Decidable c] (e : ε) : Except ε Unit :=
  if c then .ok () else .error e

lemma bind_eq_ok {x : Except ε α} {f : α → Except ε β} {b : β} :
    (x >>= f) = .ok b ↔ ∃ a, x = .ok a ∧ f a = .ok b := by
  cases x with
  | error e => simp [Bind.bind, Except.bind]
  | ok a => simp [Bind.bind, Except.bind]

lemma bind_eq_error {x : Except ε α} {f : α → Except ε β} {e : ε} :
    (x >>= f) = .error e ↔ x = .error e ∨ ∃ a, x = .ok a ∧ f a = .error e := by
  cases x with
  | error e' => simp [Bind.bind, Except.bind]
  | ok a => simp [Bind.bind, Except.bind]

@[simp] lemma ensure_eq_ok {c : Prop} [Decidable c] {e : ε} {u : Unit} :
    ensure c e = .ok u ↔ c := by
  by_cases h : c <;> simp [ensure, h]

@[simp] lemma ensure_eq_error {c : Prop} [Decidable c] {e e' : ε} :
    ensure c e = .error e' ↔ ¬c ∧ e = e' := by
  by_cases h : c <;> simp [ensure, h]

/-- The computation succeeds with a value that passes `P`. -/
def okWith (x : Except ε α) (P : α → Bool) : Bool :=
  match x with
  | .ok a => P a
  | .error _ => false

lemma exists_of_okWith {x : Except ε α} {P : α → Bool} (h : okWith x P = true) :
    ∃ a, x = .ok a ∧ P a = true := by
  cases x with
  | ok a => exact ⟨a, rfl, h⟩
  | error e => simp [okWith] at h

/-- Every failure of `x` satisfies `P`. -/
def Raises (x : Except ε α) (P : ε → Prop) : Prop := ∀ e, x = .error e → P e

lemma raises_ok {a : α} {P : ε → Prop} : Raises (.ok a : Except ε α) P := nofun

lemma raises_ensure {c : Prop} [Decidable c] {e : ε} {P : ε → Prop} (h : ¬c → P e) :
    Raises (ensure c e) P := by
  intro e' he
  obtain ⟨hc, rfl⟩ := ensure_eq_error.mp he
  exact h hc

/-- A sequence fails as its first part does, or as the second does after the first succeeded. -/
lemma Raises.bind {x : Except ε α} {f : α → Except ε β} {P : ε → Prop} (hx : Raises x P)
    (hf : ∀ a, x = .ok a → Raises (f a) P) : Raises (x >>= f) P := by
  intro e he
  rcases bind_eq_error.mp he with h | ⟨a, ha, h⟩
  · exact hx e h
  · exact hf a ha e h

lemma Raises.mono {x : Except ε α} {P Q : ε → Prop} (hx : Raises x P) (h : ∀ e, P e → Q e) :
    Raises x Q := fun e he => h e (hx e he)

/-- Every failure of `x` satisfies `P` and every result satisfies `Q`. -/
def Outcome (x : Except ε α) (P : ε → Prop) (Q : α → Prop) : Prop :=
  Raises x P ∧ ∀ a, x = .ok a → Q a

lemma outcome_ok {a : α} {P : ε → Prop} {Q : α → Prop} (h : Q a) : Outcome (.ok a) P Q :=
  ⟨raises_ok, fun _ ha => Except.ok.inj ha ▸ h⟩

lemma outcome_ensure {c : Prop} [Decidable c] {e : ε} {P : ε → Prop} (h : ¬c → P e) :
    Outcome (ensure c e) P fun _ => c :=
  ⟨raises_ensure h, fun _ hok => ensure_eq_ok.mp hok⟩

/-- The rule of sequence. -/
lemma Outcome.bind {x : Except ε α} {f : α → Except ε β} {P : ε → Prop} {Q : α → Prop} {R : β → Prop}
    (hx : Outcome x P Q) (hf : ∀ a, Q a → Outcome (f a) P R) : Outcome (x >>= f) P R := by
  constructor
  · exact hx.1.bind fun a ha => (hf a (hx.2 a ha)).1
  · intro b hb
    obtain ⟨a, ha, hfa⟩ := bind_eq_ok.mp hb
    exact (hf a (hx.2 a ha)).2 b hfa

/-- The rule of consequence. -/
lemma Outcome.mono {x : Except ε α} {P : ε → Prop} {Q R : α → Prop} (hx : Outcome x P Q)
    (h : ∀ a, Q a → R a) : Outcome x P R :=
  ⟨hx.1, fun a ha => h a (hx.2 a ha)⟩

@[simp] lemma ok_bind (a : α) (f : α → Except ε β) : ((.ok a : Except ε α) >>= f) = f a := rfl

end Fallible

section Runs

variable {S E ε : Type} (step : S → E → Except ε S)

/-- The state after the events of a list, taken in order. -/
def runFrom : S → List E → Except ε S
  | s, [] => .ok s
  | s, e :: es => step s e >>= fun s' => runFrom s' es

/-- A property that every step keeps holds at the end of every run. -/
theorem invariant_of_run (I : S → Prop) (hstep : ∀ s e t, I s → step s e = .ok t → I t)
    {s t : S} {es : List E} (hs : I s) (h : runFrom step s es = .ok t) : I t := by
  induction es generalizing s with
  | nil =>
    cases h
    exact hs
  | cons e es ih =>
    obtain ⟨s', he, hrest⟩ := bind_eq_ok.mp h
    exact ih (hstep s e s' hs he) hrest

lemma foldlM_eq_runFrom (s : S) (es : List E) : es.foldlM step s = runFrom step s es := by
  induction es generalizing s with
  | nil => rfl
  | cons e es ih =>
    simp only [List.foldlM_cons, runFrom]
    cases h : step s e with
    | error x => rfl
    | ok s' => simpa using ih s'

/-- When it does not depend on the state whether a step fails, a run succeeds if no event of it fails. -/
theorem runFrom_eq_ok_iff {G : E → Prop} {f : S → E → S} (hstep : ∀ s e t, step s e = .ok t ↔ G e ∧ f s e = t)
    {s t : S} {es : List E} : runFrom step s es = .ok t ↔ (∀ e ∈ es, G e) ∧ es.foldl f s = t := by
  induction es generalizing s with
  | nil => simp [runFrom]
  | cons e es ih =>
    rw [runFrom, bind_eq_ok, List.forall_mem_cons, List.foldl_cons, and_assoc, ← ih]
    constructor
    · rintro ⟨u, hu, hrest⟩
      obtain ⟨he, rfl⟩ := (hstep s e u).mp hu
      exact ⟨he, hrest⟩
    · rintro ⟨he, hrest⟩
      exact ⟨f s e, (hstep s e _).mpr ⟨he, rfl⟩, hrest⟩

/-- When every step from a good state ends in a good state or in an admitted failure, so does
every run. -/
theorem outcome_run {I : S → Prop} {P : ε → Prop} (hstep : ∀ s e, I s → Outcome (step s e) P I)
    {s : S} (hs : I s) (es : List E) : Outcome (runFrom step s es) P I := by
  induction es generalizing s with
  | nil => exact outcome_ok hs
  | cons e es ih => exact (hstep s e hs).bind fun s' hs' => ih hs'

/-- Every state that a run passes through, its first and its last included. -/
def Along (s : S) (es : List E) (I : S → Prop) : Prop :=
  ∀ pre u, pre <+: es → runFrom step s pre = .ok u → I u

/-- Every step that a run takes, with the state before it. -/
def Steps (s : S) (es : List E) (G : S → E → Prop) : Prop :=
  ∀ pre e u, pre ++ [e] <+: es → runFrom step s pre = .ok u → G u e

lemma along_nil {s : S} {I : S → Prop} : Along step s [] I ↔ I s := by
  constructor
  · intro h
    exact h [] s (List.prefix_refl _) rfl
  · intro hs pre u hpre hrun
    rw [List.prefix_nil.mp hpre] at hrun
    cases hrun
    exact hs

lemma along_cons {s s' : S} {e : E} {es : List E} {I : S → Prop} (he : step s e = .ok s') :
    Along step s (e :: es) I ↔ I s ∧ Along step s' es I := by
  constructor
  · intro h
    refine ⟨h [] s List.nil_prefix rfl, ?_⟩
    intro pre u hpre hrun
    apply h (e :: pre) u (List.cons_prefix_cons.mpr ⟨rfl, hpre⟩)
    simpa only [runFrom, he, ok_bind] using hrun
  · rintro ⟨hs, hrest⟩ pre u hpre hrun
    cases pre with
    | nil =>
      cases hrun
      exact hs
    | cons e' pre =>
      obtain ⟨rfl, htail⟩ := List.cons_prefix_cons.mp hpre
      apply hrest pre u htail
      simpa only [runFrom, he, ok_bind] using hrun

lemma steps_cons {s s' : S} {e : E} {es : List E} {G : S → E → Prop} (he : step s e = .ok s') :
    Steps step s (e :: es) G ↔ G s e ∧ Steps step s' es G := by
  constructor
  · intro h
    refine ⟨h [] e s (by simp) rfl, ?_⟩
    intro pre f u hpre hrun
    apply h (e :: pre) f u (List.cons_prefix_cons.mpr ⟨rfl, hpre⟩)
    simpa only [runFrom, he, ok_bind] using hrun
  · rintro ⟨hs, hrest⟩ pre f u hpre hrun
    cases pre with
    | nil =>
      cases hrun
      have hf : f = e := by simpa using hpre
      exact hf ▸ hs
    | cons e' pre =>
      obtain ⟨rfl, htail⟩ := List.cons_prefix_cons.mp hpre
      apply hrest pre f u htail
      simpa only [runFrom, he, ok_bind] using hrun

/-- Every step of a run, as far as it goes, passes the test. -/
def passesSteps (test : S → E → Bool) : S → List E → Bool
  | _, [] => true
  | s, e :: es =>
    test s e && match step s e with
      | .ok s' => passesSteps test s' es
      | .error _ => true

/-- A test of the single steps decides a property of all the steps of a given run. -/
lemma steps_of_passesSteps {G : S → E → Prop} {test : S → E → Bool} (htest : ∀ s e, test s e = true → G s e)
    {s : S} {es : List E} (h : passesSteps step test s es = true) : Steps step s es G := by
  induction es generalizing s with
  | nil =>
    intro pre e u hpre _
    simp at hpre
  | cons e es ih =>
    rw [passesSteps, Bool.and_eq_true] at h
    cases he : step s e with
    | ok s' =>
      rw [he] at h
      exact (steps_cons step he).mpr ⟨htest s e h.1, ih h.2⟩
    | error x =>
      intro pre f u hpre hrun
      cases pre with
      | nil =>
        cases hrun
        have hf : f = e := by simpa using hpre
        exact hf ▸ htest s e h.1
      | cons e' pre =>
        obtain ⟨rfl, -⟩ := List.cons_prefix_cons.mp hpre
        rw [runFrom, he] at hrun
        cases hrun

/-- When guarded steps keep a property, it holds along every run whose steps are all guarded. -/
theorem along_of_steps {I : S → Prop} {G : S → E → Prop}
    (hstep : ∀ s e t, I s → G s e → step s e = .ok t → I t) {s : S} {es : List E} (hs : I s)
    (h : Steps step s es G) : Along step s es I := by
  induction es generalizing s with
  | nil => exact (along_nil step).mpr hs
  | cons e es ih =>
    intro pre u hpre hrun
    cases pre with
    | nil =>
      cases hrun
      exact hs
    | cons e' pre =>
      obtain ⟨rfl, htail⟩ := List.cons_prefix_cons.mp hpre
      obtain ⟨s', he, hrest⟩ := bind_eq_ok.mp hrun
      obtain ⟨hguard, hsteps⟩ := (steps_cons step he).mp h
      exact ih (hstep s e' s' hs hguard he) hsteps pre u htail hrest

/-- When a step from a good state ends in a good state exactly if it is guarded, a run stays
good exactly if all its steps are guarded. -/
theorem along_iff_steps (I : S → Prop) (G : S → E → Prop)
    (hstep : ∀ s e t, I s → step s e = .ok t → (I t ↔ G s e))
    {s t : S} {es : List E} (hs : I s) (h : runFrom step s es = .ok t) :
    Along step s es I ↔ Steps step s es G := by
  induction es generalizing s with
  | nil =>
    rw [along_nil]
    refine iff_of_true hs ?_
    intro pre e u hpre _
    simp at hpre
  | cons e es ih =>
    obtain ⟨s', he, hrest⟩ := bind_eq_ok.mp h
    rw [along_cons step he, steps_cons step he]
    constructor
    · rintro ⟨_, hal⟩
      have hs' : I s' := hal [] s' List.nil_prefix rfl
      exact ⟨(hstep s e s' hs he).mp hs', (ih hs' hrest).mp hal⟩
    · rintro ⟨hg, hst⟩
      have hs' : I s' := (hstep s e s' hs he).mpr hg
      exact ⟨hs, (ih hs' hrest).mpr hst⟩

/-- The same with an invariant that every step keeps, guarded or not. -/
theorem along_iff_steps_of_invariant (J P : S → Prop) (G : S → E → Prop)
    (hinv : ∀ s e t, J s → step s e = .ok t → J t)
    (hstep : ∀ s e t, J s → P s → step s e = .ok t → (P t ↔ G s e))
    {s t : S} {es : List E} (hs : J s) (hP : P s) (h : runFrom step s es = .ok t) :
    Along step s es P ↔ Steps step s es G := by
  have hboth : Along step s es (fun u => J u ∧ P u) ↔ Steps step s es G := by
    apply along_iff_steps step _ G _ ⟨hs, hP⟩ h
    rintro u e v ⟨hJ, hPu⟩ he
    rw [and_iff_right (hinv u e v hJ he)]
    exact hstep u e v hJ hPu he
  rw [← hboth]
  constructor
  · intro hal pre u hpre hrun
    exact ⟨invariant_of_run step J hinv hs hrun, hal pre u hpre hrun⟩
  · intro hal pre u hpre hrun
    exact (hal pre u hpre hrun).2

end Runs

end MimdramLean.Library

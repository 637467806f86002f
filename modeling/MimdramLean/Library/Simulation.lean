import MimdramLean.Library.Machine

/-!
# Machines with answers, and what they implement

A machine that answers every event, an abstract machine given as a relation, and the two rules for
a relation between their states: the machine can follow every run of the abstract one, or every run
of the machine is one of the abstract machine.
-/

namespace MimdramLean.Library

variable {A S E O ε : Type}

/-- The answers to a list of events, and the state after it. -/
def runAnswers (step : S → E → Except ε (O × S)) : S → List E → Except ε (List O × S)
  | s, [] => .ok ([], s)
  | s, e :: es => do
    let (o, t) ← step s e
    let (os, u) ← runAnswers step t es
    .ok (o :: os, u)

/-- A run of an abstract machine, where `spec a e o b` says that it may answer `o` and move from `a` to `b`. -/
inductive SpecRun (spec : A → E → O → A → Prop) : A → List E → List O → A → Prop
  | nil (a : A) : SpecRun spec a [] [] a
  | cons {a b c : A} {e : E} {o : O} {es : List E} {os : List O} :
    spec a e o b → SpecRun spec b es os c → SpecRun spec a (e :: es) (o :: os) c

lemma runAnswers_cons {step : S → E → Except ε (O × S)} {s t u : S} {e : E} {o : O} {es : List E} {os : List O}
    (hstep : step s e = .ok (o, t)) (hrest : runAnswers step t es = .ok (os, u)) :
    runAnswers step s (e :: es) = .ok (o :: os, u) := by
  simp only [runAnswers, hstep, hrest, ok_bind]

/-- The machine follows every run of the abstract one. -/
theorem SpecRun.follow {spec : A → E → O → A → Prop} (step : S → E → Except ε (O × S)) (R : A → S → Prop)
    (hstep : ∀ a s e o b, R a s → spec a e o b → ∃ t, step s e = .ok (o, t) ∧ R b t) {a b : A} {s : S}
    {es : List E} {os : List O} (hrun : SpecRun spec a es os b) (hs : R a s) :
    ∃ t, runAnswers step s es = .ok (os, t) ∧ R b t := by
  induction hrun generalizing s with
  | nil a => exact ⟨s, rfl, hs⟩
  | cons hspec _ ih =>
    obtain ⟨t, ht, hR⟩ := hstep _ _ _ _ _ hs hspec
    obtain ⟨u, hu, hR'⟩ := ih hR
    exact ⟨u, runAnswers_cons ht hu, hR'⟩

/-- The answers of a machine that never fails. -/
def outputs {Q : Type} (f : A → E → Q × A) : A → List E → List Q × A
  | a, [] => ([], a)
  | a, e :: es =>
    let (q, b) := f a e
    let (qs, c) := outputs f b es
    (q :: qs, c)

/-- The machine does what one that never fails does, as far as `view` shows of its answers. The relation may
depend on how many events are still to come, for a machine that only lasts so long. -/
theorem runAnswers_simulate {Q : Type} (step : S → E → Except ε (O × S)) (f : A → E → Q × A) (view : O → Q)
    (R : Nat → A → S → Prop) {G : E → Prop}
    (hstep : ∀ k a s e, R (k + 1) a s → G e → ∃ o t, step s e = .ok (o, t) ∧ view o = (f a e).1 ∧ R k (f a e).2 t)
    {a : A} {s : S} {es : List E} (hs : R es.length a s) (hes : ∀ e ∈ es, G e) :
    ∃ os t, runAnswers step s es = .ok (os, t) ∧ os.map view = (outputs f a es).1 ∧ R 0 (outputs f a es).2 t := by
  induction es generalizing a s with
  | nil => exact ⟨[], s, rfl, rfl, hs⟩
  | cons e es ih =>
    rw [List.forall_mem_cons] at hes
    obtain ⟨o, t, hrun, hview, hR⟩ := hstep es.length a s e hs hes.1
    obtain ⟨os, u, hrest, hviews, hR'⟩ := ih hR hes.2
    exact ⟨o :: os, u, runAnswers_cons hrun hrest, by rw [List.map_cons, hview, hviews]; rfl, hR'⟩

lemma runAnswers_cons_eq_ok {step : S → E → Except ε (O × S)} {s u : S} {e : E} {es : List E} {os : List O} :
    runAnswers step s (e :: es) = .ok (os, u) ↔
      ∃ o t os', step s e = .ok (o, t) ∧ runAnswers step t es = .ok (os', u) ∧ os = o :: os' := by
  simp only [runAnswers, bind_eq_ok, Prod.exists, Except.ok.injEq, Prod.mk.injEq]
  constructor
  · rintro ⟨o, t, hstep, os', u', hrest, rfl, rfl⟩
    exact ⟨o, t, os', hstep, hrest, rfl⟩
  · rintro ⟨o, t, os', hstep, hrest, rfl⟩
    exact ⟨o, t, hstep, os', u, hrest, rfl, rfl⟩

/-- What a step establishes about its answer and later steps keep, holds of all answers at the end. -/
theorem runAnswers_settled (step : S → E → Except ε (O × S)) {I : S → Prop} {G : E → Prop} {P : E → O → S → Prop}
    (hstep : ∀ s e o t, I s → G e → step s e = .ok (o, t) → I t ∧ P e o t)
    (hkeep : ∀ s e o t, I s → G e → step s e = .ok (o, t) → ∀ e' o', P e' o' s → P e' o' t)
    {s t : S} {es : List E} {os : List O} (hs : I s) (hes : ∀ e ∈ es, G e) (hrun : runAnswers step s es = .ok (os, t)) :
    I t ∧ (∀ p ∈ es.zip os, P p.1 p.2 t) ∧ ∀ e o, P e o s → P e o t := by
  induction es generalizing s os with
  | nil =>
    obtain ⟨rfl, rfl⟩ := Prod.mk.inj (Except.ok.inj hrun)
    exact ⟨hs, nofun, fun _ _ h => h⟩
  | cons e es ih =>
    rw [List.forall_mem_cons] at hes
    obtain ⟨o, m, os, hone, hrest, rfl⟩ := runAnswers_cons_eq_ok.mp hrun
    obtain ⟨hm, ho⟩ := hstep s e o m hs hes.1 hone
    obtain ⟨ht, hall, hmono⟩ := ih hm hes.2 hrest
    refine ⟨ht, ?_, fun e' o' h => hmono e' o' (hkeep s e o m hs hes.1 hone e' o' h)⟩
    rw [List.zip_cons_cons, List.forall_mem_cons]
    exact ⟨hmono e o ho, hall⟩

end MimdramLean.Library

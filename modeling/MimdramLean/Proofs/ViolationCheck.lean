import MimdramLean.LSQ
import MimdramLean.Library.Queue
import MimdramLean.Proofs.Attempts

/-!
# Memory-order violations against row operations

`checkViolations` finds the oldest load whose blocks meet those of the instruction. A row operation
describes itself as an access of 32 bytes at address zero, so the loads it is checked against are
those of the first blocks of the address space, whatever its destination row is.
-/

namespace MimdramLean.Proofs
open Library LSQUnit

variable {n : Nat} {F : Type}

/-! ### The loop over the load queue -/

lemma distance_eq (idx tail : Fin n) :
    distance idx tail = if idx ≤ tail then tail.val - idx.val else tail.val + n - idx.val := by
  have hi := idx.isLt
  have ht := tail.isLt
  unfold distance
  split
  · rename_i hle
    have hle' : idx.val ≤ tail.val := hle
    rw [show tail.val + n - idx.val = tail.val - idx.val + n by omega, Nat.add_mod_right,
      Nat.mod_eq_of_lt (by omega)]
  · rename_i hlt
    have hlt' : ¬ idx.val ≤ tail.val := hlt
    exact Nat.mod_eq_of_lt (by omega)

lemma distance_self (idx : Fin n) : distance idx idx = 0 := by simp [distance_eq]

lemma distance_incrLdIdx {idx tail : Fin n} (h : idx ≠ tail) :
    distance idx tail = distance (incrLdIdx idx) tail + 1 := by
  have hi := idx.isLt
  have ht := tail.isLt
  have hne : idx.val ≠ tail.val := fun he => h (Fin.ext he)
  simp only [distance_eq, incrLdIdx, Fin.le_def]
  split <;> split <;> simp only <;> split <;> omega

lemma incrLdIdx_val (idx : Fin n) : (incrLdIdx idx).val = (idx.val + 1) % n := by
  have hi := idx.isLt
  unfold incrLdIdx
  split
  · exact (Nat.mod_eq_of_lt ‹_›).symm
  · rw [show idx.val + 1 = n by omega, Nat.mod_self]

/-- The indices visited are those of the loop: stop at the tail, otherwise go on after this one. -/
theorem indicesFrom_eq (tail idx : Fin n) :
    indicesFrom tail idx = if idx = tail then [] else idx :: indicesFrom tail (incrLdIdx idx) := by
  split
  · subst tail
    simp [indicesFrom, distance_self]
  · rename_i h
    simp only [indicesFrom, distance_incrLdIdx h, List.range_succ_eq_map, List.map_cons, List.map_map,
      List.cons.injEq]
    refine ⟨Fin.ext (Nat.mod_eq_of_lt idx.isLt), List.map_congr_left fun k _ => Fin.ext ?_⟩
    simp only [Function.comp_apply, incrLdIdx_val, Nat.mod_add_mod]
    congr 1
    omega

/-! ### What a store records -/

/-- The loads from an index of the queue to its tail. -/
def loadsFrom (s : LSQUnit n) (idx : Fin n) : List LoadInst := (indicesFrom s.loadTail idx).map s.loadQueue

/-- For a store the loop ends at the first load in the way. -/
lemma checkLoop_store {inst : CheckedInst} (hstore : inst.isLoad = false) (s : LSQUnit n) (is : List (Fin n)) :
    checkLoop inst s is = match (is.map s.loadQueue).find? (s.conflicts inst) with
      | none => (s, none)
      | some ld => if s.hasOlderViolator ld then (s, none)
          else ({ s with memDepViolator := some ld }, some (s.violation inst ld)) := by
  induction is with
  | nil => rfl
  | cons idx is ih =>
    rw [List.map_cons, List.find?_cons, checkLoop]
    cases hc : s.conflicts inst (s.loadQueue idx) with
    | true => simp [hstore]
    | false => simpa using ih

lemma checkViolations_store {inst : CheckedInst} (hstore : inst.isLoad = false) (s : LSQUnit n) (idx : Fin n) :
    s.checkViolations idx inst = match (loadsFrom s idx).find? (s.conflicts inst) with
      | none => (s, none)
      | some ld => if s.hasOlderViolator ld then (s, none)
          else ({ s with memDepViolator := some ld }, some (s.violation inst ld)) :=
  checkLoop_store hstore s _

/-- The violator on record is `ld` or older. -/
def Recorded (s : LSQUnit n) (ld : LoadInst) : Prop :=
  ∃ v, s.memDepViolator = some v ∧ v.seqNum ≤ ld.seqNum

lemma hasOlderViolator_iff {s : LSQUnit n} {ld : LoadInst} :
    s.hasOlderViolator ld = true ↔ ∃ v, s.memDepViolator = some v ∧ v.seqNum < ld.seqNum := by
  simp [hasOlderViolator, Option.any_eq_true]

/-- After the check a violator as old as `ld` is on record exactly if one was before, or some load
not younger than `ld` is in the way. -/
lemma checkViolations_recorded_iff {inst : CheckedInst} (hstore : inst.isLoad = false) {s : LSQUnit n}
    {idx : Fin n} (hord : (loadsFrom s idx).Pairwise fun x y => x.seqNum < y.seqNum) (ld : LoadInst) :
    Recorded (s.checkViolations idx inst).1 ld ↔
      Recorded s ld ∨ ∃ c ∈ loadsFrom s idx, c.seqNum ≤ ld.seqNum ∧ s.conflicts inst c = true := by
  rw [checkViolations_store hstore]
  cases hfind : (loadsFrom s idx).find? (s.conflicts inst) with
  | none =>
    have hnone := List.find?_eq_none.mp hfind
    constructor
    · exact .inl
    · rintro (h | ⟨c, hc, -, hconf⟩)
      · exact h
      · exact absurd hconf (hnone c hc)
  | some first =>
    have hfirst : ∀ c ∈ loadsFrom s idx, s.conflicts inst c = true → first.seqNum ≤ c.seqNum :=
      fun c hc hconf => find?_le hord hfind hc hconf
    have hmem := List.mem_of_find?_eq_some hfind
    have hconf := List.find?_some hfind
    simp only
    cases holder : s.hasOlderViolator first with
    | true =>
      obtain ⟨v, hv, hlt⟩ := hasOlderViolator_iff.mp holder
      constructor
      · exact .inl
      · rintro (h | ⟨c, hc, hle, hc'⟩)
        · exact h
        · exact ⟨v, hv, (hlt.le.trans (hfirst c hc hc')).trans hle⟩
    | false =>
      constructor
      · rintro ⟨v, hv, hle⟩
        obtain rfl : first = v := by simpa using hv
        exact .inr ⟨first, hmem, hle, hconf⟩
      · intro h
        refine ⟨first, rfl, ?_⟩
        rcases h with ⟨v, hv, hle⟩ | ⟨c, hc, hle, hc'⟩
        · refine le_trans (not_lt.mp fun hlt => ?_) hle
          simp [hasOlderViolator_iff.mpr ⟨v, hv, hlt⟩] at holder
        · exact (hfirst c hc hc').trans hle

/-- The loads in the way of a row operation. -/
lemma conflicts_rowOp {s : LSQUnit n} {seqNum : Nat} {c : LoadInst} :
    s.conflicts ⟨seqNum, 0, RowOpPayload.sizeOf, false⟩ c = true ↔
      c.effAddrValid = true ∧ c.strictlyOrdered = false ∧
        c.effAddr >>> s.depCheckShift ≤ 31 >>> s.depCheckShift := by
  simp [conflicts, blocks, RowOpPayload.sizeOf, add64, sub64, and_assoc]

/-- The load has read a byte of the destination row. -/
def Stale (dest : Nat) (ld : LoadInst) : Prop :=
  ld.effAddrValid = true ∧ ∃ b ∈ ld.bytesRead, dest ≤ b ∧ b < dest + rowSize

/-- Issuing a row operation is a step of the instruction, and checks the loads if it has stored. -/
lemma executeInsts_eq_ok {s s' : LSQUnit n} {env : RowOpEnv F} {lqIdx : Fin n} {seqNum : Nat}
    {inst inst' : DynInst F} {fault : Option (StoreFault F)}
    (h : s.executeInsts env lqIdx seqNum inst = .ok (s', inst', fault)) :
    DynInst.step env inst .execute = .ok inst' ∧
      (inst'.translationCompleted = true → inst'.storeSize ≠ 0 →
        s' = (s.checkViolations lqIdx ⟨seqNum, inst'.effAddr, inst'.effSize, false⟩).1) := by
  obtain ⟨_, hen, h⟩ := bind_eq_ok.mp h
  obtain ⟨⟨t, i, f⟩, hstore, h⟩ := bind_eq_ok.mp h
  cases h
  obtain ⟨i', hinit, hstore⟩ := bind_eq_ok.mp hstore
  split at hstore
  · rename_i hdelayed
    cases hstore
    refine ⟨bind_eq_ok.mpr ⟨_, hen, bind_eq_ok.mpr ⟨_, hinit, rfl⟩⟩, fun hcomplete _ => ?_⟩
    have hdone : i.translationCompleted = true := hcomplete
    simp [DynInst.isTranslationDelayed, hdone] at hdelayed
  · split at hstore
    · rename_i hzero
      cases hstore
      exact ⟨bind_eq_ok.mpr ⟨_, hen, bind_eq_ok.mpr ⟨_, hinit, rfl⟩⟩, fun _ hne => absurd hzero hne⟩
    · obtain ⟨_, -, hstore⟩ := bind_eq_ok.mp hstore
      cases hstore
      exact ⟨bind_eq_ok.mpr ⟨_, hen, bind_eq_ok.mpr ⟨_, hinit, rfl⟩⟩, fun _ _ => rfl⟩

/-- When a row operation has been executed and stored, the younger loads that have read a byte of
its destination row have themselves or an older load on record as the violator exactly if a violator
as old was on record before, or they are preceded by a load of the first blocks of the address
space. -/
theorem stale_load_recorded_iff (s s' : LSQUnit n) (env : RowOpEnv F) (lqIdx : Fin n) (seqNum : Nat)
    (es : List DynInst.Event) (inst inst' : DynInst F) (fault : Option (StoreFault F)) (data : RowOpPayload)
    (hrun : DynInst.run env es = .ok inst)
    (hexec : s.executeInsts env lqIdx seqNum inst = .ok (s', inst', fault))
    (hdata : inst'.written = some data)
    (hord : (loadsFrom s lqIdx).Pairwise fun x y => x.seqNum < y.seqNum) :
    (∀ ld ∈ loadsFrom s lqIdx, Stale data.dest ld → Recorded s' ld) ↔
      ∀ ld ∈ loadsFrom s lqIdx, Stale data.dest ld → Recorded s ld ∨
        ∃ c ∈ loadsFrom s lqIdx, c.seqNum ≤ ld.seqNum ∧ c.effAddrValid = true ∧ c.strictlyOrdered = false ∧
          c.effAddr >>> s.depCheckShift ≤ 31 >>> s.depCheckShift := by
  obtain ⟨hstep, hcheck⟩ := executeInsts_eq_ok hexec
  have hphase := step_phase inst .execute inst' (run_phase hrun) hstep
  obtain ⟨-, hstored, hcomplete⟩ := hphase.stored hdata
  have hs' := hcheck hcomplete (by rw [hstored.storeSize]; decide)
  rw [hstored.effAddr, hstored.effSize] at hs'
  refine forall₂_congr fun ld _ => imp_congr_right fun _ => ?_
  rw [hs', checkViolations_recorded_iff rfl hord ld]
  simp only [conflicts_rowOp]

/-- A complement whose operands are translated at once, to themselves. -/
def complementRow8 : RowOpEnv Unit where
  op := .rowNot
  rdi := 65536
  rsi := 131072
  rdx := 0
  answer := fun _ vaddr => .ok (vaddr, 0)
  delayed := fun _ => false

/-- A load of eight bytes that has been executed. -/
def executedLoad (seqNum addr : Nat) : LoadInst :=
  ⟨seqNum, addr, 8, true, false, false, false, (List.range 8).map fun k => addr + k⟩

/-- A load queue with two loads; its third entry is free. -/
def twoLoads (addr addr' : Nat) : LSQUnit 3 where
  loadQueue := fun i => if i.val = 0 then executedLoad 11 addr else executedLoad 12 addr'
  loadTail := Fin.last 2
  depCheckShift := 4
  memDepViolator := none

theorem stale_load_recorded_iff_complementRow8 :
    ∃ s' inst' fault, (twoLoads 8 65536).executeInsts complementRow8 0 10 (DynInst.fetched Unit) =
        .ok (s', inst', fault) ∧
      ((∀ ld ∈ loadsFrom (twoLoads 8 65536) 0, Stale 65536 ld → Recorded s' ld) ↔
        ∀ ld ∈ loadsFrom (twoLoads 8 65536) 0, Stale 65536 ld → Recorded (twoLoads 8 65536) ld ∨
          ∃ c ∈ loadsFrom (twoLoads 8 65536) 0, c.seqNum ≤ ld.seqNum ∧ c.effAddrValid = true ∧
            c.strictlyOrdered = false ∧ c.effAddr >>> 4 ≤ 31 >>> 4) := by
  obtain ⟨⟨s', inst', fault⟩, hexec, hw⟩ := exists_of_okWith
    (x := (twoLoads 8 65536).executeInsts complementRow8 0 10 (DynInst.fetched Unit))
    (P := fun r => r.2.1.written == some ⟨.rowNot, 65536, 131072, 0⟩) (by decide +kernel)
  exact ⟨s', inst', fault, hexec, stale_load_recorded_iff (twoLoads 8 65536) s' complementRow8 0 10 []
    (DynInst.fetched Unit) inst' fault ⟨.rowNot, 65536, 131072, 0⟩ rfl hexec (by simpa using hw) (by decide)⟩

/-- Both loads have read the row that the row operation overwrites, and none is on record. -/
theorem stale_loads_missed :
    ∃ s' inst' fault, (twoLoads 65536 65600).executeInsts complementRow8 0 10 (DynInst.fetched Unit) =
        .ok (s', inst', fault) ∧ inst'.written = some ⟨.rowNot, 65536, 131072, 0⟩ ∧
      executedLoad 11 65536 ∈ loadsFrom (twoLoads 65536 65600) 0 ∧ Stale 65536 (executedLoad 11 65536) ∧
      ¬ Recorded s' (executedLoad 11 65536) := by
  obtain ⟨⟨s', inst', fault⟩, hexec, hw⟩ := exists_of_okWith
    (x := (twoLoads 65536 65600).executeInsts complementRow8 0 10 (DynInst.fetched Unit))
    (P := fun r => r.2.1.written == some ⟨.rowNot, 65536, 131072, 0⟩ && r.1.memDepViolator == none)
    (by decide +kernel)
  simp only [Bool.and_eq_true, beq_iff_eq] at hw
  refine ⟨s', inst', fault, hexec, hw.1, by decide, ⟨rfl, 65536, by decide, by decide⟩, ?_⟩
  rintro ⟨v, hv, -⟩
  simp [hw.2] at hv

end MimdramLean.Proofs

import Mathlib.Algebra.Order.BigOperators.Group.Finset
import MimdramLean.Proofs.RangeQuery

/-!
# The range query on 128-bit vectors

The masks of a group decide each of its lanes as far as the columns have been read. The program counts
after every column, so a lane counts once for every column from the one that decides it on, and it writes the
lanes that match over the first vectors of its input. One iteration still reads every vector before it
writes to it; the next one starts from other numbers.
-/

namespace MimdramLean.Proofs

open Library

lemma popcount_eq (v : BitVec 128) : popcount v = BitVec.ofNat 32 ((List.range 128).countP v.getLsbD) := by
  have hword : ∀ w, (List.range 32).countP (v.extractLsb' (32 * w) 32).getLsbD =
      (List.range 32).countP fun l => v.getLsbD (32 * w + l) := by
    intro w
    apply countP_range_congr
    intro l hl
    rw [BitVec.getLsbD_extractLsb', decide_eq_true hl, Bool.true_and]
  have hwords := countP_range_mul v.getLsbD 32 4
  simp only [Finset.sum_range_succ, Finset.sum_range_zero, ← hword, Nat.zero_add] at hwords
  rw [popcount, upopcount_eq, upopcount_eq, upopcount_eq, upopcount_eq, ← BitVec.ofNat_add, ← BitVec.ofNat_add,
    ← BitVec.ofNat_add, hwords]

namespace BitweaveBaseline

open MimdramLean.BitweaveBaseline

/-! ### The masks of a group -/

section Masks

variable (c1 c2 : BitVec 32) (n : Nat) (vecs : Nat → BitVec 128)

/-- The masks of group `i` after `j` columns. -/
def masksAfter (i j : Nat) : Masks :=
  (List.range j).foldl (fun s j => s.compare (constVec c1 j) (constVec c2 j) (vecs (i * n + j))) Masks.start

lemma masksAfter_succ (i j : Nat) :
    masksAfter c1 c2 n vecs i (j + 1) =
      (masksAfter c1 c2 n vecs i j).compare (constVec c1 j) (constVec c2 j) (vecs (i * n + j)) :=
  foldl_range_succ _ j _

/-- The number in a lane of a group, as far as its first `j` columns tell. -/
def laneValue (i l j : Nat) : Nat := msbValue (fun j => (vecs (i * n + j)).getLsbD l) (List.range j)

lemma constVec_bit (c : BitVec 32) (j : Nat) {l : Nat} (hl : l < 128) :
    (constVec c j).getLsbD l = bitTest c j := by
  rw [constVec]
  split
  case isTrue h => rw [BitVec.getLsbD_allOnes, h, decide_eq_true hl]
  case isFalse h => rw [Bool.eq_false_iff.mpr h]; exact BitVec.getLsbD_zero

/-- A bit of the masks goes through both comparisons. -/
lemma compare_bit (s : Masks) (j : Nat) (vec : BitVec 128) {l : Nat} (hl : l < 128) :
    let t := s.compare (constVec c1 j) (constVec c2 j) vec
    (t.mgt.getLsbD l, t.meq1.getLsbD l) =
        compareStep (s.mgt.getLsbD l, s.meq1.getLsbD l) (bitTest c1 j) (vec.getLsbD l) ∧
      (t.mlt.getLsbD l, t.meq2.getLsbD l) =
        compareStep (s.mlt.getLsbD l, s.meq2.getLsbD l) (vec.getLsbD l) (bitTest c2 j) := by
  dsimp only [Masks.compare, compareStep]
  have hnot : ∀ v : BitVec 128, (~~~v).getLsbD l = !v.getLsbD l := by
    intro v
    rw [BitVec.getLsbD_not, decide_eq_true hl, Bool.true_and]
  simp only [BitVec.getLsbD_or, BitVec.getLsbD_and, BitVec.getLsbD_xor, hnot, constVec_bit _ _ hl]
  cases bitTest c1 j <;> cases bitTest c2 j <;> cases vec.getLsbD l <;> simp

lemma masksAfter_flags (i j : Nat) {l : Nat} (hl : l < 128) :
    let t := masksAfter c1 c2 n vecs i j
    (t.mgt.getLsbD l, t.meq1.getLsbD l) = (List.range j).foldl
        (fun p j => compareStep p (bitTest c1 j) ((vecs (i * n + j)).getLsbD l)) (false, true) ∧
      (t.mlt.getLsbD l, t.meq2.getLsbD l) = (List.range j).foldl
        (fun p j => compareStep p ((vecs (i * n + j)).getLsbD l) (bitTest c2 j)) (false, true) := by
  dsimp only
  induction j with
  | zero =>
    have hzero : (0#128).getLsbD l = false := BitVec.getLsbD_zero
    have hones : (BitVec.allOnes 128).getLsbD l = true := by rw [BitVec.getLsbD_allOnes, decide_eq_true hl]
    exact ⟨Prod.ext hzero hones, Prod.ext hzero hones⟩
  | succ j ih =>
    have hstep := compare_bit c1 c2 (masksAfter c1 c2 n vecs i j) j (vecs (i * n + j)) hl
    rw [ih.1, ih.2] at hstep
    rw [masksAfter_succ, foldl_range_succ, foldl_range_succ]
    exact hstep

/-- The masks decide every lane as far as the columns have been read. -/
lemma masksAfter_bit (i j : Nat) {l : Nat} (hl : l < 128) :
    ((masksAfter c1 c2 n vecs i j).mgt &&& (masksAfter c1 c2 n vecs i j).mlt).getLsbD l =
      between c1 c2 j (laneValue n vecs i l j) := by
  obtain ⟨hlower, hupper⟩ := masksAfter_flags c1 c2 n vecs i j hl
  rw [foldl_compareStep, Prod.mk.injEq] at hlower hupper
  rw [BitVec.getLsbD_and, hlower.1, hupper.1, between, Bool.decide_and]
  rfl

end Masks

/-! ### One iteration -/

section Iteration

variable (c1 c2 : BitVec 32) (n : Nat) (vecs : Nat → BitVec 128)

/-- What is stored for group `i` after `j` columns. -/
def stored (i j : Nat) : BitVec 128 := (masksAfter c1 c2 n vecs i j).mgt &&& (masksAfter c1 c2 n vecs i j).mlt

/-- The lanes of group `i` that the masks let through after `j` columns. -/
def decided (i j : Nat) : Nat := (List.range 128).countP fun l => between c1 c2 j (laneValue n vecs i l j)

lemma popcount_stored (i j : Nat) :
    popcount (stored c1 c2 n vecs i j) = BitVec.ofNat 32 (decided c1 c2 n vecs i j) := by
  rw [popcount_eq, decided]
  congr 1
  apply countP_range_congr
  intro l hl
  rw [stored, masksAfter_bit c1 c2 n vecs i j hl]

/-- Group `i` after `j` columns, from a state where the vectors from `i` on are those of the start. -/
structure InGroup (q : Query) (i j : Nat) (s : Masks × Query) : Prop where
  masks : s.1 = masksAfter c1 c2 n vecs i j
  buffer : s.2.vecs = if j = 0 then q.vecs else Function.update q.vecs i (stored c1 c2 n vecs i j)
  result : s.2.result = q.result + BitVec.ofNat 32 (∑ j' ∈ Finset.range j, decided c1 c2 n vecs i (j' + 1))

variable {c1 c2 n vecs}

lemma InGroup.succ {q : Query} {i j : Nat} {s : Masks × Query} (h : InGroup c1 c2 n vecs q i j s)
    (hq : ∀ x, i ≤ x → q.vecs x = vecs x) (hj : j < n) :
    InGroup c1 c2 n vecs q i (j + 1) (column c1 c2 n i s j) := by
  -- the vector that is read has not been written in this group
  have hread : s.2.vecs (i * n + j) = vecs (i * n + j) := by
    have hle : i ≤ i * n := Nat.le_mul_of_pos_right i (by omega)
    rw [h.buffer]
    split
    case isTrue => exact hq _ (by omega)
    case isFalse hj0 => rw [Function.update_of_ne (by omega), hq _ (by omega)]
  have hmasks : s.1.compare (constVec c1 j) (constVec c2 j) (s.2.vecs (i * n + j)) =
      masksAfter c1 c2 n vecs i (j + 1) := by
    rw [hread, h.masks, masksAfter_succ]
  have hupdate : Function.update s.2.vecs i (stored c1 c2 n vecs i (j + 1)) =
      Function.update q.vecs i (stored c1 c2 n vecs i (j + 1)) := by
    rw [h.buffer]
    split
    · rfl
    · exact Function.update_idem _ _ _
  have hcolumn : column c1 c2 n i s j = (masksAfter c1 c2 n vecs i (j + 1),
      ⟨Function.update q.vecs i (stored c1 c2 n vecs i (j + 1)),
        s.2.result + popcount (stored c1 c2 n vecs i (j + 1))⟩) := by
    rw [column, hmasks, ← stored, hupdate, Function.update_self]
  rw [hcolumn]
  refine ⟨rfl, (if_neg (Nat.succ_ne_zero j)).symm, ?_⟩
  rw [h.result, popcount_stored, Finset.sum_range_succ, BitVec.ofNat_add, BitVec.add_assoc]

lemma group_eq (hn : 1 ≤ n) {q : Query} {i : Nat} (hq : ∀ x, i ≤ x → q.vecs x = vecs x) :
    group c1 c2 n q i = ⟨Function.update q.vecs i (stored c1 c2 n vecs i n),
      q.result + BitVec.ofNat 32 (∑ j ∈ Finset.range n, decided c1 c2 n vecs i (j + 1))⟩ := by
  have hcolumns : ∀ j ≤ n, InGroup c1 c2 n vecs q i j
      ((List.range j).foldl (column c1 c2 n i) (Masks.start, q)) := by
    intro j hj
    induction j with
    | zero => exact ⟨rfl, rfl, by simp⟩
    | succ j ih =>
      rw [List.range_succ, List.foldl_append]
      exact (ih (by omega)).succ hq hj
  obtain ⟨-, hbuffer, hresult⟩ := hcolumns n (Nat.le_refl n)
  rw [if_neg (by omega)] at hbuffer
  rw [group, forLoop_zero_one, ← hbuffer, ← hresult]

variable (c1 c2 n vecs)

/-- The buffer after an iteration over `G` groups. -/
def written (G : Nat) : Nat → BitVec 128 := fun x => if x < G then stored c1 c2 n vecs x n else vecs x

/-- How often an iteration over `G` groups counts a lane, all in all. -/
def total (G : Nat) : Nat :=
  ∑ i ∈ Finset.range G, ∑ j ∈ Finset.range n, decided c1 c2 n vecs i (j + 1)

theorem iteration_eq (hn : 1 ≤ n) (k : Nat) :
    iteration c1 c2 n k vecs =
      ⟨written c1 c2 n vecs (perColVecs k), BitVec.ofNat 32 (total c1 c2 n vecs (perColVecs k))⟩ := by
  have hgroups : ∀ G, (List.range G).foldl (group c1 c2 n) ⟨vecs, 0⟩ =
      ⟨written c1 c2 n vecs G, BitVec.ofNat 32 (total c1 c2 n vecs G)⟩ := by
    intro G
    induction G with
    | zero => rfl
    | succ G ih =>
      have hunread : ∀ x, G ≤ x → written c1 c2 n vecs G x = vecs x := by
        intro x hx
        rw [written, if_neg (by omega)]
      have hwrite : Function.update (written c1 c2 n vecs G) G (stored c1 c2 n vecs G n) =
          written c1 c2 n vecs (G + 1) := by
        funext x
        rcases Nat.lt_trichotomy x G with h | rfl | h
        · rw [Function.update_of_ne h.ne, written, written, if_pos h, if_pos (by omega)]
        · rw [Function.update_self, written, if_pos (by omega)]
        · rw [Function.update_of_ne h.ne', written, written, if_neg (by omega), if_neg (by omega)]
      rw [foldl_range_succ, ih, group_eq hn hunread, hwrite,
        ← BitVec.ofNat_add, total, total, Finset.sum_range_succ]
  rw [iteration, forLoop_zero_one, hgroups]

/-- The lanes with a number between the constants. -/
def matching (k : Nat) : Nat :=
  (List.range (1024 <<< k)).countP fun a => between c1 c2 n (laneValue n vecs (a / 128) (a % 128) n)

lemma matching_eq (k : Nat) :
    matching c1 c2 n vecs k = ∑ i ∈ Finset.range (perColVecs k), decided c1 c2 n vecs i n := by
  have hlanes : 1024 <<< k = 128 * perColVecs k := by
    rw [perColVecs, Nat.shiftLeft_eq]
    omega
  rw [matching, hlanes, countP_range_mul]
  apply Finset.sum_congr rfl
  intro i _
  apply countP_range_congr
  intro l hl
  rw [Nat.mul_add_div (by omega), Nat.mul_add_mod, Nat.div_eq_of_lt hl, Nat.mod_eq_of_lt hl, Nat.add_zero]

end Iteration

/-! ### Lanes that are counted once -/

section Once

variable {c1 c2 : BitVec 32} {n : Nat}

/-- A lane that is decided stays so. -/
lemma between_mono {x : Nat → Bool} {i j : Nat} (hij : i ≤ j)
    (h : between c1 c2 i (msbValue x (List.range i)) = true) :
    between c1 c2 j (msbValue x (List.range j)) = true := by
  obtain ⟨d, rfl⟩ := Nat.exists_eq_add_of_le hij
  simp only [between_iff, constValue, List.range_add] at h ⊢
  exact ⟨msbValue_lt_append _ h.1, msbValue_lt_append _ h.2⟩

variable (c1 c2 n) in
/-- The number differs from one of the constants, its neighbour, in the last bit only. -/
def AtEdge (V : Nat) : Prop :=
  (V = constValue c1 n + 1 ∧ constValue c1 n % 2 = 0) ∨ (V + 1 = constValue c2 n ∧ constValue c2 n % 2 = 1)

variable (c1 c2 n) in
instance (V : Nat) : Decidable (AtEdge c1 c2 n V) := inferInstanceAs (Decidable (_ ∨ _))

/-- The columns before the last decide a lane exactly if its number matches and is not at an edge. -/
lemma between_prev_iff (x : Nat → Bool) (N : Nat) :
    between c1 c2 N (msbValue x (List.range N)) = true ↔
      between c1 c2 (N + 1) (msbValue x (List.range (N + 1))) = true ∧
        ¬AtEdge c1 c2 (N + 1) (msbValue x (List.range (N + 1))) := by
  simp only [between_iff, AtEdge, constValue, List.range_succ, msbValue_concat]
  have hbit1 := Bool.toNat_le (bitTest c1 N)
  have hbit2 := Bool.toNat_le (bitTest c2 N)
  have hbit := Bool.toNat_le (x N)
  omega

variable (c1 c2 n) (k : Nat) (vecs : Nat → BitVec 128)

/-- Every lane that matches is decided by its last column. -/
def LastColumnDecides : Prop :=
  ∀ i < perColVecs k, ∀ l < 128, between c1 c2 n (laneValue n vecs i l n) = true →
    AtEdge c1 c2 n (laneValue n vecs i l n)

lemma decided_prev_eq_zero_iff (N i : Nat) :
    decided c1 c2 (N + 1) vecs i N = 0 ↔ ∀ l < 128,
      between c1 c2 (N + 1) (laneValue (N + 1) vecs i l (N + 1)) = true →
        AtEdge c1 c2 (N + 1) (laneValue (N + 1) vecs i l (N + 1)) := by
  rw [decided, List.countP_eq_zero]
  simp only [List.mem_range, laneValue]
  refine forall₂_congr fun l _ => ?_
  rw [between_prev_iff, not_and, not_not]

lemma decided_le (i j : Nat) : decided c1 c2 n vecs i j ≤ 128 := by
  refine List.countP_le_length.trans ?_
  rw [List.length_range]

lemma decided_mono (i : Nat) {j j' : Nat} (h : j ≤ j') : decided c1 c2 n vecs i j ≤ decided c1 c2 n vecs i j' :=
  List.countP_mono_left fun _ _ => between_mono h

/-- What is counted in columns before the last comes on top of the lanes that match. -/
lemma total_succ (N G : Nat) :
    total c1 c2 (N + 1) vecs G =
      (∑ i ∈ Finset.range G, ∑ j ∈ Finset.range N, decided c1 c2 (N + 1) vecs i (j + 1)) +
        ∑ i ∈ Finset.range G, decided c1 c2 (N + 1) vecs i (N + 1) := by
  simp only [total, Finset.sum_range_succ _ N, Finset.sum_add_distrib]

lemma total_le (G : Nat) : total c1 c2 n vecs G ≤ G * (n * 128) := by
  have hle : total c1 c2 n vecs G ≤ ∑ _i ∈ Finset.range G, ∑ _j ∈ Finset.range n, 128 :=
    Finset.sum_le_sum fun i _ => Finset.sum_le_sum fun j _ => decided_le c1 c2 n vecs i (j + 1)
  simpa using hle

/-- Nothing comes on top exactly if no group has a lane that is decided before its last column. -/
lemma total_eq_matching_iff (N : Nat) :
    total c1 c2 (N + 1) vecs (perColVecs k) = matching c1 c2 (N + 1) vecs k ↔
      LastColumnDecides c1 c2 (N + 1) k vecs := by
  rw [total_succ, matching_eq, Nat.add_eq_right, Finset.sum_eq_zero_iff, LastColumnDecides]
  simp only [Finset.mem_range, ← decided_prev_eq_zero_iff]
  refine forall₂_congr fun i _ => ?_
  rw [Finset.sum_eq_zero_iff]
  simp only [Finset.mem_range]
  constructor
  · intro hzero
    cases N with
    | zero =>
      rw [decided, List.countP_eq_zero]
      simp [laneValue, between, constValue, msbValue_nil]
    | succ N => exact hzero N (Nat.lt_succ_self N)
  · intro hzero j hj
    exact Nat.eq_zero_of_le_zero ((decided_mono _ _ _ vecs i hj).trans hzero.le)

/-- An iteration counts the lanes between the constants exactly if every one of them is decided by its last
column. The bound says that `total_bits` is an `int`. -/
lemma iteration_right_iff (hn : 1 ≤ n) (hbits : n * 1024 <<< k < 2 ^ 31) :
    (iteration c1 c2 n k vecs).result.toNat = matching c1 c2 n vecs k ↔ LastColumnDecides c1 c2 n k vecs := by
  have hlanes : perColVecs k * (n * 128) = n * 1024 <<< k := by
    rw [perColVecs, Nat.shiftLeft_eq, show 1024 * 2 ^ k = 8 * 2 ^ k * 128 by omega,
      Nat.mul_div_cancel _ (by omega)]
    ring
  have hle := total_le c1 c2 n vecs (perColVecs k)
  obtain ⟨N, rfl⟩ := Nat.exists_eq_add_of_le' hn
  rw [iteration_eq _ _ _ _ hn, BitVec.toNat_ofNat, Nat.mod_eq_of_lt (by omega), total_eq_matching_iff]

/-- The lanes of group `i` that match. -/
def matchVec (i : Nat) : BitVec 128 :=
  (BitVec.ofBoolListLE ((List.range 128).map fun l => between c1 c2 n (laneValue n vecs i l n))).setWidth 128

/-- The buffer with the first vectors replaced by the lanes that match in the group of their number. -/
def overwritten : Nat → BitVec 128 := fun x => if x < perColVecs k then matchVec c1 c2 n vecs x else vecs x

lemma matchVec_bit (i : Nat) {l : Nat} (hl : l < 128) :
    (matchVec c1 c2 n vecs i).getLsbD l = between c1 c2 n (laneValue n vecs i l n) := by
  rw [matchVec, BitVec.getLsbD_setWidth, BitVec.getLsbD_ofBoolListLE, decide_eq_true hl, Bool.true_and]
  simp [hl]

lemma written_eq_overwritten : written c1 c2 n vecs (perColVecs k) = overwritten c1 c2 n k vecs := by
  funext x
  unfold written overwritten
  split
  · apply BitVec.eq_of_getLsbD_eq
    intro l hl
    rw [stored, masksAfter_bit c1 c2 n vecs x n hl, matchVec_bit c1 c2 n vecs x hl]
  · rfl

end Once

/-! ### Buffers that use one lane -/

section OneLane

variable (c1 c2 : BitVec 32) (n : Nat) (x : Nat → Bool)

/-- A buffer with bits in the first lane of each group only. -/
def oneLane : Nat → BitVec 128 := fun a => if x a then 1 else 0

/-- Whether the lane of group `i` has been found to be between the constants after `j` columns. -/
def hit (i j : Nat) : Bool := between c1 c2 j (msbValue (fun j => x (i * n + j)) (List.range j))

/-- The bits of the lane after an iteration over `G` groups. -/
def next (G : Nat) : Nat → Bool := fun a => if a < G then hit c1 c2 n x a n else x a

lemma oneLane_bit (a l : Nat) : (oneLane x a).getLsbD l = (x a && decide (l = 0)) := by
  unfold oneLane
  cases x a with
  | false => simp
  | true => simp [BitVec.getLsbD_one]

lemma between_zero (j : Nat) : between c1 c2 j 0 = false := by simp [between]

lemma between_laneValue_oneLane (i l j : Nat) :
    between c1 c2 j (laneValue n (oneLane x) i l j) = (hit c1 c2 n x i j && decide (l = 0)) := by
  simp only [laneValue, oneLane_bit]
  by_cases hl : l = 0
  · simp only [hl, decide_true, Bool.and_true, hit]
  · have hnone : msbValue (fun j => x (i * n + j) && decide (l = 0)) (List.range j) = 0 :=
      msbValue_eq_zero fun j _ => by rw [decide_eq_false hl, Bool.and_false]
    rw [hnone, between_zero, decide_eq_false hl, Bool.and_false]

lemma decided_oneLane (i j : Nat) : decided c1 c2 n (oneLane x) i j = (hit c1 c2 n x i j).toNat := by
  simp only [decided, between_laneValue_oneLane]
  cases hit c1 c2 n x i j with
  | false => simp
  | true => decide

lemma written_oneLane (G : Nat) : written c1 c2 n (oneLane x) G = oneLane (next c1 c2 n x G) := by
  funext a
  apply BitVec.eq_of_getLsbD_eq
  intro l hl
  rw [written, oneLane_bit, next]
  split
  · rw [stored, masksAfter_bit c1 c2 n (oneLane x) a n hl, between_laneValue_oneLane]
  · rw [oneLane_bit]

/-- How often the lane of a group is counted. -/
def hits (i : Nat) : Nat := ∑ j ∈ Finset.range n, (hit c1 c2 n x i (j + 1)).toNat

lemma total_oneLane (G : Nat) : total c1 c2 n (oneLane x) G = ∑ i ∈ Finset.range G, hits c1 c2 n x i := by
  simp only [total, decided_oneLane, hits]

lemma matching_oneLane (k : Nat) : matching c1 c2 n (oneLane x) k =
    ∑ i ∈ Finset.range (perColVecs k), (hit c1 c2 n x i n).toNat := by
  simp only [matching_eq, decided_oneLane]

variable {c1 c2 n x}

/-- Only lane 0 counts. -/
lemma lastColumnDecides_oneLane {k : Nat}
    (h : ∀ i < perColVecs k, hit c1 c2 n x i n = true →
      AtEdge c1 c2 n (msbValue (fun j => x (i * n + j)) (List.range n))) :
    LastColumnDecides c1 c2 n k (oneLane x) := by
  intro i hi l _ hmatch
  rw [between_laneValue_oneLane, Bool.and_eq_true, decide_eq_true_eq] at hmatch
  obtain ⟨hhit, rfl⟩ := hmatch
  have hvalue : laneValue n (oneLane x) i 0 n = msbValue (fun j => x (i * n + j)) (List.range n) := by
    simp only [laneValue, oneLane_bit, decide_true, Bool.and_true]
  rw [hvalue]
  exact h i hi hhit

end OneLane

/-! ### Both iterations -/

/-- Both iterations count the lanes between the constants and come to the same number exactly if every lane that
matches is decided by its last column, before the first iteration and after the vectors that it writes, and these
leave the number of lanes that match as it is. -/
theorem iterations_right_iff (c1 c2 : BitVec 32) {n : Nat} (k : Nat) (vecs : Nat → BitVec 128) (hn : 1 ≤ n)
    (hbits : n * 1024 <<< k < 2 ^ 31) :
    ((iteration c1 c2 n k vecs).result.toNat = matching c1 c2 n vecs k ∧
      (iteration c1 c2 n k (iteration c1 c2 n k vecs).vecs).result.toNat =
        matching c1 c2 n (iteration c1 c2 n k vecs).vecs k ∧
      (iteration c1 c2 n k (iteration c1 c2 n k vecs).vecs).result = (iteration c1 c2 n k vecs).result) ↔
      LastColumnDecides c1 c2 n k vecs ∧ LastColumnDecides c1 c2 n k (overwritten c1 c2 n k vecs) ∧
        matching c1 c2 n (overwritten c1 c2 n k vecs) k = matching c1 c2 n vecs k := by
  have hvecs : (iteration c1 c2 n k vecs).vecs = overwritten c1 c2 n k vecs := by
    rw [iteration_eq _ _ _ _ hn, written_eq_overwritten]
  rw [hvecs, ← iteration_right_iff c1 c2 n k vecs hn hbits,
    ← iteration_right_iff c1 c2 n k (overwritten c1 c2 n k vecs) hn hbits]
  refine and_congr_right fun hfirst => and_congr_right fun hsecond => ?_
  rw [← hfirst, ← hsecond, BitVec.toNat_inj]

/-- The number 1 in the first lane of group 3 of two columns. -/
def oneInGroup3 : Nat → BitVec 128 := oneLane fun a => decide (a = 7)

/-- Between 0 and 2, it is counted once; the bit that is written for group 3 is the last bit of group 1, where the
second iteration counts it. -/
theorem iterations_right_oneInGroup3 :
    2 * 1024 <<< 0 < 2 ^ 31 ∧ matching 0 1 2 oneInGroup3 0 = 1 ∧
      (iteration 0 1 2 0 oneInGroup3).result = 1 ∧
      (iteration 0 1 2 0 (iteration 0 1 2 0 oneInGroup3).vecs).result = 1 := by
  have hmatching : matching 0 1 2 oneInGroup3 0 = 1 := by
    rw [oneInGroup3, matching_oneLane]
    decide
  have hnext : overwritten 0 1 2 0 oneInGroup3 =
      oneLane (next 0 1 2 (fun a => decide (a = 7)) (perColVecs 0)) := by
    rw [← written_eq_overwritten, oneInGroup3, written_oneLane]
  have hright := (iterations_right_iff 0 1 0 oneInGroup3 (show 1 ≤ 2 by decide) (by decide)).mpr (by
    rw [hnext, hmatching, matching_oneLane]
    exact ⟨lastColumnDecides_oneLane (by decide), lastColumnDecides_oneLane (by decide), by decide⟩)
  obtain ⟨hfirst, _, hsame⟩ := hright
  have hone : (iteration 0 1 2 0 oneInGroup3).result = 1 := by
    rw [← BitVec.toNat_inj, hfirst, hmatching]
    rfl
  exact ⟨by decide, hmatching, hone, hsame.trans hone⟩

/-- The number 2 in the first lane of all groups of three columns. -/
def allTwos : Nat → BitVec 128 := oneLane fun a => decide (a % 3 = 1)

/-- Between 0 and 7, it is decided by the second column and counted from there on; the first groups are
overwritten. -/
theorem iterations_count_twice :
    matching 0 7 3 allTwos 0 = 8 ∧ (iteration 0 7 3 0 allTwos).result = 16 ∧
      (iteration 0 7 3 0 (iteration 0 7 3 0 allTwos).vecs).result = 11 := by
  simp only [allTwos, iteration_eq _ _ 3 _ (show 1 ≤ 3 by omega), written_oneLane, total_oneLane, matching_oneLane]
  decide

end BitweaveBaseline

end MimdramLean.Proofs

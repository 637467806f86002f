import MimdramLean.Library.Binary
import MimdramLean.Library.SetBits
import MimdramLean.Proofs.Allocation
import MimdramLean.Proofs.RowOps
import MimdramLean.RangeQuery

/-!
# The range query on row operations

Every row operation works on each bit of its rows alone, so an iteration does to a lane what its operations do
to the lane's bits, and a comparison bit by bit gives the masks. The words of the masks are set to 1,
not to all ones, and the rows may be longer than the vectors; the count is right if the lanes that are
left out for the first reason are as many as those that come in for the second.
-/

namespace MimdramLean.Proofs

open Library

/-! ### The population count -/

lemma upopcount_toNat (v : BitVec 32) : (upopcount v).toNat = (List.range 32).countP v.toNat.testBit := by
  have hpairs : (v - ((v >>> 1) &&& 0x55555555#32)).toNat = pairSums v.toNat (repeated 0x55 4) := by
    rw [BitVec.toNat_sub_of_le]
    · rfl
    · exact Nat.and_le_left.trans (Nat.shiftRight_le v.toNat 1)
  rw [upopcount]
  generalize v - ((v >>> 1) &&& 0x55555555#32) = p at hpairs ⊢
  have hmasked : ∀ x : BitVec 32, (x &&& 0x33333333#32).toNat ≤ 0x33333333 := fun x => Nat.and_le_right
  have hroom := Nat.add_le_add (hmasked p) (hmasked (p >>> 2))
  have hnibbles : ((p &&& 0x33333333#32) + ((p >>> 2) &&& 0x33333333#32)).toNat =
      nibbleSums p.toNat (repeated 0x33 4) := BitVec.toNat_add_of_lt (hroom.trans_lt (by decide))
  rw [← BitVec.toNat_add_of_lt (hroom.trans_lt (by decide))] at hroom
  generalize (p &&& 0x33333333#32) + ((p >>> 2) &&& 0x33333333#32) = q at hnibbles hroom ⊢
  have hshift : (q >>> 4).toNat ≤ q.toNat := Nat.shiftRight_le q.toNat 4
  have hbytes : ((q + (q >>> 4)) &&& 0x0F0F0F0F#32).toNat = byteSums q.toNat (repeated 0x0F 4) := by
    rw [BitVec.toNat_and, BitVec.toNat_add_of_lt (by omega)]
    rfl
  rw [← popcount_word v.isLt, wordSums, ← hpairs, ← hnibbles, ← hbytes, BitVec.toNat_ushiftRight, BitVec.toNat_mul,
    Nat.shiftRight_eq_div_pow]
  rfl

lemma upopcount_eq (v : BitVec 32) : upopcount v = BitVec.ofNat 32 ((List.range 32).countP v.getLsbD) := by
  apply BitVec.eq_of_toNat_eq
  have hle : (List.range 32).countP v.toNat.testBit ≤ 32 := List.countP_le_length
  have hbits : v.getLsbD = v.toNat.testBit := funext fun i => (BitVec.testBit_toNat v).symm
  rw [upopcount_toNat, BitVec.toNat_ofNat, hbits, Nat.mod_eq_of_lt (by omega)]

/-! ### The constants -/

/-- The number whose bits, most significant first, are the bits of a constant from bit 0 on. -/
def constValue (c : BitVec 32) (n : Nat) : Nat := msbValue (bitTest c) (List.range n)

/-- Whether a number is between two constants of `n` bits. -/
def between (c1 c2 : BitVec 32) (n V : Nat) : Bool := decide (constValue c1 n < V ∧ V < constValue c2 n)

lemma between_iff {c1 c2 : BitVec 32} {n V : Nat} :
    between c1 c2 n V = true ↔ constValue c1 n < V ∧ V < constValue c2 n := decide_eq_true_iff

namespace BitweaveAmbit

open MimdramLean.BitweaveAmbit

variable {n k : Nat}

/-! ### Row operations on a lane -/

/-- The rows of two vectors do not overlap, although they may be longer than the vectors. -/
lemma rows_apart (B : Blocks n k) {u v : Vec n} (h : u ≠ v) :
    B.ptr u + perColRowsFor k * rowSize ≤ B.ptr v ∨ B.ptr v + perColRowsFor k * rowSize ≤ B.ptr u := by
  have hdisjoint := B.disjoint u v h
  rcases Nat.lt_or_ge k 6 with hk | hk
  · obtain ⟨hpos, _, hrows⟩ := perColBytes_lt_row hk
    obtain ⟨a, ha⟩ := B.aligned u
    obtain ⟨b, hb⟩ := B.aligned v
    rw [hrows, rowSize]
    simp only [alignment, rowSize, rowsPerVector] at ha hb
    omega
  · rwa [perColBytes_eq_rows hk] at hdisjoint

/-- The bits of a lane. -/
def lane (B : Blocks n k) (m : Memory) (i : Nat) (v : Vec n) : Bool := memBit m (B.ptr v) i

/-- What an operation does to the bits of a lane. -/
def onLane (s : Vec n → Bool) : Rowop n → Vec n → Bool
  | .and d s1 s2 => Function.update s d (s s1 && s s2)
  | .or d s1 s2 => Function.update s d (s s1 || s s2)
  | .not d s1 => Function.update s d (!s s1)

/-- The lanes of the rows of a vector. -/
def lanes (k : Nat) : Nat := perColRowsFor k * (8 * rowSize)

variable (B : Blocks n k)

lemma row_end_le {r R : Nat} (hr : r < R) : r * rowSize + rowSize ≤ R * rowSize := by
  rw [← Nat.succ_mul]
  exact Nat.mul_le_mul_right _ hr

lemma rows_sameOrApart {r : Nat} (hr : r < perColRowsFor k) (u v : Vec n) :
    SameOrApart (B.ptr u + r * rowSize) (B.ptr v + r * rowSize) := by
  by_cases h : u = v
  · exact Or.inl (by rw [h])
  · have hapart := rows_apart B h
    have hlast := row_end_le hr
    unfold SameOrApart
    omega

/-- The row of a lane is the row of its byte. -/
lemma lane_row_iff (i r : Nat) :
    i / (8 * rowSize) = r ↔ r * rowSize ≤ i / 8 ∧ i / 8 < r * rowSize + rowSize := by
  rw [rowSize]
  omega

/-- A bitwise operation on row `r` of some vectors works on the lanes of this row. -/
lemma lane_access {r : Nat} (hr : r < perColRowsFor k) {op : RowOp} {f : Bool → Bool → Bool}
    (hop : bitOp op = some f) {src2 : Nat} (d a b : Vec n) (h2 : op ≠ .rowNot → src2 = B.ptr b + r * rowSize)
    (m : Memory) {i : Nat} (hi : i < lanes k) :
    lane B (accessRowOp m ⟨op, B.ptr d + r * rowSize, B.ptr a + r * rowSize, src2⟩) i =
      if i / (8 * rowSize) = r then Function.update (lane B m i) d (f (lane B m i a) (lane B m i b))
      else lane B m i := by
  funext v
  rw [lane, memBit, accessRowOp_bit hop (B.ptr b + r * rowSize) (rows_sameOrApart B hr d a)
    (fun h => ⟨h2 h, rows_sameOrApart B hr d b⟩) m _ (Nat.mod_lt i (by omega))]
  have hrow := lane_row_iff i r
  by_cases hv : v = d
  · subst hv
    by_cases hi' : i / (8 * rowSize) = r
    · have hoffset : ∀ u,
          B.ptr u + r * rowSize + (B.ptr v + i / 8 - (B.ptr v + r * rowSize)) = B.ptr u + i / 8 := by
        intro u
        omega
      rw [if_pos (by omega), if_pos hi', Function.update_self, hoffset, hoffset]
      rfl
    · rw [if_neg (by omega), if_neg hi']
      rfl
  · have hapart := rows_apart B hv
    have hlane : i / 8 < perColRowsFor k * rowSize := by
      rw [lanes, Nat.mul_left_comm] at hi
      exact Nat.div_lt_of_lt_mul hi
    have hlast := row_end_le hr
    rw [if_neg (by omega)]
    split
    · rw [Function.update_of_ne hv]
      rfl
    · rfl

lemma lane_run {r : Nat} (hr : r < perColRowsFor k) (op : Rowop n) (m : Memory) {i : Nat} (hi : i < lanes k) :
    lane B (Rowop.run B r m op) i = if i / (8 * rowSize) = r then onLane (lane B m i) op else lane B m i := by
  cases op with
  | and d s1 s2 => exact lane_access B hr (show bitOp .rowAnd = some _ from rfl) d s1 s2 (fun _ => rfl) m hi
  | or d s1 s2 => exact lane_access B hr (show bitOp .rowOr = some _ from rfl) d s1 s2 (fun _ => rfl) m hi
  | not d s1 => exact lane_access B hr (show bitOp .rowNot = some _ from rfl) d s1 s1 (fun h => absurd rfl h) m hi

lemma lane_body {r : Nat} (hr : r < perColRowsFor k) (body : List (Rowop n)) (m : Memory) {i : Nat}
    (hi : i < lanes k) :
    lane B (body.foldl (Rowop.run B r) m) i =
      if i / (8 * rowSize) = r then body.foldl onLane (lane B m i) else lane B m i := by
  induction body generalizing m with
  | nil => simp
  | cons op body ih =>
    rw [List.foldl_cons, List.foldl_cons, ih, lane_run B hr op m hi]
    split <;> rfl

/-- `FOR_ALL_ROWS` performs its body on every lane. -/
theorem lane_forAllRows (body : List (Rowop n)) (m : Memory) {i : Nat} (hi : i < lanes k) :
    lane B (forAllRows B body m) i = body.foldl onLane (lane B m i) := by
  rw [forAllRows, forLoop_zero_one, foldl_range_at (lane B · i) (body.foldl onLane)
    fun r hr m => lane_body B hr body m hi, if_pos]
  exact Nat.div_lt_of_lt_mul (by rwa [Nat.mul_comm])

/-! ### The columns -/

section Columns

variable (c1 c2 : BitVec 32)

/-- What a column does to the bits of a lane. -/
def laneColumn (s : Vec n → Bool) (j : Fin n) : Vec n → Bool :=
  (compareColumn (.vals j) (bitTest c1 j) (bitTest c2 j)).foldl onLane (onLane s (.not .neg (.vals j)))

lemma lane_columns (js : List (Fin n)) (m : Memory) {i : Nat} (hi : i < lanes k) :
    lane B (js.foldl (column B c1 c2) m) i = js.foldl (laneColumn c1 c2) (lane B m i) := by
  induction js generalizing m with
  | nil => rfl
  | cons j js ih =>
    rw [List.foldl_cons, List.foldl_cons, ih, column, lane_forAllRows B _ _ hi, lane_forAllRows B _ _ hi]
    rfl

/-- A column goes one bit further in both comparisons. -/
lemma laneColumn_spec (s : Vec n → Bool) (j : Fin n) :
    let t := laneColumn c1 c2 s j
    (∀ i, t (.vals i) = s (.vals i)) ∧
      (t .mgt, t .meq1) = compareStep (s .mgt, s .meq1) (bitTest c1 j) (s (.vals j)) ∧
      (t .mlt, t .meq2) = compareStep (s .mlt, s .meq2) (s (.vals j)) (bitTest c2 j) := by
  dsimp only [laneColumn]
  cases bitTest c1 j <;> cases bitTest c2 j <;> simp [compareColumn, onLane, compareStep]

/-- What is known of the bits of a lane after the columns, with the number in the lane and the constants. -/
structure Compared (C1 V C2 : Nat) (s t : Vec n → Bool) : Prop where
  vals : ∀ j, t (.vals j) = s (.vals j)
  mgt : t .mgt = (s .mgt || (s .meq1 && decide (C1 < V)))
  mlt : t .mlt = (s .mlt || (s .meq2 && decide (V < C2)))
  meq1 : t .meq1 = (s .meq1 && decide (C1 = V))
  meq2 : t .meq2 = (s .meq2 && decide (V = C2))

lemma compared_columns (s : Vec n → Bool) (js : List (Fin n)) :
    Compared (msbValue (fun j => bitTest c1 j.val) js) (msbValue (fun j => s (.vals j)) js)
      (msbValue (fun j => bitTest c2 j.val) js) s (js.foldl (laneColumn c1 c2) s) := by
  have hflags : ∀ t : Vec n → Bool, (∀ j, t (.vals j) = s (.vals j)) →
      (∀ j, js.foldl (laneColumn c1 c2) t (.vals j) = s (.vals j)) ∧
      (js.foldl (laneColumn c1 c2) t .mgt, js.foldl (laneColumn c1 c2) t .meq1) =
        js.foldl (fun p j => compareStep p (bitTest c1 j.val) (s (.vals j))) (t .mgt, t .meq1) ∧
      (js.foldl (laneColumn c1 c2) t .mlt, js.foldl (laneColumn c1 c2) t .meq2) =
        js.foldl (fun p j => compareStep p (s (.vals j)) (bitTest c2 j.val)) (t .mlt, t .meq2) := by
    induction js with
    | nil =>
      intro t ht
      exact ⟨ht, rfl, rfl⟩
    | cons j js ih =>
      intro t ht
      obtain ⟨hvals, hlower, hupper⟩ := laneColumn_spec c1 c2 t j
      rw [ht j] at hlower hupper
      simp only [List.foldl_cons]
      rw [← hlower, ← hupper]
      exact ih _ fun i => (hvals i).trans (ht i)
  obtain ⟨hvals, hlower, hupper⟩ := hflags s fun _ => rfl
  rw [foldl_compareStep, Prod.mk.injEq] at hlower hupper
  exact ⟨hvals, hlower.1, hupper.1, hlower.2, hupper.2⟩

end Columns

/-! ### The count -/

lemma countRow_eq (m : Memory) (a : Nat) (result : BitVec 32) :
    countRow m a result = result + BitVec.ofNat 32 ((List.range (8 * rowSize)).countP (memBit m a)) := by
  have hwords : ∀ W, (List.range W).foldl (fun result j => result + upopcount (load32 m (a + 4 * j))) result =
      result + BitVec.ofNat 32 ((List.range (32 * W)).countP (memBit m a)) := by
    intro W
    induction W with
    | zero => simp
    | succ W ih =>
      have hword : (List.range 32).countP (load32 m (a + 4 * W)).getLsbD =
          (List.range 32).countP fun i => memBit m a (32 * W + i) := by
        apply countP_range_congr
        intro i hi
        rw [load32_bit _ _ hi, memBit_add, ← Nat.mul_assoc]
      rw [foldl_range_succ, ih, upopcount_eq, hword,
        Nat.mul_succ, countP_range_add, BitVec.ofNat_add, BitVec.add_assoc]
  have hsize : 32 * (rowSize / 4) = 8 * rowSize := by decide
  rw [countRow, forLoop_zero_one, hwords, hsize]

/-- After the output of `R` rows, the bits that both `mlt` and `mgt` have in them are counted. -/
structure Output (m : Memory) (R : Nat) (s : Memory × BitVec 32) : Prop where
  lane_eq : ∀ i < lanes k, ∀ v, v ≠ .output → lane B s.1 i v = lane B m i v
  result : s.2 = BitVec.ofNat 32
    ((List.range (8 * rowSize * R)).countP fun i => lane B m i .mlt && lane B m i .mgt)

variable {B}

lemma Output.succ {m : Memory} {R : Nat} {s : Memory × BitVec 32} (h : Output B m R s)
    (hR : R < perColRowsFor k) : Output B m (R + 1) (outputRow B s R) := by
  constructor
  · intro i hi v hv
    rw [outputRow, lane_run B hR _ _ hi]
    split
    · rw [onLane, Function.update_of_ne hv, h.lane_eq i hi v hv]
    · exact h.lane_eq i hi v hv
  · have hrow : (List.range (8 * rowSize)).countP
        (memBit (Rowop.run B R s.1 (.and .output .mlt .mgt)) (B.ptr .output + R * rowSize)) =
        (List.range (8 * rowSize)).countP fun i =>
          lane B m (8 * rowSize * R + i) .mlt && lane B m (8 * rowSize * R + i) .mgt := by
      apply countP_range_congr
      intro i hi
      have hdiv : (8 * rowSize * R + i) / (8 * rowSize) = R := by
        rw [Nat.mul_add_div (by decide), Nat.div_eq_of_lt hi, Nat.add_zero]
      have hlane : 8 * rowSize * R + i < lanes k := by
        have hle := Nat.mul_le_mul_left (8 * rowSize) hR
        rw [lanes, Nat.mul_comm (perColRowsFor k)]
        rw [Nat.mul_succ] at hle
        omega
      have hout := congrFun (lane_run B hR (.and .output .mlt .mgt) s.1 hlane) .output
      rw [if_pos hdiv, onLane, Function.update_self, h.lane_eq _ hlane _ (by simp),
        h.lane_eq _ hlane _ (by simp)] at hout
      rw [← hout, lane, memBit_add, Nat.mul_comm R, ← Nat.mul_assoc]
    rw [outputRow, countRow_eq, h.result, hrow, Nat.mul_succ, countP_range_add,
      BitVec.ofNat_add]

lemma output_rows (m : Memory) :
    Output B m (perColRowsFor k) ((forLoop 0 (perColRowsFor k) 1).foldl (outputRow B) (m, 0)) := by
  have hprefix : ∀ R ≤ perColRowsFor k, Output B m R ((List.range R).foldl (outputRow B) (m, 0)) := by
    intro R hR
    induction R with
    | zero => exact ⟨fun i _ v _ => rfl, rfl⟩
    | succ R ih =>
      rw [List.range_succ, List.foldl_append]
      exact (ih (by omega)).succ hR
  rw [forLoop_zero_one]
  exact hprefix _ (Nat.le_refl _)

/-! ### The iterations -/

section Iterations

variable (c1 c2 : BitVec 32)

/-- The number in a lane: the column `vals[0]` has its most significant bit. -/
def laneValue (s : Vec n → Bool) : Nat := msbValue (fun j => s (.vals j)) (List.finRange n)

/-- Whether an iteration that starts with these bits in a lane counts the lane. -/
def counts (s : Vec n → Bool) : Bool :=
  (s .mlt || (s .meq2 && decide (laneValue s < constValue c2 n))) &&
    (s .mgt || (s .meq1 && decide (constValue c1 n < laneValue s)))

lemma constValue_fin (c : BitVec 32) (n : Nat) :
    msbValue (fun j : Fin n => bitTest c j.val) (List.finRange n) = constValue c n := by
  rw [constValue, ← List.map_coe_finRange_eq_range, msbValue_map]

theorem iteration_spec (B : Blocks n k) (m : Memory) :
    (∀ i < lanes k, Compared (constValue c1 n) (laneValue (lane B m i)) (constValue c2 n) (lane B m i)
      (lane B (iteration B c1 c2 m).1 i)) ∧
    (iteration B c1 c2 m).2 =
      BitVec.ofNat 32 ((List.range (lanes k)).countP fun i => counts c1 c2 (lane B m i)) := by
  have hcolumns : ∀ i < lanes k, Compared (constValue c1 n) (laneValue (lane B m i)) (constValue c2 n)
      (lane B m i) (lane B ((List.finRange n).foldl (column B c1 c2) m) i) := by
    intro i hi
    have h := compared_columns c1 c2 (lane B m i) (List.finRange n)
    rwa [constValue_fin, constValue_fin, ← lane_columns B c1 c2 _ m hi] at h
  have hout := output_rows (B := B) ((List.finRange n).foldl (column B c1 c2) m)
  constructor
  · intro i hi
    have h := hcolumns i hi
    have hkeep := hout.lane_eq i hi
    exact ⟨fun j => (hkeep _ (by simp)).trans (h.vals j), (hkeep _ (by simp)).trans h.mgt,
      (hkeep _ (by simp)).trans h.mlt, (hkeep _ (by simp)).trans h.meq1, (hkeep _ (by simp)).trans h.meq2⟩
  · refine hout.result.trans ?_
    congr 1
    rw [lanes, Nat.mul_comm (perColRowsFor k)]
    apply countP_range_congr
    intro i hi
    have h := hcolumns i (by rwa [lanes, Nat.mul_comm])
    rw [h.mlt, h.mgt, counts]

/-- The masks that an iteration leaves behind count the same lanes again. -/
lemma counts_of_compared {s t : Vec n → Bool}
    (h : Compared (constValue c1 n) (laneValue s) (constValue c2 n) s t) :
    counts c1 c2 t = counts c1 c2 s := by
  have hvalue : laneValue t = laneValue s := msbValue_congr fun j _ => h.vals j
  have hupper : (decide (laneValue s = constValue c2 n) && decide (laneValue s < constValue c2 n)) = false := by
    simp
    omega
  have hlower : (decide (constValue c1 n = laneValue s) && decide (constValue c1 n < laneValue s)) = false := by
    simp
    omega
  rw [counts, counts, hvalue, h.mlt, h.mgt, h.meq1, h.meq2, Bool.and_assoc, hupper, Bool.and_assoc, hlower]
  simp only [Bool.and_false, Bool.or_false]

/-- Both iterations count the lanes that the first one starts with. -/
lemma main_eq (B : Blocks n k) (m : Memory) :
    let result := BitVec.ofNat 32 ((List.range (lanes k)).countP fun i => counts c1 c2 (lane B (setMasks B m) i))
    main B c1 c2 m = (result, result) := by
  obtain ⟨hmasks, hfirst⟩ := iteration_spec c1 c2 B (setMasks B m)
  obtain ⟨-, hsecond⟩ := iteration_spec c1 c2 B (iteration B c1 c2 (setMasks B m)).1
  have hsame : ((List.range (lanes k)).countP fun i =>
      counts c1 c2 (lane B (iteration B c1 c2 (setMasks B m)).1 i)) =
      (List.range (lanes k)).countP fun i => counts c1 c2 (lane B (setMasks B m) i) :=
    countP_range_congr fun i hi => counts_of_compared c1 c2 (hmasks i hi)
  rw [main, hfirst, hsecond, hsame]

end Iterations

/-! ### The first masks -/

/-- The bits of a lane after its word of the masks has been set; only the first lane of a word has the bit of 1. -/
def maskLane (i : Nat) (s : Vec n → Bool) : Vec n → Bool :=
  let s := Function.update s .meq1 (decide (i % 32 = 0))
  let s := Function.update s .meq2 (decide (i % 32 = 0))
  let s := Function.update s .mlt false
  Function.update s .mgt false

lemma num_vals_le_lanes (k : Nat) : 1024 <<< k ≤ lanes k := by
  have hbytes := perColBytes_eq k
  rw [lanes, perColRowsFor, hbytes, Nat.shiftLeft_eq, rowSize]
  omega

lemma lane_store32 (m : Memory) (u : Vec n) {w : Nat} (hw : 32 * w < lanes k) (x : BitVec 32) {i : Nat}
    (hi : i < lanes k) :
    lane B (store32 m (B.ptr u + 4 * w) x) i =
      if i / 32 = w then Function.update (lane B m i) u (x.getLsbD (i % 32)) else lane B m i := by
  funext v
  rw [lane]
  by_cases hv : v = u
  · subst hv
    rw [memBit_store32]
    split
    · rw [Function.update_self]
    · rfl
  · have hapart := rows_apart B hv
    have hother : memBit (store32 m (B.ptr u + 4 * w) x) (B.ptr v) i = lane B m i v := by
      rw [memBit, store32, if_neg]
      · rfl
      · simp only [lanes, rowSize] at hw hi hapart
        omega
    rw [hother]
    split
    · rw [Function.update_of_ne hv]
    · rfl

lemma lane_setMask {w : Nat} (hw : 32 * w < lanes k) (m : Memory) {i : Nat} (hi : i < lanes k) :
    lane B (setMask B m w) i = if i / 32 = w then maskLane i (lane B m i) else lane B m i := by
  have hone : (1#32).getLsbD (i % 32) = decide (i % 32 = 0) := by
    rw [BitVec.getLsbD_one]
    simp
  rw [setMask, lane_store32 _ _ hw _ hi, lane_store32 _ _ hw _ hi, lane_store32 _ _ hw _ hi,
    lane_store32 _ _ hw _ hi]
  by_cases h : i / 32 = w
  · simp only [if_pos h]
    rw [maskLane, ← hone]
    simp only [BitVec.ofNat_eq_ofNat, BitVec.getLsbD_zero]
  · simp only [if_neg h]

lemma lane_setMasks (m : Memory) {i : Nat} (hi : i < lanes k) :
    lane B (setMasks B m) i = if i < 1024 <<< k then maskLane i (lane B m i) else lane B m i := by
  have hwords : 32 * ((1024 <<< k) / 32) = 1024 <<< k := by
    rw [Nat.shiftLeft_eq]
    omega
  have hle := num_vals_le_lanes k
  rw [setMasks, forLoop_zero_one, foldl_range_at (lane B · i) (maskLane i) fun w hw m => lane_setMask (by omega) m hi]
  congr 1
  rw [Nat.div_lt_iff_lt_mul (by omega), Nat.mul_comm, hwords]

lemma counts_maskLane (c1 c2 : BitVec 32) (i : Nat) (s : Vec n → Bool) :
    counts c1 c2 (maskLane i s) = (decide (i % 32 = 0) && between c1 c2 n (laneValue s)) := by
  have hvalue : laneValue (maskLane i s) = laneValue s := by simp [laneValue, maskLane]
  rw [counts, hvalue, between, Bool.decide_and]
  by_cases hfirst : i % 32 = 0
  · simp [maskLane, hfirst, Bool.and_comm]
  · simp [maskLane, hfirst]

/-! ### The results -/

section Results

variable (B) (c1 c2 : BitVec 32) (m : Memory)

/-- The lanes with a number between the constants. -/
def matching : Nat := (List.range (1024 <<< k)).countP fun i => between c1 c2 n (laneValue (lane B m i))

/-- Those of them that are not the first of a word. -/
def skipped : Nat :=
  (List.range (1024 <<< k)).countP fun i => between c1 c2 n (laneValue (lane B m i)) && decide (i % 32 ≠ 0)

/-- The lanes of the rows behind the vectors that are counted. -/
def spurious : Nat := (List.range (lanes k - 1024 <<< k)).countP fun i => counts c1 c2 (lane B m (1024 <<< k + i))

lemma counted_add_skipped :
    ((List.range (lanes k)).countP fun i => counts c1 c2 (lane B (setMasks B m) i)) + skipped B c1 c2 m =
      matching B c1 c2 m + spurious B c1 c2 m := by
  have hle := num_vals_le_lanes k
  have hinside : ((List.range (1024 <<< k)).countP fun i => counts c1 c2 (lane B (setMasks B m) i)) =
      (List.range (1024 <<< k)).countP fun i =>
        decide (i % 32 = 0) && between c1 c2 n (laneValue (lane B m i)) := by
    apply countP_range_congr
    intro i hi
    rw [lane_setMasks m (by omega), if_pos hi, counts_maskLane]
  have hbehind : ((List.range (lanes k - 1024 <<< k)).countP fun i =>
      counts c1 c2 (lane B (setMasks B m) (1024 <<< k + i))) = spurious B c1 c2 m := by
    apply countP_range_congr
    intro i hi
    rw [lane_setMasks m (by omega), if_neg (by omega)]
  have hsplit : matching B c1 c2 m =
      ((List.range (1024 <<< k)).countP fun i => decide (i % 32 = 0) && between c1 c2 n (laneValue (lane B m i))) +
        skipped B c1 c2 m := by
    rw [matching, List.countP_eq_countP_filter_add _ _ fun i => decide (i % 32 = 0), List.countP_filter,
      List.countP_filter, skipped]
    simp only [Bool.and_comm, decide_not]
  rw [← Nat.add_sub_cancel' hle, countP_range_add, hinside, hbehind, hsplit]
  omega

lemma lanes_lt (hk : 1024 <<< k < 2 ^ 31) : lanes k < 2 ^ 32 := by
  rw [Nat.shiftLeft_eq] at hk
  rw [lanes, perColRowsFor, perColBytes_eq, rowSize]
  omega

lemma spurious_eq_zero (hk : 6 ≤ k) : spurious B c1 c2 m = 0 := by
  have hrows : lanes k - 1024 <<< k = 0 := by
    have hbytes := perColBytes_eq_rows hk
    rw [perColBytes_eq] at hbytes
    rw [lanes, Nat.shiftLeft_eq, Nat.mul_left_comm, ← hbytes]
    omega
  rw [spurious, hrows]
  rfl

/-- Both iterations count the lanes between the constants exactly if as many lanes are skipped as there are
spurious ones. From `k = 6` on there are no spurious lanes. -/
theorem main_counts_matching_iff (hk : 1024 <<< k < 2 ^ 31) :
    (main B c1 c2 m).1.toNat = matching B c1 c2 m ∧ (main B c1 c2 m).2.toNat = matching B c1 c2 m ↔
      skipped B c1 c2 m = spurious B c1 c2 m := by
  have hcount := counted_add_skipped B c1 c2 m
  have hle : ((List.range (lanes k)).countP fun i => counts c1 c2 (lane B (setMasks B m) i)) ≤ lanes k := by
    refine List.countP_le_length.trans ?_
    rw [List.length_range]
  rw [main_eq, BitVec.toNat_ofNat, Nat.mod_eq_of_lt (hle.trans_lt (lanes_lt hk)), and_self]
  omega

end Results

/-- The order in which blocks of one row are placed below. -/
def position : Vec n → Nat
  | .output => 0
  | .meq1 => 1
  | .meq2 => 2
  | .mlt => 3
  | .mgt => 4
  | .neg => 5
  | .tmp => 6
  | .vals j => 7 + j

lemma position_apart (u v : Vec n) (h : u ≠ v) :
    alignment * position u + perColBytes 6 ≤ alignment * position v ∨
      alignment * position v + perColBytes 6 ≤ alignment * position u := by
  have hne : position u ≠ position v := by
    cases u <;> cases v <;> simp [position] at h ⊢ <;> omega
  rw [perColBytes_eq, alignment, rowSize, rowsPerVector]
  omega

def consecutive (n : Nat) : Blocks n 6 where
  ptr v := alignment * position v
  aligned v := Nat.dvd_mul_right alignment (position v)
  disjoint := position_apart

/-- Two columns with the number 2 in every lane. -/
def twos : Memory := fun x => if x / alignment = 7 then 0xFF else 0

/-- The number 2 in the first lane only. -/
def oneTwo : Memory := fun x => if x = alignment * 7 then 1 else 0

lemma laneValue_two (m : Memory) (i : Nat) : laneValue (lane (consecutive 2) m i) =
    2 * (memBit m (alignment * 7) i).toNat + (memBit m (alignment * 8) i).toNat := by
  simp [laneValue, List.finRange_succ, msbValue, lane, consecutive, position]

lemma laneValue_twos {i : Nat} (hi : i < 65536) : laneValue (lane (consecutive 2) twos i) = 2 := by
  have hhigh : (alignment * 7 + i / 8) / alignment = 7 := by
    rw [alignment, rowSize, rowsPerVector]
    omega
  have hlow : (alignment * 8 + i / 8) / alignment ≠ 7 := by
    rw [alignment, rowSize, rowsPerVector]
    omega
  have hones : ∀ j < 8, (0xFF#8).getLsbD j = true := by decide
  rw [laneValue_two, memBit, memBit]
  simp only [twos, if_pos hhigh, if_neg hlow]
  rw [BitVec.ofNat_eq_ofNat, hones (i % 8) (Nat.mod_lt i (by omega))]
  simp

theorem main_counts_first_lanes :
    main (consecutive 2) 0 3 twos = (2048, 2048) ∧ matching (consecutive 2) 0 3 twos = 65536 := by
  have hnum : 1024 <<< 6 = 65536 := by rw [Nat.shiftLeft_eq]
  have hbetween : ∀ i < 65536, between 0 3 2 (laneValue (lane (consecutive 2) twos i)) = true := by
    intro i hi
    rw [laneValue_twos hi]
    decide
  have hmatching : matching (consecutive 2) 0 3 twos = 65536 := by
    rw [matching, hnum, countP_range_congr hbetween]
    simp
  have hskipped : skipped (consecutive 2) 0 3 twos = 63488 := by
    have hword : ∀ w, ((List.range 32).countP fun l => decide ((32 * w + l) % 32 ≠ 0)) = 31 := by
      intro w
      simp only [Nat.mul_add_mod]
      decide
    have hall : skipped (consecutive 2) 0 3 twos =
        (List.range (32 * 2048)).countP fun i => decide (i % 32 ≠ 0) := by
      rw [skipped, hnum]
      apply countP_range_congr
      intro i hi
      rw [hbetween i hi, Bool.true_and]
    rw [hall, countP_range_mul, Finset.sum_congr rfl fun w _ => hword w]
    simp
  have hcount := counted_add_skipped (consecutive 2) 0 3 twos
  rw [hmatching, hskipped, spurious_eq_zero _ _ _ _ (Nat.le_refl 6)] at hcount
  refine ⟨?_, hmatching⟩
  rw [main_eq, Nat.eq_sub_of_add_eq hcount]
  decide

lemma laneValue_oneTwo {i : Nat} (hi : i ≠ 0) : laneValue (lane (consecutive 2) oneTwo i) = 0 := by
  have halign : 0 < alignment := by decide
  have hlow : alignment * 8 + i / 8 ≠ alignment * 7 := by omega
  have hone : ∀ j < 8, j ≠ 0 → (1#8).getLsbD j = false := by decide
  rw [laneValue_two, memBit, memBit]
  simp only [oneTwo, if_neg hlow]
  by_cases hbyte : i / 8 = 0
  · rw [if_pos (by omega), BitVec.ofNat_eq_ofNat, hone (i % 8) (by omega) (by omega)]
    simp
  · rw [if_neg (by omega)]
    simp

/-- One lane with the number 2, the first of a word, is counted. -/
theorem main_counts_matching_oneTwo :
    1024 <<< 6 < 2 ^ 31 ∧ (main (consecutive 2) 0 3 oneTwo).1.toNat = matching (consecutive 2) 0 3 oneTwo ∧
      (main (consecutive 2) 0 3 oneTwo).2.toNat = matching (consecutive 2) 0 3 oneTwo := by
  have hk : 1024 <<< 6 < 2 ^ 31 := by
    rw [Nat.shiftLeft_eq]
    decide
  have hskipped : skipped (consecutive 2) 0 3 oneTwo = 0 := by
    rw [skipped, List.countP_eq_zero]
    intro i _
    by_cases hi : i % 32 = 0
    · simp [hi]
    · rw [laneValue_oneTwo (by omega)]
      simp [between]
  refine ⟨hk, (main_counts_matching_iff (consecutive 2) 0 3 oneTwo hk).mpr ?_⟩
  rw [hskipped, spurious_eq_zero _ _ _ _ (Nat.le_refl 6)]

end BitweaveAmbit

end MimdramLean.Proofs

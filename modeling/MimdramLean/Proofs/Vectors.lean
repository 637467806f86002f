import MimdramLean.Vectors
import Mathlib.Data.List.Nodup

/-!
# Row by row

The vector macros run each command of a body for all rows of a vector before the next command. Here
it is shown that this is the same as running the whole body on each row alone: in a vector the
commands for one row touch the cells of one slot and one row of each operand.
-/

namespace MimdramLean.Proofs

open Library VectorMemory

variable {P β : Type} {perColRows : Nat} (pair : Bool → Bool → Bool)

/-! ### One call -/

section Call

variable {L : Layout P perColRows} {s : VectorMemory β} {v : Nat → β → Bool} {baseRow row : Nat}

lemma sense_place {o : Nat} {i : β} (n : RowName P) :
    s.sense pair (place L baseRow row n) o i = (s.laneAt L (baseRow + row) row o i).sense pair n := by
  cases n with
  | b brow => rfl
  | c bit => rfl
  | vec p => simp only [place, sense, laneAt, LaneState.sense, Nat.add_mul, Nat.add_assoc]

/-- Rows of one operand, or of two, do not overlap. -/
lemma row_disjoint {p q : P} {r r' o : Nat} (hr : r < perColRows) (hr' : r' < perColRows) (ho : o < rowSize) :
    (L.ptr p + r * rowSize ≤ L.ptr q + r' * rowSize + o ∧
      L.ptr q + r' * rowSize + o < L.ptr p + r * rowSize + rowSize) ↔ q = p ∧ r' = r := by
  have hdisj := L.disjoint p q
  simp only [rowSize] at *
  constructor
  · intro h
    by_cases hpq : p = q
    · subst hpq
      exact ⟨rfl, by omega⟩
    · have := hdisj hpq
      omega
  · rintro ⟨rfl, rfl⟩
    omega

lemma drive_place [DecidableEq P] {o : Nat} {i : β} (hr : baseRow + row < perColRows) (ho : o < rowSize)
    (n : RowName P) :
    (s.drive v (place L baseRow row n)).laneAt L (baseRow + row) row o i =
      (s.laneAt L (baseRow + row) row o i).drive (v o i) n := by
  cases n with
  | b brow => simp [place, drive, laneAt]
  | c bit => rfl
  | vec p =>
    simp only [place, drive, laneAt, LaneState.drive]
    congr 1
    funext q
    rw [Nat.add_assoc (L.ptr p), ← Nat.add_mul]
    simp only [row_disjoint hr hr ho, and_true]
    by_cases hq : q = p
    · subst hq
      simp
    · simp [hq]

lemma drive_place_row {o r : Nat} {i : β} (hr : baseRow + row < perColRows) (hr' : r < perColRows)
    (ho : o < rowSize) (hne : r ≠ baseRow + row) (n : RowName P) (p : P) :
    (s.drive v (place L baseRow row n)).mem (L.ptr p + r * rowSize + o) i =
      s.mem (L.ptr p + r * rowSize + o) i := by
  cases n with
  | b brow => rfl
  | c bit => rfl
  | vec q =>
    simp only [place, drive]
    rw [Nat.add_assoc (L.ptr q), ← Nat.add_mul]
    simp [row_disjoint hr hr' ho, hne]

lemma drive_place_slot {slot : Nat} (hne : slot ≠ row) (n : RowName P) :
    (s.drive v (place L baseRow row n)).bgroup slot = s.bgroup slot := by
  cases n with
  | b brow => simp [place, drive, hne]
  | c bit => rfl
  | vec p => rfl

end Call

variable {L : Layout P perColRows}

/-- A call does to its row and its slot what the command does to a lane. -/
lemma call_laneAt [DecidableEq P] {s : VectorMemory β} {c : RowCall P} {o : Nat} {i : β}
    (hr : c.baseRow + c.row < perColRows) (ho : o < rowSize) :
    (s.call pair L c).laneAt L (c.baseRow + c.row) c.row o i =
      (s.laneAt L (c.baseRow + c.row) c.row o i).exec pair c.cmd := by
  rcases c with ⟨cmd, baseRow, row⟩
  cases cmd with
  | ap dst => simp only [call, rowopAp, LaneState.exec, drive_place hr ho, sense_place]
  | aap dst src => simp only [call, rowopAap, LaneState.exec, drive_place hr ho, sense_place]

/-- It leaves the other rows alone. -/
lemma call_row {s : VectorMemory β} {c : RowCall P} {o r : Nat} {i : β} (hr : c.baseRow + c.row < perColRows)
    (hr' : r < perColRows) (ho : o < rowSize) (hne : r ≠ c.baseRow + c.row) (p : P) :
    (s.call pair L c).mem (L.ptr p + r * rowSize + o) i = s.mem (L.ptr p + r * rowSize + o) i := by
  rcases c with ⟨cmd, baseRow, row⟩
  cases cmd with
  | ap dst => simp only [call, rowopAp, drive_place_row hr hr' ho hne]
  | aap dst src => simp only [call, rowopAap, drive_place_row hr hr' ho hne]

/-- It leaves the other slots alone. -/
lemma call_slot {s : VectorMemory β} {c : RowCall P} {slot : Nat} (hne : slot ≠ c.row) :
    (s.call pair L c).bgroup slot = s.bgroup slot := by
  rcases c with ⟨cmd, baseRow, row⟩
  cases cmd with
  | ap dst => simp only [call, rowopAp, drive_place_slot hne]
  | aap dst src => simp only [call, rowopAap, drive_place_slot hne]

lemma laneAt_congr {s t : VectorMemory β} {r slot o : Nat} {i : β} (hslot : s.bgroup slot = t.bgroup slot)
    (hrow : ∀ p, s.mem (L.ptr p + r * rowSize + o) i = t.mem (L.ptr p + r * rowSize + o) i) :
    s.laneAt L r slot o i = t.laneAt L r slot o i := by
  simp only [laneAt, hslot, hrow]

/-! ### One vector -/

lemma mem_rowsInVector {baseRow row : Nat} :
    row ∈ rowsInVector perColRows baseRow ↔ baseRow + row < perColRows ∧ row < rowsPerVector := by
  rw [rowsInVector, mem_forLoop_one]
  omega

lemma mem_vectorCalls {body : List (RowCommand P)} {baseRow : Nat} {c : RowCall P}
    (h : c ∈ vectorCalls perColRows body baseRow) :
    c.baseRow = baseRow ∧ baseRow + c.row < perColRows ∧ c.row < rowsPerVector := by
  simp only [vectorCalls, List.mem_flatMap, List.mem_map] at h
  obtain ⟨cmd, _, row, hrow, rfl⟩ := h
  exact ⟨rfl, mem_rowsInVector.mp hrow⟩

/-- Each row of a vector, with its slot, goes through the whole body. -/
lemma forVector_laneAt [DecidableEq P] {body : List (RowCommand P)} {s : VectorMemory β} {baseRow k o : Nat} {i : β}
    (hk : baseRow + k < perColRows) (hslot : k < rowsPerVector) (ho : o < rowSize) :
    (s.forVector pair L body baseRow).laneAt L (baseRow + k) k o i =
      (s.laneAt L (baseRow + k) k o i).run pair body := by
  have hrel : ∀ j ∈ rowsInVector perColRows baseRow,
      (s.forVector pair L body baseRow).laneAt L (baseRow + j) j o i =
        ((vectorCalls perColRows body baseRow).map fun c => (c.cmd, c.row)).foldl
          (stepAt (LaneState.exec pair)) (fun j => s.laneAt L (baseRow + j) j o i) j := by
    apply foldl_related fun (t : VectorMemory β) (g : Nat → LaneState P) =>
      ∀ j ∈ rowsInVector perColRows baseRow, t.laneAt L (baseRow + j) j o i = g j
    · intro c hc t g hg j hj
      obtain ⟨hbase, hrow, hlt⟩ := mem_vectorCalls hc
      rw [stepAt]
      by_cases hjc : j = c.row
      · subst hjc
        rw [Function.update_self, ← hg c.row hj, ← hbase]
        exact call_laneAt pair (hbase ▸ hrow) ho
      · rw [Function.update_of_ne hjc, ← hg j hj]
        apply laneAt_congr (call_slot pair hjc)
        exact call_row pair (hbase ▸ hrow) (mem_rowsInVector.mp hj).1 ho (by omega)
    · exact fun j _ => rfl
  have hmap : (vectorCalls perColRows body baseRow).map (fun c => (c.cmd, c.row)) =
      body.flatMap fun cmd => (rowsInVector perColRows baseRow).map fun row => (cmd, row) := by
    simp only [vectorCalls, List.map_flatMap, List.map_map, Function.comp_def]
  have hmem : k ∈ rowsInVector perColRows baseRow := mem_rowsInVector.mpr ⟨hk, hslot⟩
  have hnodup : (rowsInVector perColRows baseRow).Nodup := List.nodup_range'
  rw [hrel k hmem, hmap, foldl_stepAt _ _ hnodup, if_pos hmem, LaneState.run]

/-- The rows of other vectors stay as they are. -/
lemma forVector_row {body : List (RowCommand P)} {s : VectorMemory β} {baseRow r o : Nat} {i : β}
    (hr : r < perColRows) (hout : r < baseRow ∨ baseRow + rowsPerVector ≤ r) (ho : o < rowSize) (p : P) :
    (s.forVector pair L body baseRow).mem (L.ptr p + r * rowSize + o) i =
      s.mem (L.ptr p + r * rowSize + o) i := by
  rw [forVector]
  apply foldl_frame fun t : VectorMemory β => t.mem (L.ptr p + r * rowSize + o) i
  intro c hc t
  obtain ⟨hbase, hrow, hlt⟩ := mem_vectorCalls hc
  exact call_row pair (hbase ▸ hrow) hr ho (by omega) p

/-- The slots that the vector does not use stay as they are. -/
lemma forVector_slot {body : List (RowCommand P)} {s : VectorMemory β} {baseRow slot : Nat}
    (hslot : slot ∉ rowsInVector perColRows baseRow) :
    (s.forVector pair L body baseRow).bgroup slot = s.bgroup slot := by
  rw [forVector]
  apply foldl_frame fun t : VectorMemory β => t.bgroup slot
  intro c hc t
  obtain ⟨hbase, hrow, hlt⟩ := mem_vectorCalls hc
  refine call_slot pair ?_
  rintro rfl
  exact hslot (mem_rowsInVector.mpr ⟨hrow, hlt⟩)

/-! ### All vectors -/

lemma baseRows_get {v : Nat} (hv : rowsPerVector * v < perColRows) :
    (baseRows perColRows)[v]? = some (rowsPerVector * v) := by
  rw [baseRows, forLoop, List.getElem?_range', Nat.zero_add]
  simp only [rowsPerVector] at *
  omega

lemma baseRows_length {v : Nat} (hv : perColRows ≤ rowsPerVector * v) : (baseRows perColRows).length ≤ v := by
  rw [baseRows, forLoop, List.length_range']
  simp only [rowsPerVector] at *
  omega

section Vectors

variable {body : List (RowCommand P)} {s : VectorMemory β} {r o v : Nat} {i : β}

lemma afterVectors_succ (hv : rowsPerVector * v < perColRows) :
    s.afterVectors pair L body (v + 1) = (s.afterVectors pair L body v).forVector pair L body (rowsPerVector * v) := by
  rw [afterVectors, List.take_add_one, baseRows_get hv, List.foldl_append]
  rfl

lemma afterVectors_of_le (hv : perColRows ≤ rowsPerVector * v) :
    s.afterVectors pair L body v = s.forAllVectors pair L body := by
  rw [afterVectors, List.take_of_length_le (baseRows_length hv), forAllVectors]

lemma afterVectors_succ_row (hr : r < perColRows) (ho : o < rowSize)
    (hout : r < rowsPerVector * v ∨ rowsPerVector * (v + 1) ≤ r) (p : P) :
    (s.afterVectors pair L body (v + 1)).mem (L.ptr p + r * rowSize + o) i =
      (s.afterVectors pair L body v).mem (L.ptr p + r * rowSize + o) i := by
  by_cases hv : rowsPerVector * v < perColRows
  · rw [afterVectors_succ pair hv]
    exact forVector_row pair hr hout ho p
  · rw [afterVectors_of_le pair (by rw [Nat.mul_succ]; omega), afterVectors_of_le pair (by omega)]

/-- A row is as it was until its vector is reached. -/
lemma afterVectors_row_before (hr : r < perColRows) (ho : o < rowSize) (hv : rowsPerVector * v ≤ r) (p : P) :
    (s.afterVectors pair L body v).mem (L.ptr p + r * rowSize + o) i = s.mem (L.ptr p + r * rowSize + o) i := by
  induction v with
  | zero => rfl
  | succ v ih =>
    rw [afterVectors_succ_row pair hr ho (.inr hv)]
    exact ih (by rw [Nat.mul_succ] at hv; omega)

/-- A row stays as it is once its vector is done. -/
lemma afterVectors_row_after (hr : r < perColRows) (ho : o < rowSize) (hv : r < rowsPerVector * v) (p : P)
    (n : Nat) : (s.afterVectors pair L body (v + n)).mem (L.ptr p + r * rowSize + o) i =
      (s.afterVectors pair L body v).mem (L.ptr p + r * rowSize + o) i := by
  induction n with
  | zero => rfl
  | succ n ih =>
    rw [← Nat.add_assoc, afterVectors_succ_row pair hr ho (.inl _), ih]
    exact lt_of_lt_of_le hv (Nat.mul_le_mul_left _ (Nat.le_add_right v n))

/-- The body run back to back on one lane of row `r`, in the slot as the vectors before left it. -/
def rowAlone [DecidableEq P] (L : Layout P perColRows) (body : List (RowCommand P)) (s : VectorMemory β)
    (r o : Nat) (i : β) : LaneState P :=
  LaneState.run pair ⟨(s.afterVectors pair L body (r / rowsPerVector)).bgroup (r % rowsPerVector) o i,
    fun p => s.mem (L.ptr p + r * rowSize + o) i⟩ body

lemma afterVectors_succ_laneAt [DecidableEq P] (body : List (RowCommand P)) (s : VectorMemory β) {k : Nat}
    (hr : rowsPerVector * v + k < perColRows) (hk : k < rowsPerVector) (ho : o < rowSize) :
    (s.afterVectors pair L body (v + 1)).laneAt L (rowsPerVector * v + k) k o i =
      LaneState.run pair ⟨(s.afterVectors pair L body v).bgroup k o i,
        fun p => s.mem (L.ptr p + (rowsPerVector * v + k) * rowSize + o) i⟩ body := by
  rw [afterVectors_succ pair (by omega), forVector_laneAt pair hr hk ho, laneAt]
  congr 2
  funext p
  exact afterVectors_row_before pair hr ho (by omega) p

lemma afterVectors_laneAt [DecidableEq P] (hr : r < perColRows) (ho : o < rowSize) :
    (s.afterVectors pair L body (r / rowsPerVector + 1)).laneAt L r (r % rowsPerVector) o i =
      rowAlone pair L body s r o i := by
  have hsplit : rowsPerVector * (r / rowsPerVector) + r % rowsPerVector = r := Nat.div_add_mod r rowsPerVector
  have hslot : r % rowsPerVector < rowsPerVector := Nat.mod_lt r (by decide)
  have h := afterVectors_succ_laneAt pair (L := L) body s (i := i) (hsplit ▸ hr) hslot ho
  rwa [hsplit] at h

lemma forAllVectors_row [DecidableEq P] (hr : r < perColRows) (ho : o < rowSize) (p : P) :
    (s.forAllVectors pair L body).mem (L.ptr p + r * rowSize + o) i = (rowAlone pair L body s r o i).data p := by
  have hlt : r < rowsPerVector * (r / rowsPerVector + 1) := by
    have := Nat.div_add_mod r rowsPerVector
    have := Nat.mod_lt r (show 0 < rowsPerVector by decide)
    rw [Nat.mul_succ]
    omega
  rw [← afterVectors_laneAt pair hr ho, ← afterVectors_of_le pair (v := r / rowsPerVector + 1 + perColRows),
    afterVectors_row_after pair hr ho hlt]
  · rfl
  · simp only [rowsPerVector]
    omega

end Vectors

/-! ### The calls of a row -/

/-- If only one element of a list contributes, a `flatMap` is its contribution. -/
lemma flatMap_eq_of_unique {α γ : Type} {l : List α} {f : α → List γ} {a : α} (hnodup : l.Nodup) (ha : a ∈ l)
    (hf : ∀ x ∈ l, x ≠ a → f x = []) : l.flatMap f = f a := by
  induction l with
  | nil => simp at ha
  | cons x l ih =>
    obtain ⟨hx, hl⟩ := List.nodup_cons.mp hnodup
    rw [List.flatMap_cons]
    by_cases hxa : x = a
    · subst hxa
      have hrest : l.flatMap f = [] := by
        apply List.flatMap_eq_nil_iff.mpr
        intro y hy
        exact hf y (List.mem_cons_of_mem _ hy) fun h => hx (h ▸ hy)
      rw [hrest, List.append_nil]
    · rw [hf x List.mem_cons_self hxa, List.nil_append]
      exact ih hl ((List.mem_cons.mp ha).resolve_left (Ne.symm hxa)) fun y hy => hf y (List.mem_cons_of_mem _ hy)

lemma mem_baseRows {baseRow : Nat} (h : baseRow ∈ baseRows perColRows) :
    baseRow < perColRows ∧ baseRow % rowsPerVector = 0 := by
  simp only [baseRows, forLoop, List.mem_range', rowsPerVector] at *
  obtain ⟨v, hv, rfl⟩ := h
  omega

/-- The calls that a vector makes for row `r`: the whole body, if the row is in the vector. -/
lemma vectorCalls_filter {body : List (RowCommand P)} {baseRow r : Nat} :
    ((vectorCalls perColRows body baseRow).filter fun c => c.baseRow + c.row = r).map RowCall.cmd =
      if baseRow ≤ r ∧ r < perColRows ∧ r < baseRow + rowsPerVector then body else [] := by
  have hrows : (rowsInVector perColRows baseRow).filter (fun row => baseRow + row = r) =
      if baseRow ≤ r ∧ r < perColRows ∧ r < baseRow + rowsPerVector then [r - baseRow] else [] := by
    split
    case isTrue h =>
      have hmem : r - baseRow ∈ rowsInVector perColRows baseRow := mem_rowsInVector.mpr ⟨by omega, by omega⟩
      have heq : (rowsInVector perColRows baseRow).filter (fun row => baseRow + row = r) =
          (rowsInVector perColRows baseRow).filter (· == r - baseRow) := by
        apply List.filter_congr
        intro x _
        simp only [beq_eq_decide, decide_eq_decide]
        omega
      have hnodup : (rowsInVector perColRows baseRow).Nodup := List.nodup_range'
      rw [heq, List.filter_beq, List.count_eq_one_of_mem hnodup hmem]
      rfl
    case isFalse h =>
      apply List.filter_eq_nil_iff.mpr
      intro x hx
      have := mem_rowsInVector.mp hx
      simp only [decide_eq_true_eq]
      omega
  rw [vectorCalls, List.filter_flatMap, List.map_flatMap]
  simp only [List.filter_map, Function.comp_def, hrows]
  split
  · simp [List.flatMap_singleton']
  · simp

lemma allCalls_filter {body : List (RowCommand P)} {r : Nat} (hr : r < perColRows) :
    ((allCalls perColRows body).filter fun c => c.baseRow + c.row = r).map RowCall.cmd = body := by
  have hbase : rowsPerVector * (r / rowsPerVector) ≤ r := Nat.mul_div_le r rowsPerVector
  have hlt : r < rowsPerVector * (r / rowsPerVector) + rowsPerVector := by
    have := Nat.div_add_mod r rowsPerVector
    have := Nat.mod_lt r (show 0 < rowsPerVector by decide)
    omega
  have hmem : rowsPerVector * (r / rowsPerVector) ∈ baseRows perColRows :=
    List.mem_of_getElem? (baseRows_get (by omega))
  rw [allCalls, List.filter_flatMap, List.map_flatMap]
  simp only [vectorCalls_filter]
  have hnodup : (baseRows perColRows).Nodup := by
    unfold baseRows forLoop
    exact List.nodup_range' rowsPerVector (by decide)
  rw [flatMap_eq_of_unique hnodup hmem, if_pos ⟨hbase, hr, hlt⟩]
  intro x hx hne
  have hmod := (mem_baseRows hx).2
  rw [if_neg]
  simp only [rowsPerVector] at *
  omega

/-- No value of the macros leaves `int` for vectors of an `int` number of bytes. -/
theorem vector_offsets_fit_int {body : List (RowCommand P)} {c : RowCall P}
    (h : c ∈ allCalls perColRows body) (hbytes : perColRows ≤ 2 ^ 18) :
    c.baseRow * rowSize < 2 ^ 31 ∧ c.row * rowSize < 2 ^ 31 ∧ c.baseRow + rowsPerVector < 2 ^ 31 := by
  simp only [allCalls, List.mem_flatMap] at h
  obtain ⟨baseRow, hbase, hc⟩ := h
  have hlt := (mem_baseRows hbase).1
  obtain ⟨rfl, -, hrow⟩ := mem_vectorCalls hc
  simp only [rowSize, rowsPerVector] at *
  omega

/-- The macros work row by row. Each row index below `per_col_rows` gets exactly the commands of the
body, in order, as `base_row + row` with `row` below `ROWS_PER_VECTOR`; and what they leave in the
operands and in the slot is what the body leaves when it is run on that row alone. -/
theorem forAllVectors_row_by_row [DecidableEq P] (L : Layout P perColRows) (body : List (RowCommand P))
    (s : VectorMemory β) :
    s.forAllVectors pair L body = (allCalls perColRows body).foldl (call pair L) s ∧
    (∀ c ∈ allCalls perColRows body, c.row < rowsPerVector ∧ c.baseRow + c.row < perColRows) ∧
    (∀ r < perColRows,
      ((allCalls perColRows body).filter fun c => c.baseRow + c.row = r).map RowCall.cmd = body) ∧
    ∀ r < perColRows, ∀ o < rowSize, ∀ i : β,
      (∀ p, (s.forAllVectors pair L body).mem (L.ptr p + r * rowSize + o) i =
        (rowAlone pair L body s r o i).data p) ∧
      (s.afterVectors pair L body (r / rowsPerVector + 1)).bgroup (r % rowsPerVector) o i =
        (rowAlone pair L body s r o i).bgroup := by
  refine ⟨?_, ?_, fun r hr => allCalls_filter hr, ?_⟩
  · rw [forAllVectors, allCalls, List.foldl_flatMap]
    rfl
  · intro c hc
    simp only [allCalls, List.mem_flatMap] at hc
    obtain ⟨baseRow, -, hc⟩ := hc
    obtain ⟨rfl, hlt, hrow⟩ := mem_vectorCalls hc
    exact ⟨hrow, hlt⟩
  · intro r hr o ho i
    refine ⟨forAllVectors_row pair hr ho, ?_⟩
    exact congrArg LaneState.bgroup (afterVectors_laneAt pair (L := L) hr ho)

/-! ### Bodies with the same effect -/

/-- Two bodies that do the same to every lane. -/
def SameRun [DecidableEq P] (body body' : List (RowCommand P)) : Prop :=
  ∀ s : LaneState P, s.run pair body = s.run pair body'

/-- Two memories that hold the same in the operand vectors and in the slots. -/
structure SameRows (L : Layout P perColRows) (s t : VectorMemory β) : Prop where
  bgroup : ∀ slot, ∀ o < rowSize, ∀ i, s.bgroup slot o i = t.bgroup slot o i
  mem : ∀ p, ∀ r < perColRows, ∀ o < rowSize, ∀ i,
    s.mem (L.ptr p + r * rowSize + o) i = t.mem (L.ptr p + r * rowSize + o) i

variable {body body' : List (RowCommand P)} {s t : VectorMemory β}

lemma SameRows.laneAt_eq (h : SameRows L s t) {r slot o : Nat} {i : β} (hr : r < perColRows) (ho : o < rowSize) :
    s.laneAt L r slot o i = t.laneAt L r slot o i := by
  simp only [laneAt, h.bgroup slot o ho]
  congr 1
  funext p
  exact h.mem p r hr o ho i

lemma forVector_sameRows [DecidableEq P] (hbody : SameRun pair body body') (h : SameRows L s t) (baseRow : Nat) :
    SameRows L (s.forVector pair L body baseRow) (t.forVector pair L body' baseRow) := by
  have hlane : ∀ k ∈ rowsInVector perColRows baseRow, ∀ o < rowSize, ∀ i,
      (s.forVector pair L body baseRow).laneAt L (baseRow + k) k o i =
        (t.forVector pair L body' baseRow).laneAt L (baseRow + k) k o i := by
    intro k hk o ho i
    obtain ⟨hlt, hk⟩ := mem_rowsInVector.mp hk
    rw [forVector_laneAt pair hlt hk ho, forVector_laneAt pair hlt hk ho, hbody, h.laneAt_eq hlt ho]
  constructor
  · intro slot o ho i
    by_cases hslot : slot ∈ rowsInVector perColRows baseRow
    · exact congrArg LaneState.bgroup (hlane slot hslot o ho i)
    · rw [forVector_slot pair hslot, forVector_slot pair hslot, h.bgroup slot o ho]
  · intro p r hr o ho i
    by_cases hout : r < baseRow ∨ baseRow + rowsPerVector ≤ r
    · rw [forVector_row pair hr hout ho, forVector_row pair hr hout ho, h.mem p r hr o ho]
    · have hk : r - baseRow ∈ rowsInVector perColRows baseRow := mem_rowsInVector.mpr (by omega)
      have hrow : baseRow + (r - baseRow) = r := by omega
      have := hlane (r - baseRow) hk o ho i
      rw [hrow] at this
      exact congrFun (congrArg LaneState.data this) p

lemma forAllVectors_sameRows [DecidableEq P] (hbody : SameRun pair body body') (h : SameRows L s t) :
    SameRows L (s.forAllVectors pair L body) (t.forAllVectors pair L body') := by
  rw [forAllVectors, forAllVectors]
  induction baseRows perColRows generalizing s t with
  | nil => exact h
  | cons baseRow rest ih => exact ih (forVector_sameRows pair hbody h baseRow)

/-- Programs whose bodies do the same to every lane leave the same in the operand vectors. -/
theorem runBodies_sameRows [DecidableEq P] {bodies bodies' : List (List (RowCommand P))}
    (hbodies : List.Forall₂ (SameRun pair) bodies bodies') (h : SameRows L s t) :
    SameRows L (s.runBodies pair L bodies) (t.runBodies pair L bodies') := by
  induction hbodies generalizing s t with
  | nil => exact h
  | cons hbody _ ih => exact ih (forAllVectors_sameRows pair hbody h)

/-! ### Several bodies on one lane -/

/-- The bodies one after the other take the content `d` of a lane to `d'`. Other rows use the cells of the slot
between two bodies, which may hold anything when the next one starts. -/
def LaneRuns [DecidableEq P] : List (List (RowCommand P)) → (P → Bool) → (P → Bool) → Prop
  | [], d, d' => d' = d
  | body :: bodies, d, d' => ∃ cells : BGroup, LaneRuns bodies ((LaneState.mk cells d).run pair body).data d'

lemma laneRuns_append [DecidableEq P] {bodies bodies' : List (List (RowCommand P))} {d d' : P → Bool} :
    LaneRuns pair (bodies ++ bodies') d d' ↔ ∃ e, LaneRuns pair bodies d e ∧ LaneRuns pair bodies' e d' := by
  induction bodies generalizing d with
  | nil => simp [LaneRuns]
  | cons body bodies ih =>
    simp only [List.cons_append, LaneRuns, ih]
    constructor
    · rintro ⟨cells, e, he, he'⟩
      exact ⟨e, ⟨cells, he⟩, he'⟩
    · rintro ⟨e, ⟨cells, he⟩, he'⟩
      exact ⟨cells, e, he, he'⟩

lemma runBodies_laneRuns [DecidableEq P] (L : Layout P perColRows) (bodies : List (List (RowCommand P)))
    (s : VectorMemory β) {r o : Nat} (hr : r < perColRows) (ho : o < rowSize) (i : β) :
    LaneRuns pair bodies (fun p => s.mem (L.ptr p + r * rowSize + o) i)
      fun p => (s.runBodies pair L bodies).mem (L.ptr p + r * rowSize + o) i := by
  induction bodies generalizing s with
  | nil => rfl
  | cons body bodies ih =>
    have hbody : (fun p => (s.forAllVectors pair L body).mem (L.ptr p + r * rowSize + o) i) =
        (rowAlone pair L body s r o i).data := by
      funext p
      exact forAllVectors_row pair hr ho p
    have h := ih (s.forAllVectors pair L body)
    rw [hbody] at h
    exact ⟨_, h⟩

end MimdramLean.Proofs

import MimdramLean.MatchingIndex
import MimdramLean.Proofs.RangeQuery

/-!
# What the matching index counts

Neither nest of loops takes a decision on the counts, so whether a run stays inside of its arrays depends on the
dimension alone: it does below `2 ^ 16`, and above the sizes have wrapped around and a store misses its array.
A run that succeeds changes the entries of the pairs `i < j` only. The second nest computes the result of a pair
from the entry of another one, whatever has been counted.
-/

namespace MimdramLean.Proofs.MatchingIndex

open Library MimdramLean.MatchingIndex

/-! ### What a run does when it succeeds -/

section Arrays

variable {α : Type} {size i : Nat} {a b : Nat → α} {v : α}

lemma readArray_eq_ok : readArray size a i = .ok v ↔ i < size ∧ a i = v := by
  simp only [readArray, bind_eq_ok, ensure_eq_ok, exists_const, Except.ok.injEq]

lemma writeArray_eq_ok : writeArray size a i v = .ok b ↔ i < size ∧ Function.update a i v = b := by
  simp only [writeArray, bind_eq_ok, ensure_eq_ok, exists_const, Except.ok.injEq]

end Arrays

/-- The accesses of the first nest are inside of the arrays. -/
structure CountInside (dim i j k : Nat) : Prop where
  first : (i * dim + k) % 2 ^ 32 / 4 / 8 < matrixWords dim
  second : (j * dim + k) % 2 ^ 32 / 4 / 8 < matrixWords dim
  entry : (i * dim + j) % 2 ^ 32 < entries dim

structure IndexInside (dim i j : Nat) : Prop where
  read : (i * dim + i + 1 + j) % 2 ^ 32 < entries dim
  write : (i * dim + j) % 2 ^ 32 < entries dim

variable (R : Floats) (dim : Nat) (matrix : Nat → BitVec 32)

/-- The counts after a pass over `k`. -/
def wordAdded (i j : Nat) (s : Counts) (k : Nat) : Counts :=
  let x := matrix ((i * dim + k) % 2 ^ 32 / 4 / 8)
  let y := matrix ((j * dim + k) % 2 ^ 32 / 4 / 8)
  let e := (i * dim + j) % 2 ^ 32
  { commonNeighbors := Function.update s.commonNeighbors e (s.commonNeighbors e + numberOfSetBits (x &&& y))
    totalNeighbors := Function.update s.totalNeighbors e (s.totalNeighbors e + numberOfSetBits (x ||| y)) }

def pairAdded (s : Counts) (a : Nat × Nat) : Counts :=
  (List.range (dim / 8 / 4)).foldl (wordAdded dim matrix a.1 a.2) s

/-- The results after a pass over `j` of the second nest. -/
def indexStored (s : Counts) (result : Nat → R.Value) (a : Nat × Nat) : Nat → R.Value :=
  let e := (a.1 * dim + a.1 + 1 + a.2) % 2 ^ 32
  Function.update result ((a.1 * dim + a.2) % 2 ^ 32) (indexOf R (s.commonNeighbors e) (s.totalNeighbors e))

/-- The pairs that both nests go through. -/
def pairs : List (Nat × Nat) :=
  (forLoop 0 dim 1).flatMap fun i => (forLoop (i + 1) dim 1).map fun j => (i, j)

variable {R dim matrix}

lemma mem_pairs {i j : Nat} : (i, j) ∈ pairs dim ↔ i < j ∧ j < dim := by
  simp only [pairs, List.mem_flatMap, List.mem_map, mem_forLoop_one, Prod.mk.injEq]
  constructor
  · rintro ⟨_, _, _, hj, rfl, rfl⟩
    exact hj
  · rintro ⟨hij, hj⟩
    exact ⟨i, ⟨Nat.zero_le i, hij.trans hj⟩, j, ⟨hij, hj⟩, rfl, rfl⟩

lemma pairs_nodup : (pairs dim).Nodup := by
  have hloop : ∀ start, (forLoop start dim 1).Nodup := fun start => List.nodup_range' ..
  refine List.nodup_flatMap.mpr ⟨fun i _ => (hloop _).map fun j j' h => (Prod.mk.inj h).2, ?_⟩
  refine (hloop 0).imp fun hne => ?_
  intro a ha hb
  obtain ⟨_, _, rfl⟩ := List.mem_map.mp ha
  obtain ⟨_, _, heq⟩ := List.mem_map.mp hb
  exact hne (Prod.mk.inj heq).1.symm

/-- Loops over `i` and `j` with the same guard and the same effect as a loop over the pairs. -/
lemma foldlM_pairs {S : Type} {step : Nat → S → Nat → Except Fault S} {G : Nat → Nat → Prop}
    {f : S → Nat × Nat → S} (hstep : ∀ i s j t, step i s j = .ok t ↔ G i j ∧ f s (i, j) = t) {s t : S} :
    (forLoop 0 dim 1).foldlM (fun s i => (forLoop (i + 1) dim 1).foldlM (step i) s) s = .ok t ↔
      (∀ i j, i < j → j < dim → G i j) ∧ (pairs dim).foldl f s = t := by
  rw [foldlM_eq_runFrom, runFrom_eq_ok_iff _ (G := fun i => ∀ j ∈ forLoop (i + 1) dim 1, G i j)
    (f := fun s i => (forLoop (i + 1) dim 1).foldl (fun s j => f s (i, j)) s)]
  · simp only [pairs, List.foldl_flatMap, List.foldl_map, mem_forLoop_one]
    refine and_congr_left fun _ => ⟨fun h i j hij hj => ?_, fun h i hi j hj => h i j hj.1 hj.2⟩
    exact h i ⟨Nat.zero_le i, hij.trans hj⟩ j ⟨hij, hj⟩
  · intro s i t
    rw [foldlM_eq_runFrom]
    exact runFrom_eq_ok_iff (step i) (hstep i)

lemma addWord_eq_ok {i j k : Nat} {s t : Counts} :
    addWord dim matrix i j s k = .ok t ↔ CountInside dim i j k ∧ wordAdded dim matrix i j s k = t := by
  simp only [addWord, bind_eq_ok, readArray_eq_ok, writeArray_eq_ok, Except.ok.injEq]
  constructor
  · rintro ⟨_, ⟨hfirst, rfl⟩, _, ⟨hsecond, rfl⟩, _, ⟨hentry, rfl⟩, _, ⟨_, rfl⟩, _, ⟨_, rfl⟩, _, ⟨_, rfl⟩, rfl⟩
    exact ⟨⟨hfirst, hsecond, hentry⟩, rfl⟩
  · rintro ⟨h, rfl⟩
    exact ⟨_, ⟨h.first, rfl⟩, _, ⟨h.second, rfl⟩, _, ⟨h.entry, rfl⟩, _, ⟨h.entry, rfl⟩, _, ⟨h.entry, rfl⟩,
      _, ⟨h.entry, rfl⟩, rfl⟩

lemma countNeighbors_eq_ok {s t : Counts} :
    countNeighbors dim matrix s = .ok t ↔
      (∀ i j, i < j → j < dim → ∀ k ∈ List.range (dim / 8 / 4), CountInside dim i j k) ∧
        (pairs dim).foldl (pairAdded dim matrix) s = t := by
  refine foldlM_pairs fun i s j t => ?_
  rw [countPair, forLoop_zero_one, foldlM_eq_runFrom]
  exact runFrom_eq_ok_iff (addWord dim matrix i j) fun _ _ _ => addWord_eq_ok

lemma computeIndices_eq_ok {s : Counts} {result result' : Nat → R.Value} :
    computeIndices R dim s result = .ok result' ↔
      (∀ i j, i < j → j < dim → IndexInside dim i j) ∧
        (pairs dim).foldl (indexStored R dim s) result = result' := by
  refine foldlM_pairs fun i result j result' => ?_
  simp only [indexPair, bind_eq_ok, readArray_eq_ok, writeArray_eq_ok]
  constructor
  · rintro ⟨_, ⟨hread, rfl⟩, _, ⟨_, rfl⟩, hwrite, rfl⟩
    exact ⟨⟨hread, hwrite⟩, rfl⟩
  · rintro ⟨h, rfl⟩
    exact ⟨_, ⟨h.read, rfl⟩, _, ⟨h.read, rfl⟩, h.write, rfl⟩

/-! ### Sizes that wrap around -/

/-- The case in which the wrapped size is within `r + 1` of `N`, where `N = q * D + r + 1`. -/
lemma eq_of_wrapped_size {D m q r W : Nat} (heven : 2 ∣ D) (hm : 1 ≤ m) (hq : 1 ≤ q) (hr : r ≤ q) (hW : 1 ≤ W)
    (hWr : W ≤ r + 1) (hsize : D * D + W = (m + 1) * (q * D + r + 1)) : r = q ∧ 2 * q + 1 < D := by
  have hsplit : D * D + W = (m + 1) * q * D + (m + 1) * (r + 1) := by rw [hsize]; ring
  have hlower : m + 1 ≤ (m + 1) * q := Nat.le_mul_of_pos_right _ hq
  have htwice : 2 * (r + 1) ≤ (m + 1) * (r + 1) := Nat.mul_le_mul_right _ (by omega)
  have hupper : (m + 1) * (r + 1) ≤ (m + 1) * q + (m + 1) :=
    (Nat.mul_le_mul_left _ (Nat.succ_le_succ hr)).trans_eq (Nat.mul_succ _ _)
  obtain ⟨u, hu⟩ : ∃ u, D = (m + 1) * q + u := by
    refine Nat.exists_eq_add_of_le (Nat.le_of_not_lt fun hlt => ?_)
    have hle := Nat.mul_le_mul_right D hlt.le
    omega
  have hrest : u * D + W = (m + 1) * (r + 1) := by
    have hsquare : D * D = (m + 1) * q * D + u * D := by rw [← Nat.add_mul, ← hu]
    omega
  have hone : u = 1 := by
    rcases Nat.lt_trichotomy u 1 with h | h | h
    · rw [Nat.lt_one_iff.mp h] at hrest
      omega
    · exact h
    · have hle : 2 * D ≤ u * D := Nat.mul_le_mul_right D h
      omega
  subst hone
  have hreq : r = q := by
    refine le_antisymm hr (Nat.le_of_not_lt fun hlt => ?_)
    have hle : (m + 1) * (r + 1) ≤ (m + 1) * q := Nat.mul_le_mul_left _ hlt
    omega
  refine ⟨hreq, ?_⟩
  -- `m` is even, as `D` is
  have hthree : 3 * q ≤ (m + 1) * q := by
    refine Nat.mul_le_mul_right q ?_
    by_contra hlt
    obtain rfl : m = 1 := by omega
    omega
  omega

/-- A matrix whose size does not fit has an entry above the diagonal whose index is not below the wrapped size. -/
lemma exists_index_ge {D N : Nat} (heven : 2 ∣ D) (hDN : D < N) (hND : N ≤ D * D) :
    ∃ i j, i < j ∧ j < D ∧ D * D % N ≤ (i * D + j) % N := by
  have hD : 0 < D := Nat.pos_of_mul_pos_left (hDN.trans_le' (Nat.zero_le D) |>.trans_le hND)
  obtain ⟨q, r, hr, hN⟩ : ∃ q r, r < D ∧ N = q * D + r + 1 :=
    ⟨(N - 1) / D, (N - 1) % D, Nat.mod_lt _ hD, by rw [Nat.div_add_mod']; omega⟩
  have hq : 1 ≤ q := Nat.one_le_iff_ne_zero.mpr fun h => by rw [h, Nat.zero_mul] at hN; omega
  have hqD : q < D := by
    by_contra hge
    have hle := Nat.mul_le_mul_right D (Nat.not_lt.mp hge)
    omega
  have hwrapped : D * D % N < N := Nat.mod_lt _ (by omega)
  have hdivMod := Nat.mod_add_div (D * D) N
  have hm : 1 ≤ D * D / N := (Nat.one_le_div_iff (by omega)).mpr hND
  generalize D * D % N = size at *
  rcases Nat.lt_or_ge q r with hqr | hrq
  · -- the entry with the index `N - 1` is above the diagonal
    refine ⟨q, r, hqr, hr, ?_⟩
    rw [Nat.mod_eq_of_lt (by omega)]
    omega
  have hlast : (q - 1) * D + D = q * D := by rw [← Nat.succ_mul, Nat.succ_eq_add_one, Nat.sub_add_cancel hq]
  rcases Nat.lt_or_ge ((q - 1) * D + (D - 1)) size with hlt | hge
  · have hsum : D * D + (N - size) = (D * D / N + 1) * (q * D + r + 1) := by
      rw [← hN, Nat.succ_mul, Nat.mul_comm (D * D / N)]
      omega
    obtain ⟨rfl, hroom⟩ := eq_of_wrapped_size heven hm hq hrq (by omega) (by omega) hsum
    refine ⟨2 * r, 2 * r + 1, by omega, hroom, ?_⟩
    have hindex : 2 * r * D + (2 * r + 1) = N + (N - 1) := by
      rw [Nat.mul_assoc]
      omega
    rw [hindex, Nat.add_mod_left, Nat.mod_eq_of_lt (by omega)]
    omega
  · refine ⟨q - 1, D - 1, by omega, by omega, ?_⟩
    rwa [Nat.mod_eq_of_lt (by omega)]

lemma dim_lt_of_inside (hdim : dim < 2 ^ 32) (heven : 2 ∣ dim)
    (h : ∀ i j, i < j → j < dim → IndexInside dim i j) : dim < 2 ^ 16 := by
  by_contra hge
  have hsize : 2 ^ 16 * 2 ^ 16 ≤ dim * dim := Nat.mul_le_mul (Nat.not_lt.mp hge) (Nat.not_lt.mp hge)
  obtain ⟨i, j, hij, hj, hle⟩ := exists_index_ge heven hdim hsize
  exact absurd (h i j hij hj).write (Nat.not_lt.mpr hle)

/-! ### The accesses of a matrix that fits -/

lemma index_lt {i j : Nat} (hi : i < dim) (hj : j < dim) : i * dim + j < dim * dim := calc
  i * dim + j < i * dim + dim := Nat.add_lt_add_left hj _
  _ = (i + 1) * dim := (Nat.succ_mul i dim).symm
  _ ≤ dim * dim := Nat.mul_le_mul_right dim hi

lemma read_lt {i j : Nat} (hij : i < j) (hj : j < dim) : i * dim + i + 1 + j < dim * dim := calc
  i * dim + i + 1 + j < i * dim + dim + dim := by omega
  _ = (i + 2) * dim := by ring
  _ ≤ dim * dim := Nat.mul_le_mul_right dim (by omega)

lemma index_inj {i j i' j' : Nat} (hj : j < dim) (hj' : j' < dim) (h : i * dim + j = i' * dim + j') :
    i = i' ∧ j = j' := by
  have hpos : 0 < dim := Nat.zero_lt_of_lt hj
  have hrow : ∀ a b, b < dim → (a * dim + b) / dim = a := fun a b hb => by
    rw [Nat.mul_comm, Nat.mul_add_div hpos, Nat.div_eq_of_lt hb, Nat.add_zero]
  obtain rfl : i = i' := by rw [← hrow i j hj, h, hrow i' j' hj']
  exact ⟨rfl, Nat.add_left_cancel h⟩

section Fits

variable (hdim : dim < 2 ^ 16)
include hdim

lemma size_lt : dim * dim < 2 ^ 32 := (Nat.mul_lt_mul'' hdim hdim).trans_eq (by decide)

lemma entries_eq : entries dim = dim * dim := Nat.mod_eq_of_lt (size_lt hdim)

lemma index_mod {i j : Nat} (hi : i < dim) (hj : j < dim) : (i * dim + j) % 2 ^ 32 = i * dim + j :=
  Nat.mod_eq_of_lt ((index_lt hi hj).trans (size_lt hdim))

lemma read_mod {i j : Nat} (hij : i < j) (hj : j < dim) : (i * dim + i + 1 + j) % 2 ^ 32 = i * dim + i + 1 + j :=
  Nat.mod_eq_of_lt ((read_lt hij hj).trans (size_lt hdim))

/-- Each entry belongs to one pair. -/
lemma eq_of_index {i j : Nat} {b : Nat × Nat} (hj : j < dim) (hb : b ∈ pairs dim)
    (heq : i * dim + j = (b.1 * dim + b.2) % 2 ^ 32) : b = (i, j) := by
  obtain ⟨hlt, hb2⟩ := mem_pairs.mp hb
  rw [index_mod hdim (hlt.trans hb2) hb2] at heq
  obtain ⟨rfl, rfl⟩ := index_inj hj hb2 heq
  rfl

lemma word_inside (hwords : 32 ∣ dim) {i k : Nat} (hi : i < dim) (hk : k < dim) :
    (i * dim + k) % 2 ^ 32 / 4 / 8 < matrixWords dim := by
  have hlt := index_lt hi hk
  have hsize : 32 ∣ dim * dim := hwords.mul_right dim
  rw [index_mod hdim hi hk, matrixWords, Nat.mod_eq_of_lt (size_lt hdim)]
  omega

lemma countInside (hwords : 32 ∣ dim) {i j k : Nat} (hij : i < j) (hj : j < dim) (hk : k < dim / 8 / 4) :
    CountInside dim i j k where
  first := word_inside hdim hwords (hij.trans hj) (by omega)
  second := word_inside hdim hwords hj (by omega)
  entry := by
    rw [index_mod hdim (hij.trans hj) hj, entries_eq hdim]
    exact index_lt (hij.trans hj) hj

lemma indexInside {i j : Nat} (hij : i < j) (hj : j < dim) : IndexInside dim i j where
  read := by
    rw [read_mod hdim hij hj, entries_eq hdim]
    exact read_lt hij hj
  write := by
    rw [index_mod hdim (hij.trans hj) hj, entries_eq hdim]
    exact index_lt (hij.trans hj) hj

end Fits

/-! ### What the first nest counts -/

def noCounts : Counts := ⟨fun _ => 0, fun _ => 0⟩

lemma main_eq_ok {s : Counts} {result : Nat → R.Value} :
    main R dim matrix = .ok (s, result) ↔
      countNeighbors dim matrix noCounts = .ok s ∧ computeIndices R dim s (fun _ => R.zero) = .ok result := by
  simp only [main, bind_eq_ok, Except.ok.injEq, Prod.mk.injEq]
  constructor
  · rintro ⟨s, hs, result, hresult, rfl, rfl⟩
    exact ⟨hs, hresult⟩
  · rintro ⟨hs, hresult⟩
    exact ⟨s, hs, result, hresult, rfl, rfl⟩

/-- The two counts of an entry. -/
def entry (s : Counts) (e : Nat) : BitVec 32 × BitVec 32 := (s.commonNeighbors e, s.totalNeighbors e)

variable (dim matrix) in
/-- The bits that are set in the words which the passes before `n` combine. -/
def wordSum (op : BitVec 32 → BitVec 32 → BitVec 32) (i j n : Nat) : Nat :=
  ∑ k ∈ Finset.range n, (List.range 32).countP
    (op (matrix ((i * dim + k) % 2 ^ 32 / 4 / 8)) (matrix ((j * dim + k) % 2 ^ 32 / 4 / 8))).getLsbD

lemma numberOfSetBits_eq (v : BitVec 32) :
    numberOfSetBits v = BitVec.ofNat 32 ((List.range 32).countP v.getLsbD) := upopcount_eq v

lemma entry_wordAdded_of_ne {i j k e : Nat} (s : Counts) (h : e ≠ (i * dim + j) % 2 ^ 32) :
    entry (wordAdded dim matrix i j s k) e = entry s e := by
  simp only [entry, wordAdded, Function.update_of_ne h]

lemma entry_pairAdded_of_ne {a : Nat × Nat} {e : Nat} (s : Counts) (h : e ≠ (a.1 * dim + a.2) % 2 ^ 32) :
    entry (pairAdded dim matrix s a) e = entry s e :=
  foldl_frame (entry · e) (fun _ _ s => entry_wordAdded_of_ne s h) s

variable (dim matrix) in
lemma entry_pairAdded (s : Counts) (a : Nat × Nat) :
    entry (pairAdded dim matrix s a) ((a.1 * dim + a.2) % 2 ^ 32) =
      entry s ((a.1 * dim + a.2) % 2 ^ 32) +
        (BitVec.ofNat 32 (wordSum dim matrix (· &&& ·) a.1 a.2 (dim / 8 / 4)),
          BitVec.ofNat 32 (wordSum dim matrix (· ||| ·) a.1 a.2 (dim / 8 / 4))) := by
  rw [pairAdded]
  generalize dim / 8 / 4 = n
  induction n with
  | zero => simp [wordSum]
  | succ n ih =>
    rw [foldl_range_succ]
    simp only [entry, wordAdded, Function.update_self, Prod.ext_iff, Prod.fst_add, Prod.snd_add] at ih ⊢
    simp only [ih.1, ih.2, wordSum, Finset.sum_range_succ, numberOfSetBits_eq, BitVec.ofNat_add, BitVec.add_assoc,
      and_self]

section Counted

variable {s : Counts} (hdim : dim < 2 ^ 16) (hs : countNeighbors dim matrix noCounts = .ok s)
include hdim hs

/-- The sums that the first nest leaves in the entry of a pair. -/
theorem entry_of_pair {i j : Nat} (hij : i < j) (hj : j < dim) :
    entry s (i * dim + j) = (BitVec.ofNat 32 (wordSum dim matrix (· &&& ·) i j (dim / 8 / 4)),
      BitVec.ofNat 32 (wordSum dim matrix (· ||| ·) i j (dim / 8 / 4))) := by
  obtain ⟨_, rfl⟩ := countNeighbors_eq_ok.mp hs
  have hmod := index_mod hdim (hij.trans hj) hj
  have hat := fun s => entry_pairAdded dim matrix s (i, j)
  simp only [hmod] at hat
  rw [foldl_at (entry · (i * dim + j)) (· + _) pairs_nodup (mem_pairs.mpr ⟨hij, hj⟩) hat]
  · exact zero_add _
  · intro b hb hne s
    exact entry_pairAdded_of_ne s fun heq => hne (eq_of_index hdim hj hb heq)

end Counted

/-- The entries from which the second nest computes a result. -/
theorem result_of_pair {s : Counts} {zeros result : Nat → R.Value} (hdim : dim < 2 ^ 16)
    (h : computeIndices R dim s zeros = .ok result) {i j : Nat} (hij : i < j) (hj : j < dim) :
    result (i * dim + j) =
      indexOf R (entry s (i * dim + i + 1 + j)).1 (entry s (i * dim + i + 1 + j)).2 := by
  obtain ⟨_, rfl⟩ := computeIndices_eq_ok.mp h
  have hmod := index_mod hdim (hij.trans hj) hj
  have hpair : (i, j) ∈ pairs dim := mem_pairs.mpr ⟨hij, hj⟩
  refine foldl_at (fun result => result (i * dim + j)) (fun _ => _) pairs_nodup hpair ?_ ?_ zeros
  · intro result
    simp only [indexStored, hmod, Function.update_self, read_mod hdim hij hj, entry]
  · intro b hb hne result
    exact Function.update_of_ne (fun heq => hne (eq_of_index hdim hj hb heq)) ..

/-! ### The matching index -/

variable (dim matrix) in
/-- Bit `k` of row `i`. -/
def bit (i k : Nat) : Bool := (matrix ((i * dim + k) / 32)).getLsbD ((i * dim + k) % 32)

variable (dim matrix) in
/-- The counts of each pair are those of its two rows. -/
structure CountsNeighbors (s : Counts) : Prop where
  common : ∀ i j, i < j → j < dim → (s.commonNeighbors (i * dim + j)).toNat =
    (List.range dim).countP fun k => bit dim matrix i k && bit dim matrix j k
  total : ∀ i j, i < j → j < dim → (s.totalNeighbors (i * dim + j)).toNat =
    (List.range dim).countP fun k => bit dim matrix i k || bit dim matrix j k

variable (R dim) in
/-- Whatever the first nest has left, the second one computes the result of each pair from the two entries of this
pair. -/
def IndexesOwnEntries : Prop := ∀ (s : Counts) (initial : Nat → R.Value), ∃ result,
  computeIndices R dim s initial = .ok result ∧ ∀ i j, i < j → j < dim →
    result (i * dim + j) = indexOf R (s.commonNeighbors (i * dim + j)) (s.totalNeighbors (i * dim + j))

variable (R dim matrix) in
def ComputesIndices : Prop :=
  (∃ s, countNeighbors dim matrix noCounts = .ok s ∧ CountsNeighbors dim matrix s) ∧ IndexesOwnEntries R dim

lemma wordSum_of_le {op : BitVec 32 → BitVec 32 → BitVec 32} {b : Bool → Bool → Bool} {i j : Nat}
    (hop : ∀ x y l, (op x y).getLsbD l = b (x.getLsbD l) (y.getLsbD l)) (hdim : dim ≤ 1024) (hwords : 32 ∣ dim)
    (hi : i < dim) (hj : j < dim) :
    wordSum dim matrix op i j (dim / 8 / 4) =
      dim / 32 * (List.range 32).countP fun k => b (bit dim matrix i k) (bit dim matrix j k) := by
  have hrow : ∀ i, 32 ∣ i * dim := fun i => hwords.mul_left i
  have hword : ∀ i < dim, ∀ k < dim / 8 / 4, (i * dim + k) % 2 ^ 32 / 4 / 8 = i * dim / 32 := by
    intro i hi k hk
    have hstart := hrow i
    rw [index_mod (by omega) hi (by omega)]
    omega
  have hbit : ∀ i < dim, ∀ l < 32, (matrix (i * dim / 32)).getLsbD l = bit dim matrix i l := by
    intro i hi l hl
    have hstart := hrow i
    rw [bit, show (i * dim + l) / 32 = i * dim / 32 by omega, show (i * dim + l) % 32 = l by omega]
  have hpass : ∀ k ∈ Finset.range (dim / 8 / 4), (List.range 32).countP
      (op (matrix ((i * dim + k) % 2 ^ 32 / 4 / 8)) (matrix ((j * dim + k) % 2 ^ 32 / 4 / 8))).getLsbD =
        (List.range 32).countP fun l => b (bit dim matrix i l) (bit dim matrix j l) := by
    intro k hk
    have hk := Finset.mem_range.mp hk
    rw [hword i hi k hk, hword j hj k hk]
    refine countP_range_congr fun l hl => ?_
    rw [hop, hbit i hi l hl, hbit j hj l hl]
  rw [wordSum, Finset.sum_const_nat hpass, Finset.card_range, Nat.div_div_eq_div_mul]

/-- Up to dimension 1024 the first nest counts the first word of each row, as often as a row has words. -/
theorem entry_of_first_words {s : Counts} (hdim : dim ≤ 1024) (hwords : 32 ∣ dim)
    (hs : countNeighbors dim matrix noCounts = .ok s) {i j : Nat} (hij : i < j) (hj : j < dim) :
    entry s (i * dim + j) =
      (BitVec.ofNat 32 (dim / 32 * (List.range 32).countP fun k => bit dim matrix i k && bit dim matrix j k),
        BitVec.ofNat 32 (dim / 32 * (List.range 32).countP fun k => bit dim matrix i k || bit dim matrix j k)) := by
  have hi := hij.trans hj
  rw [entry_of_pair (by omega) hs hij hj, wordSum_of_le (fun _ _ _ => BitVec.getLsbD_and) hdim hwords hi hj,
    wordSum_of_le (fun _ _ _ => BitVec.getLsbD_or) hdim hwords hi hj]

variable (R matrix) in
/-- A matrix that fits is processed to the end. -/
lemma main_runs (hdim : dim < 2 ^ 16) (hwords : 32 ∣ dim) : ∃ s result, main R dim matrix = .ok (s, result) := by
  refine ⟨_, _, main_eq_ok.mpr ⟨countNeighbors_eq_ok.mpr ⟨?_, rfl⟩, computeIndices_eq_ok.mpr ⟨?_, rfl⟩⟩⟩
  · exact fun i j hij hj k hk => countInside hdim hwords hij hj (List.mem_range.mp hk)
  · exact fun i j => indexInside hdim

/-- Counts that are set for the pair of the rows 0 and 1 only. -/
def countsOfFirstPair : Counts := ⟨fun e => if e = 1 then 1 else 0, fun e => if e = 1 then 1 else 0⟩

/-- For the first pair the second nest reads the entry of the pair after it. -/
lemma not_indexesOwnEntries (hdim : dim < 2 ^ 32) (hpos : 0 < dim) (hwords : 32 ∣ dim) :
    ¬IndexesOwnEntries R dim := by
  intro h
  obtain ⟨result, hresult, hown⟩ := h countsOfFirstPair fun _ => R.zero
  have hfits := dim_lt_of_inside hdim (Nat.dvd_trans (by decide) hwords) (computeIndices_eq_ok.mp hresult).1
  have hone : 1 < dim := by
    have hle := Nat.le_of_dvd hpos hwords
    omega
  have hstored := result_of_pair hfits hresult Nat.zero_lt_one hone
  have hread : entry countsOfFirstPair (0 * dim + 0 + 1 + 1) = (0, 0) := by
    rw [Nat.zero_mul]
    rfl
  have hentry : countsOfFirstPair.commonNeighbors (0 * dim + 1) = 1 ∧
      countsOfFirstPair.totalNeighbors (0 * dim + 1) = 1 := by
    rw [Nat.zero_mul]
    exact ⟨rfl, rfl⟩
  rw [hown 0 1 Nat.zero_lt_one hone, hentry.1, hentry.2, hread, indexOf, indexOf,
    if_neg (by decide), if_pos ⟨rfl, rfl⟩] at hstored
  exact R.div_ne 1 1 (by decide) hstored

variable (R) in
lemma indexesOwnEntries_zero : IndexesOwnEntries R 0 := fun _ initial =>
  ⟨initial, rfl, fun _ _ _ hj => absurd hj (Nat.not_lt_zero _)⟩

variable (R matrix) in
/-- The program computes the matching indices only when there is nothing to compute. -/
theorem computesIndices_iff (hdim : dim < 2 ^ 32) (hwords : 32 ∣ dim) : ComputesIndices R dim matrix ↔ dim = 0 := by
  constructor
  · rintro ⟨-, hown⟩
    by_contra hne
    exact not_indexesOwnEntries hdim (Nat.pos_of_ne_zero hne) hwords hown
  · rintro rfl
    have hnone : ∀ {P : Nat → Nat → Prop} (i j : Nat), i < j → j < 0 → P i j :=
      fun _ _ _ hj => absurd hj (Nat.not_lt_zero _)
    exact ⟨⟨noCounts, rfl, ⟨hnone, hnone⟩⟩, indexesOwnEntries_zero R⟩

lemma quotient_ne_neg_one (c t : BitVec 32) : (c.toNat : ℚ) / t.toNat ≠ -1 := by
  have hquotient : (0 : ℚ) ≤ c.toNat / t.toNat := div_nonneg (Nat.cast_nonneg _) (Nat.cast_nonneg _)
  exact (neg_one_lt_zero.trans_le hquotient).ne'

/-- Exact quotients. -/
def rationals : Floats where
  Value := ℚ
  zero := (0 : ℚ)
  minusOne := (-1 : ℚ)
  ofUnsigned v := (v.toNat : ℚ)
  div x y := (x / y : ℚ)
  div_ne c t _ := quotient_ne_neg_one c t

/-- Only bit 96 of row 0 is set. -/
def oneNeighbor (w : Nat) : BitVec 32 := if w = 3 then 1 else 0

theorem computesIndices_iff_program : (128 < 2 ^ 32 ∧ 32 ∣ 128) ∧ ¬ComputesIndices rationals 128 fun w => w := by
  have hdim : 128 < 2 ^ 32 ∧ 32 ∣ 128 := by decide
  exact ⟨hdim, fun h => absurd ((computesIndices_iff rationals _ hdim.1 hdim.2).mp h) (by decide)⟩

/-- The neighbour is in the last word of its row, and it is not counted. -/
theorem oneNeighbor_not_counted :
    (∃ s result, main rationals 128 oneNeighbor = .ok (s, result) ∧ s.totalNeighbors (0 * 128 + 1) = 0) ∧
      (List.range 128).countP (fun k => bit 128 oneNeighbor 0 k || bit 128 oneNeighbor 1 k) = 1 ∧
      ¬ComputesIndices rationals 128 oneNeighbor := by
  have hcount : (List.range 128).countP (fun k => bit 128 oneNeighbor 0 k || bit 128 oneNeighbor 1 k) = 1 := by
    decide
  have hzero : ∀ s, countNeighbors 128 oneNeighbor noCounts = .ok s → s.totalNeighbors (0 * 128 + 1) = 0 := by
    intro s hs
    have hentry := entry_of_first_words (by decide) (by decide) hs Nat.zero_lt_one (by decide)
    exact (congrArg Prod.snd hentry).trans (by decide)
  refine ⟨?_, hcount, ?_⟩
  · obtain ⟨s, result, hmain⟩ := main_runs rationals oneNeighbor (by decide : 128 < 2 ^ 16) (by decide)
    exact ⟨s, result, hmain, hzero s (main_eq_ok.mp hmain).1⟩
  · rintro ⟨⟨s, hs, h⟩, -⟩
    have htotal := h.total 0 1 Nat.zero_lt_one (by decide)
    rw [hzero s hs, hcount] at htotal
    exact absurd htotal (by decide)

end MimdramLean.Proofs.MatchingIndex

import MimdramLean.Controller

/-!
# Rows in the address space

A bank layout says where the rows of one bank lie in the address space of a controller. With one
channel and a row buffer of `ROW_SIZE`, the mappings `RoRaBaChCo` and `RoRaBaCoCh` have one for
every bank: there a row is a block of consecutive addresses.
-/

namespace MimdramLean.Proofs
open Library

variable {p : Params}

lemma decodeAddr_eq_ok {a : Nat} {loc : Location p} :
    decodeAddr p a = .ok loc ↔ (0 < p.banksPerRank ∧ 0 < columnDivisor p) ∧
      (addrAboveRank p a % p.rowsPerBank < p.rowsPerBank ∧
        addrAboveRank p a % p.rowsPerBank < Row.noRow) ∧
      addrAboveColumns p a / p.banksPerRank % p.ranksPerChannel % 256 = loc.rank.val ∧
      addrAboveColumns p a % p.banksPerRank % 256 = loc.bank.val ∧
      addrAboveRank p a % p.rowsPerBank = loc.row.val := by
  simp only [decodeAddr]
  by_cases hpos : 0 < p.banksPerRank ∧ 0 < columnDivisor p
  · rw [dif_pos hpos]
    by_cases hrow : addrAboveRank p a % p.rowsPerBank < p.rowsPerBank ∧
        addrAboveRank p a % p.rowsPerBank < Row.noRow
    · rw [dif_pos hrow]
      obtain ⟨rank, bank, row⟩ := loc
      simp only [Except.ok.injEq, Location.mk.injEq, Fin.ext_iff, hpos, hrow, true_and]
    · rw [dif_neg hrow]
      exact ⟨nofun, fun h => absurd h.2.1 hrow⟩
  · rw [dif_neg hpos]
    exact ⟨nofun, fun h => absurd h.1 hpos⟩

/-- Where the rows of one bank lie: `ROW_SIZE` bytes from `base r` on decode to row `r`. Rows have
no number of the B-group or C-group. -/
structure BankLayout (p : Params) where
  rank : Fin p.ranksPerChannel
  bank : Fin p.banksPerRank
  rows_le : p.rowsPerBank ≤ Row.c1
  base : Fin p.rowsPerBank → Nat
  decodes : ∀ r, ∀ i < rowSize, ∃ loc, decodeAddr p (base r + i) = .ok loc ∧
    loc.rank = rank ∧ loc.bank = bank ∧ loc.row.val = r.val

namespace BankLayout

variable (L : BankLayout p)

lemma decodes_base (r : Fin p.rowsPerBank) : ∃ loc, decodeAddr p (L.base r) = .ok loc ∧
    loc.rank = L.rank ∧ loc.bank = L.bank ∧ loc.row.val = r.val :=
  L.decodes r 0 (by decide)

/-- Different rows do not overlap: a byte decodes to one row. -/
lemma apart {r r' : Fin p.rowsPerBank} (h : r ≠ r') :
    L.base r + rowSize ≤ L.base r' ∨ L.base r' + rowSize ≤ L.base r := by
  by_contra hover
  rw [not_or, not_le, not_le] at hover
  -- the larger base lies in both rows
  obtain ⟨i, i', hi, hi', heq⟩ : ∃ i i', i < rowSize ∧ i' < rowSize ∧ L.base r + i = L.base r' + i' := by
    rcases le_total (L.base r) (L.base r') with hle | hle
    · exact ⟨L.base r' - L.base r, 0, by omega, by decide, by omega⟩
    · exact ⟨0, L.base r - L.base r', by decide, by omega, by omega⟩
  obtain ⟨loc, hloc, -, -, hrow⟩ := L.decodes r i hi
  obtain ⟨loc', hloc', -, -, hrow'⟩ := L.decodes r' i' hi'
  rw [heq, hloc'] at hloc
  cases hloc
  exact h (Fin.ext (hrow.symm.trans hrow'))

include L in
/-- Any address decodes, if one does. -/
lemma decodes_any (r : Fin p.rowsPerBank) (a : Nat) : ∃ loc, decodeAddr p a = .ok loc := by
  obtain ⟨loc, hloc, -⟩ := L.decodes_base r
  obtain ⟨hpos, -⟩ := decodeAddr_eq_ok.mp hloc
  have hrow : addrAboveRank p a % p.rowsPerBank < p.rowsPerBank := Nat.mod_lt _ r.pos
  have hreserved : Row.c1 < Row.noRow := by decide
  have hle := L.rows_le
  exact ⟨⟨⟨_, lt_of_le_of_lt (Nat.mod_le _ 256) (Nat.mod_lt _ p.ranks_pos)⟩,
    ⟨_, lt_of_le_of_lt (Nat.mod_le _ 256) (Nat.mod_lt _ hpos.1)⟩, ⟨_, by omega⟩⟩,
    decodeAddr_eq_ok.mpr ⟨hpos, ⟨hrow, by omega⟩, rfl, rfl, rfl⟩⟩

end BankLayout

/-! ### Contiguous rows -/

lemma div_mod_digit {q n d : Nat} (hd : d < n) : (q * n + d) / n = q ∧ (q * n + d) % n = d := by
  rw [Nat.mul_comm]
  constructor
  · rw [Nat.mul_add_div (by omega), Nat.div_eq_of_lt hd, Nat.add_zero]
  · rw [Nat.mul_add_mod, Nat.mod_eq_of_lt hd]

/-- One channel and row buffers of `rowBufferSize` bytes. -/
structure OneChannel (p : Params) (rowBufferSize : Nat) : Prop where
  channels : p.channels = 1
  stripe : p.columnsPerStripe ∣ p.columnsPerRowBuffer
  rowBuffer : p.burstSize * p.columnsPerRowBuffer = rowBufferSize

namespace OneChannel

variable {rowBufferSize : Nat} (h : OneChannel p rowBufferSize)

include h

lemma columns_pos (hpos : 0 < rowBufferSize) : 0 < p.columnsPerRowBuffer := by
  rw [← h.rowBuffer] at hpos
  exact Nat.pos_of_mul_pos_left hpos

lemma stripes : p.columnsPerStripe * (p.columnsPerRowBuffer / p.columnsPerStripe) = p.columnsPerRowBuffer :=
  Nat.mul_div_cancel' h.stripe

lemma columnDivisor_eq : columnDivisor p = p.columnsPerRowBuffer := by
  have hstripe := h.stripes
  unfold columnDivisor
  split <;> simp [h.channels, hstripe]

/-- The mappings with the columns at the bottom first take out the position in the row buffer. -/
lemma addrAboveColumns_eq (hmap : p.addrMapping ≠ .roCoRaBaCh) (a : Nat) :
    addrAboveColumns p a = a / rowBufferSize := by
  have hstripe := h.stripes
  rw [← h.rowBuffer, ← Nat.div_div_eq_div_mul]
  unfold addrAboveColumns
  split
  · simp [h.channels]
  · simp [h.channels, Nat.div_div_eq_div_mul, hstripe, Nat.mul_assoc]
  · exact absurd ‹_› hmap

lemma addrAboveRank_eq (hmap : p.addrMapping ≠ .roCoRaBaCh) (a : Nat) :
    addrAboveRank p a = a / rowBufferSize / p.banksPerRank / p.ranksPerChannel := by
  rw [← h.addrAboveColumns_eq hmap]
  unfold addrAboveRank
  split
  · rfl
  · rfl
  · exact absurd ‹_› hmap

/-- The other mapping takes out the position in a stripe, and the stripe only above the rank. -/
lemma addrAboveColumns_roCoRaBaCh (hmap : p.addrMapping = .roCoRaBaCh) (a : Nat) :
    addrAboveColumns p a = a / (p.burstSize * p.columnsPerStripe) := by
  rw [addrAboveColumns, hmap]
  simp only [h.channels, Nat.div_one, Nat.div_div_eq_div_mul]

lemma addrAboveRank_roCoRaBaCh (hmap : p.addrMapping = .roCoRaBaCh) (a : Nat) :
    addrAboveRank p a = a / (p.burstSize * p.columnsPerStripe) / p.banksPerRank / p.ranksPerChannel /
      (p.columnsPerRowBuffer / p.columnsPerStripe) := by
  rw [addrAboveRank, h.addrAboveColumns_roCoRaBaCh hmap, hmap]

end OneChannel

/-- One channel, a row buffer of `ROW_SIZE`, and the columns below the bank and the rank. -/
structure Contiguous (p : Params) : Prop where
  channels : p.channels = 1
  stripe : p.columnsPerStripe ∣ p.columnsPerRowBuffer
  rowBuffer : p.burstSize * p.columnsPerRowBuffer = rowSize
  mapping : p.addrMapping ≠ .roCoRaBaCh
  ranks : p.ranksPerChannel ≤ 256
  banks : p.banksPerRank ≤ 256

namespace Contiguous

variable (h : Contiguous p)

include h

lemma oneChannel : OneChannel p rowSize := ⟨h.channels, h.stripe, h.rowBuffer⟩

/-- The layout of a bank. -/
def layout (hrows : p.rowsPerBank ≤ Row.c1) (rank : Fin p.ranksPerChannel) (bank : Fin p.banksPerRank) :
    BankLayout p where
  rank := rank
  bank := bank
  rows_le := hrows
  base := fun r => ((r.val * p.ranksPerChannel + rank.val) * p.banksPerRank + bank.val) * rowSize
  decodes := by
    intro r i hi
    have hbanks := h.banks
    have hranks := h.ranks
    have hreserved : Row.c1 < Row.noRow := by decide
    have hchannel := h.oneChannel
    obtain ⟨hcol, -⟩ := div_mod_digit
      (q := (r.val * p.ranksPerChannel + rank.val) * p.banksPerRank + bank.val) hi
    obtain ⟨hbank, hbank'⟩ := div_mod_digit (q := r.val * p.ranksPerChannel + rank.val) bank.isLt
    obtain ⟨hrank, hrank'⟩ := div_mod_digit (q := r.val) rank.isLt
    refine ⟨⟨rank, bank, ⟨r.val, by omega⟩⟩, decodeAddr_eq_ok.mpr ⟨⟨bank.pos, ?_⟩, ?_, ?_, ?_, ?_⟩,
      rfl, rfl, rfl⟩
    · rw [hchannel.columnDivisor_eq]
      exact hchannel.columns_pos (by decide)
    · rw [hchannel.addrAboveRank_eq h.mapping, hcol, hbank, hrank, Nat.mod_eq_of_lt r.isLt]
      exact ⟨r.isLt, by omega⟩
    · rw [hchannel.addrAboveColumns_eq h.mapping, hcol, hbank, hrank', Nat.mod_eq_of_lt (by omega)]
    · rw [hchannel.addrAboveColumns_eq h.mapping, hcol, hbank', Nat.mod_eq_of_lt (by omega)]
    · rw [hchannel.addrAboveRank_eq h.mapping, hcol, hbank, hrank, Nat.mod_eq_of_lt r.isLt]

end Contiguous

lemma contiguous_ddr3_1600_x64 : Contiguous ddr3_1600_x64 where
  channels := rfl
  stripe := ⟨128, rfl⟩
  rowBuffer := rfl
  mapping := by decide
  ranks := by decide
  banks := by decide

end MimdramLean.Proofs

import MimdramLean.Allocation
import MimdramLean.Library.Blocks
import MimdramLean.Proofs.Decode
import MimdramLean.Translation
import Mathlib.Data.Nat.ModEq

/-!
# The address map

`decodeAddr` reads an address as a number with mixed radices: column, bank, rank and row, in an order that the
mapping fixes. As many addresses go to each row as a row buffer has bytes. Where the columns are at the bottom,
these are the addresses of one block, and the bank repeats after all banks of all ranks: what `mimdram.h` relies on
when it aligns its vectors.
-/

namespace MimdramLean.Proofs
open Library DRAMCtrl

variable {p : Params} {rowBufferSize : Nat}

/-- The distance after which rank and bank repeat. -/
def bankStride (p : Params) (rowBufferSize : Nat) : Nat := rowBufferSize * p.banksPerRank * p.ranksPerChannel

/-- The number of addresses of the channel. -/
def capacity (p : Params) (rowBufferSize : Nat) : Nat := bankStride p rowBufferSize * p.rowsPerBank

/-- The row of an address of the channel is not reduced. -/
lemma rowNumber_lt {a : Nat} (ha : a < capacity p rowBufferSize) :
    a / rowBufferSize / p.banksPerRank / p.ranksPerChannel < p.rowsPerBank := by
  rw [Nat.div_div_eq_div_mul, Nat.div_div_eq_div_mul, ← Nat.mul_assoc]
  exact Nat.div_lt_of_lt_mul ha

/-- The address belongs to the row. -/
def DecodesTo (p : Params) (rank : Fin p.ranksPerChannel) (bank : Fin p.banksPerRank) (row a : Nat) : Prop :=
  ∃ loc, decodeAddr p a = .ok loc ∧ (loc.rank = rank ∧ loc.bank = bank ∧ loc.row.val = row)

lemma decodesTo_iff_okWith {rank : Fin p.ranksPerChannel} {bank : Fin p.banksPerRank} {row a : Nat} :
    okWith (decodeAddr p a) (fun loc => decide (loc.rank = rank ∧ loc.bank = bank ∧ loc.row.val = row)) = true ↔
      DecodesTo p rank bank row a := by
  unfold DecodesTo
  cases decodeAddr p a with
  | ok loc => simp [okWith]
  | error e => simp [okWith]

instance (rank : Fin p.ranksPerChannel) (bank : Fin p.banksPerRank) (row : Nat) :
    DecidablePred (DecodesTo p rank bank row) := fun _ => decidable_of_iff _ decodesTo_iff_okWith

/-- What the parameters of the address map have to be like. -/
structure AddressMap (p : Params) (rowBufferSize : Nat) : Prop extends OneChannel p rowBufferSize where
  ranks : p.ranksPerChannel ≤ 256
  banks : p.banksPerRank ≤ 256
  rows : p.rowsPerBank < 2 ^ 32

namespace AddressMap

variable (h : AddressMap p rowBufferSize)

include h

/-- Any address decodes: its digits are not truncated and in range. -/
lemma decodes (hpos : 0 < capacity p rowBufferSize) (a : Nat) : ∃ loc, decodeAddr p a = .ok loc ∧
    loc.rank.val = addrAboveColumns p a / p.banksPerRank % p.ranksPerChannel ∧
    loc.bank.val = addrAboveColumns p a % p.banksPerRank ∧
    loc.row.val = addrAboveRank p a % p.rowsPerBank := by
  have hrows : 0 < p.rowsPerBank := Nat.pos_of_mul_pos_left hpos
  have hstride : 0 < bankStride p rowBufferSize := Nat.pos_of_mul_pos_right hpos
  have hbanks : 0 < rowBufferSize * p.banksPerRank := Nat.pos_of_mul_pos_right hstride
  have hbank := Nat.mod_lt (addrAboveColumns p a) (Nat.pos_of_mul_pos_left hbanks)
  have hrank := Nat.mod_lt (addrAboveColumns p a / p.banksPerRank) p.ranks_pos
  have hrow := Nat.mod_lt (addrAboveRank p a) hrows
  have hnoRow : addrAboveRank p a % p.rowsPerBank < Row.noRow := by
    have := h.rows
    rw [Row.noRow]
    omega
  refine ⟨⟨⟨_, hrank⟩, ⟨_, hbank⟩, ⟨_, hnoRow⟩⟩, decodeAddr_eq_ok.mpr ⟨⟨by omega, ?_⟩, ⟨hrow, hnoRow⟩, ?_, ?_, rfl⟩,
    rfl, rfl, rfl⟩
  · rw [h.columnDivisor_eq]
    exact h.columns_pos (Nat.pos_of_mul_pos_right hbanks)
  · exact Nat.mod_eq_of_lt (lt_of_lt_of_le hrank h.ranks)
  · exact Nat.mod_eq_of_lt (lt_of_lt_of_le hbank h.banks)

lemma decodesTo_iff (hpos : 0 < capacity p rowBufferSize) {rank : Fin p.ranksPerChannel}
    {bank : Fin p.banksPerRank} {row a : Nat} : DecodesTo p rank bank row a ↔
      (addrAboveRank p a % p.rowsPerBank = row ∧
        addrAboveColumns p a / p.banksPerRank % p.ranksPerChannel = rank) ∧
      addrAboveColumns p a % p.banksPerRank = bank := by
  obtain ⟨loc, hloc, hrank, hbank, hrow⟩ := h.decodes hpos a
  constructor
  · rintro ⟨loc', hloc', rfl, rfl, rfl⟩
    obtain rfl : loc = loc' := Except.ok.inj (hloc.symm.trans hloc')
    exact ⟨⟨hrow.symm, hrank.symm⟩, hbank.symm⟩
  · rintro ⟨⟨hrow', hrank'⟩, hbank'⟩
    exact ⟨loc, hloc, Fin.ext (hrank.trans hrank'), Fin.ext (hbank.trans hbank'), hrow.trans hrow'⟩

/-! ### The addresses of a row -/

omit h in
lemma count_row {row : Nat} (hrow : row < p.rowsPerBank) :
    Nat.count (· % p.rowsPerBank = row) p.rowsPerBank = 1 :=
  count_eq_one hrow fun k hk => by rw [Nat.mod_eq_of_lt hk]

lemma count_of_columnsLow (hmap : p.addrMapping ≠ .roCoRaBaCh) (rank : Fin p.ranksPerChannel)
    (bank : Fin p.banksPerRank) {row : Nat} (hrow : row < p.rowsPerBank) :
    Nat.count (fun a => (addrAboveRank p a % p.rowsPerBank = row ∧
        addrAboveColumns p a / p.banksPerRank % p.ranksPerChannel = rank) ∧
      addrAboveColumns p a % p.banksPerRank = bank) (capacity p rowBufferSize) = rowBufferSize := by
  have hcapacity : capacity p rowBufferSize =
      p.rowsPerBank * p.ranksPerChannel * p.banksPerRank * rowBufferSize := by
    rw [capacity, bankStride]
    ring
  simp only [h.addrAboveRank_eq hmap, h.addrAboveColumns_eq hmap]
  rw [hcapacity, count_blocks_of_div (P := fun x => (x / p.banksPerRank / p.ranksPerChannel %
      p.rowsPerBank = row ∧ x / p.banksPerRank % p.ranksPerChannel = rank) ∧ x % p.banksPerRank = bank),
    count_digits (P := (· % p.rowsPerBank = row)) bank.isLt rank.isLt, count_row hrow, Nat.one_mul]

/-- The low columns are at the bottom, the other columns above the rank. -/
lemma count_of_roCoRaBaCh (hmap : p.addrMapping = .roCoRaBaCh) (rank : Fin p.ranksPerChannel)
    (bank : Fin p.banksPerRank) {row : Nat} (hrow : row < p.rowsPerBank) :
    Nat.count (fun a => (addrAboveRank p a % p.rowsPerBank = row ∧
        addrAboveColumns p a / p.banksPerRank % p.ranksPerChannel = rank) ∧
      addrAboveColumns p a % p.banksPerRank = bank) (capacity p rowBufferSize) = rowBufferSize := by
  simp only [h.addrAboveRank_roCoRaBaCh hmap, h.addrAboveColumns_roCoRaBaCh hmap]
  set columns := p.columnsPerRowBuffer / p.columnsPerStripe with hcolumns
  set stripe := p.burstSize * p.columnsPerStripe with hstripe
  have hsize : rowBufferSize = columns * stripe := by
    rw [← h.rowBuffer, ← h.stripes]
    ring
  have hcapacity : capacity p rowBufferSize =
      p.rowsPerBank * columns * p.ranksPerChannel * p.banksPerRank * stripe := by
    rw [capacity, bankStride, hsize]
    ring
  have hrows : Nat.count (fun z => z / columns % p.rowsPerBank = row) (p.rowsPerBank * columns) = columns := by
    rw [count_blocks_of_div (P := (· % p.rowsPerBank = row)), count_row hrow, Nat.one_mul]
  rw [hcapacity, count_blocks_of_div (P := fun x => (x / p.banksPerRank / p.ranksPerChannel / columns %
      p.rowsPerBank = row ∧ x / p.banksPerRank % p.ranksPerChannel = rank) ∧ x % p.banksPerRank = bank),
    count_digits (P := fun z => z / columns % p.rowsPerBank = row) bank.isLt rank.isLt, hrows, hsize]

theorem count_decodesTo (rank : Fin p.ranksPerChannel) (bank : Fin p.banksPerRank) {row : Nat}
    (hrow : row < p.rowsPerBank) :
    Nat.count (DecodesTo p rank bank row) (capacity p rowBufferSize) = rowBufferSize := by
  rcases Nat.eq_zero_or_pos rowBufferSize with rfl | hbuffer
  · simp [capacity, bankStride]
  have hpos : 0 < capacity p rowBufferSize :=
    Nat.mul_pos (Nat.mul_pos (Nat.mul_pos hbuffer bank.pos) rank.pos) (Nat.zero_lt_of_lt hrow)
  rw [count_congr fun a _ => h.decodesTo_iff hpos]
  by_cases hmap : p.addrMapping = .roCoRaBaCh
  · exact h.count_of_roCoRaBaCh hmap rank bank hrow
  · exact h.count_of_columnsLow hmap rank bank hrow

/-! ### Rows as blocks -/

theorem decodeAddr_eq_iff (hmap : p.addrMapping ≠ .roCoRaBaCh) {a a' : Nat} (ha : a < capacity p rowBufferSize)
    (ha' : a' < capacity p rowBufferSize) :
    decodeAddr p a = decodeAddr p a' ↔ a / rowBufferSize = a' / rowBufferSize := by
  obtain ⟨loc, hloc, hrank, hbank, hrow⟩ := h.decodes (Nat.zero_lt_of_lt ha) a
  obtain ⟨loc', hloc', hrank', hbank', hrow'⟩ := h.decodes (Nat.zero_lt_of_lt ha) a'
  rw [h.addrAboveColumns_eq hmap] at hrank hbank hrank' hbank'
  rw [h.addrAboveRank_eq hmap, Nat.mod_eq_of_lt (rowNumber_lt ha)] at hrow
  rw [h.addrAboveRank_eq hmap, Nat.mod_eq_of_lt (rowNumber_lt ha')] at hrow'
  rw [hloc, hloc', Except.ok.injEq]
  constructor
  · rintro rfl
    -- the digits give the block back, from the row down
    have habove : a / rowBufferSize / p.banksPerRank = a' / rowBufferSize / p.banksPerRank := by
      rw [← Nat.div_add_mod (a / rowBufferSize / p.banksPerRank) p.ranksPerChannel,
        ← Nat.div_add_mod (a' / rowBufferSize / p.banksPerRank) p.ranksPerChannel, ← hrow, ← hrow', ← hrank, ← hrank']
    rw [← Nat.div_add_mod (a / rowBufferSize) p.banksPerRank, ← Nat.div_add_mod (a' / rowBufferSize) p.banksPerRank,
      habove, ← hbank, ← hbank']
  · intro hblock
    rw [hblock] at hrank hbank hrow
    have hrank₀ : loc.rank = loc'.rank := Fin.ext (hrank.trans hrank'.symm)
    have hbank₀ : loc.bank = loc'.bank := Fin.ext (hbank.trans hbank'.symm)
    have hrow₀ : loc.row = loc'.row := Fin.ext (hrow.trans hrow'.symm)
    cases loc
    cases loc'
    simp only at hrank₀ hbank₀ hrow₀
    rw [hrank₀, hbank₀, hrow₀]

/-! ### Banks that repeat -/

theorem sameBank_of_modEq (hmap : p.addrMapping ≠ .roCoRaBaCh) (hpos : 0 < capacity p rowBufferSize) {a a' : Nat}
    (heq : a ≡ a' [MOD bankStride p rowBufferSize]) {loc loc' : Location p} (hloc : decodeAddr p a = .ok loc)
    (hloc' : decodeAddr p a' = .ok loc') : loc.rank = loc'.rank ∧ loc.bank = loc'.bank := by
  obtain ⟨l, hl, hrank, hbank, -⟩ := h.decodes hpos a
  obtain ⟨l', hl', hrank', hbank', -⟩ := h.decodes hpos a'
  obtain rfl : l = loc := Except.ok.inj (hl.symm.trans hloc)
  obtain rfl : l' = loc' := Except.ok.inj (hl'.symm.trans hloc')
  rw [h.addrAboveColumns_eq hmap] at hrank hbank hrank' hbank'
  -- the two digits are those of the block number modulo the number of banks
  have hblock : a / rowBufferSize % (p.banksPerRank * p.ranksPerChannel) =
      a' / rowBufferSize % (p.banksPerRank * p.ranksPerChannel) := by
    rw [← Nat.mod_mul_right_div_self, ← Nat.mod_mul_right_div_self, ← Nat.mul_assoc]
    exact congrArg (· / rowBufferSize) heq
  constructor
  · apply Fin.ext
    rw [hrank, hrank', ← Nat.mod_mul_right_div_self (a / rowBufferSize), hblock, Nat.mod_mul_right_div_self]
  · apply Fin.ext
    rw [hbank, hbank', ← Nat.mod_mul_right_mod _ _ p.ranksPerChannel, hblock, Nat.mod_mul_right_mod]

/-- A row operation on operands at one place modulo the stride of the banks is accepted. -/
theorem rowOpPacket_of_modEq (hmap : p.addrMapping ≠ .roCoRaBaCh) (hpos : 0 < capacity p rowBufferSize)
    {addrs : RowOpPayload}
    (heq : ∀ o, addrs.op.uses o = true → addrs.dest ≡ addrs.get o [MOD bankStride p rowBufferSize])
    (now : Nat) (pkt : Packet) : ∃ d : DRAMPacket p, rowOpPacket now pkt addrs = .ok d := by
  obtain ⟨loc, hloc, -⟩ := h.decodes hpos addrs.dest
  obtain ⟨loc1, hloc1, -⟩ := h.decodes hpos addrs.src1
  obtain ⟨loc2, hloc2, -⟩ := h.decodes hpos addrs.src2
  have hsrc1 : addrs.op ≠ .rowAp → loc.rank = loc1.rank ∧ loc.bank = loc1.bank := by
    intro hop
    exact h.sameBank_of_modEq hmap hpos (heq .src1 (by simp [RowOp.uses, hop])) hloc hloc1
  have hsrc2 : addrs.op ≠ .rowNot → addrs.op ≠ .rowAap → addrs.op ≠ .rowAp →
      loc.rank = loc2.rank ∧ loc.bank = loc2.bank := by
    intro hnot haap hap
    exact h.sameBank_of_modEq hmap hpos (heq .src2 (by simp [RowOp.uses, hnot, haap, hap])) hloc hloc2
  rw [rowOpPacket, hloc, hloc1, hloc2]
  simp only [ok_bind, ensure, if_pos hsrc1, if_pos hsrc2]
  exact ⟨_, rfl⟩

end AddressMap

/-- The address map of one channel that is not interleaved. -/
theorem decodeAddr_places_rows (p : Params) (rowBufferSize : Nat) (hchannels : p.channels = 1)
    (hstripe : p.columnsPerStripe = 1) (hburst : p.burstSize ∣ rowBufferSize)
    (hcolumns : p.columnsPerRowBuffer = rowBufferSize / p.burstSize) (hranks : p.ranksPerChannel ≤ 256)
    (hbanks : p.banksPerRank ≤ 256) (hrows : p.rowsPerBank < 2 ^ 32) :
    (∀ a < capacity p rowBufferSize, ∃ loc, decodeAddr p a = .ok loc ∧ loc.row.val < p.rowsPerBank) ∧
    (∀ rank bank, ∀ row < p.rowsPerBank,
      Nat.count (DecodesTo p rank bank row) (capacity p rowBufferSize) = rowBufferSize) ∧
    (p.addrMapping ≠ .roCoRaBaCh → ∀ a < capacity p rowBufferSize, ∀ a' < capacity p rowBufferSize,
      (decodeAddr p a = decodeAddr p a' ↔ a / rowBufferSize = a' / rowBufferSize) ∧
      (a ≡ a' [MOD bankStride p rowBufferSize] → ∀ loc loc', decodeAddr p a = .ok loc → decodeAddr p a' = .ok loc' →
        loc.rank = loc'.rank ∧ loc.bank = loc'.bank)) ∧
    (p.addrMapping ≠ .roCoRaBaCh → bankStride p rowBufferSize ∣ alignment →
      ∀ addrs : RowOpPayload, addrs.dest < capacity p rowBufferSize →
        (∀ o, addrs.op.uses o = true → addrs.dest ≡ addrs.get o [MOD alignment]) →
        ∀ now pkt, ∃ d : DRAMPacket p, rowOpPacket now pkt addrs = .ok d) := by
  have h : AddressMap p rowBufferSize :=
    { channels := hchannels
      stripe := hstripe ▸ one_dvd _
      rowBuffer := by rw [hcolumns, Nat.mul_div_cancel' hburst]
      ranks := hranks
      banks := hbanks
      rows := hrows }
  refine ⟨?_, fun rank bank row hrow => h.count_decodesTo rank bank hrow, ?_, ?_⟩
  · intro a ha
    obtain ⟨loc, hloc, -, -, hrow⟩ := h.decodes (Nat.zero_lt_of_lt ha) a
    have hpos : 0 < p.rowsPerBank := Nat.pos_of_mul_pos_left (Nat.zero_lt_of_lt ha)
    exact ⟨loc, hloc, hrow ▸ Nat.mod_lt _ hpos⟩
  · intro hmap a ha a' ha'
    exact ⟨h.decodeAddr_eq_iff hmap ha ha',
      fun heq loc loc' => h.sameBank_of_modEq hmap (Nat.zero_lt_of_lt ha) heq⟩
  · intro hmap hdvd addrs hdest heq now pkt
    exact h.rowOpPacket_of_modEq hmap (Nat.zero_lt_of_lt hdest) (fun o ho => (heq o ho).of_dvd hdvd) now pkt

theorem decodeAddr_places_rows_ddr3_1600_x64 :
    bankStride ddr3_1600_x64 8192 ∣ alignment ∧
      ∃ d : DRAMPacket ddr3_1600_x64, rowOpPacket 0 ⟨0, .rowOpReq ⟨.rowXor, 0, 2 ^ 18, 2 ^ 19⟩, false⟩
        ⟨.rowXor, 0, 2 ^ 18, 2 ^ 19⟩ = .ok d := by
  have hdvd : bankStride ddr3_1600_x64 8192 ∣ alignment := ⟨2, rfl⟩
  obtain ⟨-, -, -, h⟩ := decodeAddr_places_rows ddr3_1600_x64 8192 rfl rfl ⟨128, rfl⟩ rfl (by decide) (by decide)
    (by decide)
  refine ⟨hdvd, h (by decide) hdvd ⟨.rowXor, 0, 2 ^ 18, 2 ^ 19⟩ (by decide) ?_ 0 _⟩
  intro o _
  cases o <;> rfl

end MimdramLean.Proofs

import MimdramLean.AbstractMemory
import MimdramLean.Ambit
import MimdramLean.Proofs.Decode

/-!
# The timing model and the functional model of row operations agree

Both are compared with bulk bitwise operations on the rows of one bank: `AbstractMemory::access`
because its word loop never reads what it has stored, and the commands of `doDRAMAccess` because
majority with a constant row is conjunction or disjunction. What the commands leave in the scratch
rows does not matter to the next operation, since each writes every scratch row before it reads it.
-/

namespace MimdramLean.Proofs
open Library DRAMCtrl

/-! ### Bulk bitwise operations -/

/-- A bitwise operation of two rows, stored in a third. -/
structure BulkOp (R : Type) where
  bit : Bool → Bool → Bool
  dest : R
  src1 : R
  src2 : R

/-- The rows after the operation, lane by lane. -/
def BulkOp.apply {R ι : Type} [DecidableEq R] (x : BulkOp R) (rows : R → ι → Bool) : R → ι → Bool :=
  Function.update rows x.dest fun i => x.bit (rows x.src1 i) (rows x.src2 i)

lemma BulkOp.apply_of_ne {R ι : Type} [DecidableEq R] (x : BulkOp R) (rows : R → ι → Bool) {r : R}
    (h : r ≠ x.dest) : x.apply rows r = rows r := Function.update_of_ne h _ _

/-- What a row operation does to each bit. `ROWAP` and `ROWAAP` are not bitwise operations. -/
def bitOp : RowOp → Option (Bool → Bool → Bool)
  | .rowAnd => some fun a b => a && b
  | .rowOr => some fun a b => a || b
  | .rowNot => some fun a _ => !a
  | .rowXor => some fun a b => xor a b
  | .rowAp => none
  | .rowAap => none

/-! ### Operations on the rows of a bank -/

/-- A bit of a row: the byte and the position in the byte. -/
abbrev Lane := Fin rowSize × Fin 8

namespace BankLayout

variable {p : Params} (L : BankLayout p)

/-- The rows of the bank, as the memory content has them. -/
def rows (m : Memory) : Fin p.rowsPerBank → Lane → Bool := fun r i =>
  (m (L.base r + i.1.val)).getLsbD i.2.val

/-- The payload asks for the bulk operation `x`. Only the operands that are used matter. -/
structure Means (addrs : RowOpPayload) (x : BulkOp (Fin p.rowsPerBank)) : Prop where
  bit : bitOp addrs.op = some x.bit
  dest : addrs.dest = L.base x.dest
  src1 : addrs.src1 = L.base x.src1
  src2 : addrs.op ≠ .rowNot → addrs.src2 = L.base x.src2

/-- A bitwise row operation whose operands are rows of the bank. -/
def InBank (addrs : RowOpPayload) : Prop := ∃ x, L.Means addrs x

end BankLayout

/-! ### The functional model -/

/-- Two rows that are the same or do not overlap. -/
def SameOrApart (a b : Nat) : Prop := a = b ∨ a + rowSize ≤ b ∨ b + rowSize ≤ a

/-- A word of a source row, read while the loop stores to the destination row. -/
lemma source_byte {dest src i : Nat} (hsrc : SameOrApart dest src) (hi : i < rowSize / 8)
    {m m' : Memory} (hm : ∀ x, x < dest ∨ dest + 8 * i ≤ x → m' x = m x) {k : Nat} (hk : k < 8) :
    (load64 m' (src + 8 * i)).extractLsb' (8 * k) 8 = m (src + (8 * i + k)) := by
  rw [load64_byte _ _ hk, Nat.add_assoc]
  apply hm
  have hrow : rowSize = 8192 := rfl
  unfold SameOrApart at hsrc
  omega

/-- A loop over a row whose bytes are `g` performs an operation on the bits if `g` does so. -/
lemma forRow_bit (src1 src2 : Nat) (f : Bool → Bool → Bool) {dest : Nat} {word : Memory → Nat → BitVec 64}
    {m : Memory} {g : Nat → BitVec 8}
    (hword : ∀ i < rowSize / 8, ∀ m' : Memory, (∀ x, x < dest ∨ dest + 8 * i ≤ x → m' x = m x) →
      ∀ k < 8, (word m' (8 * i)).extractLsb' (8 * k) 8 = g (8 * i + k))
    (hbit : ∀ o, ∀ j < 8, (g o).getLsbD j = f ((m (src1 + o)).getLsbD j) ((m (src2 + o)).getLsbD j))
    (x : Nat) {j : Nat} (hj : j < 8) :
    (forRow dest word m x).getLsbD j =
      if dest ≤ x ∧ x < dest + rowSize then
        f ((m (src1 + (x - dest))).getLsbD j) ((m (src2 + (x - dest))).getLsbD j)
      else (m x).getLsbD j := by
  have hrow : dest + 8 * (rowSize / 8) = dest + rowSize := rfl
  rw [forRow, storeWords_apply hword, hrow]
  split
  · exact hbit _ _ hj
  · rfl

/-- A loop that combines the words of two rows, by an operation that works on each byte and on each bit. -/
lemma forRow_words {dest src1 src2 : Nat} {f : Bool → Bool → Bool} (word : BitVec 64 → BitVec 64 → BitVec 64)
    (byte : BitVec 8 → BitVec 8 → BitVec 8)
    (hbyte : ∀ a b k, (word a b).extractLsb' (8 * k) 8 = byte (a.extractLsb' (8 * k) 8) (b.extractLsb' (8 * k) 8))
    (hbit : ∀ a b j, (byte a b).getLsbD j = f (a.getLsbD j) (b.getLsbD j))
    (h1 : SameOrApart dest src1) (h2 : SameOrApart dest src2) (m : Memory) (x : Nat) {j : Nat} (hj : j < 8) :
    (forRow dest (fun m o => word (load64 m (src1 + o)) (load64 m (src2 + o))) m x).getLsbD j =
      if dest ≤ x ∧ x < dest + rowSize then
        f ((m (src1 + (x - dest))).getLsbD j) ((m (src2 + (x - dest))).getLsbD j)
      else (m x).getLsbD j := by
  apply forRow_bit src1 src2 f (g := fun o => byte (m (src1 + o)) (m (src2 + o)))
  · intro i hi m' hm k hk
    rw [hbyte, source_byte h1 hi hm hk, source_byte h2 hi hm hk]
  · intro o j _
    exact hbit _ _ _
  · exact hj

/-- The word loops of `AbstractMemory::access` perform the operation on each bit of the row. A negation does not
look at its second operand. -/
theorem accessRowOp_bit {op : RowOp} {f : Bool → Bool → Bool} (hop : bitOp op = some f) {dest src1 src2 : Nat}
    (s2 : Nat) (h1 : SameOrApart dest src1) (h2 : op ≠ .rowNot → src2 = s2 ∧ SameOrApart dest s2)
    (m : Memory) (x : Nat) {j : Nat} (hj : j < 8) :
    (accessRowOp m ⟨op, dest, src1, src2⟩ x).getLsbD j =
      if dest ≤ x ∧ x < dest + rowSize then
        f ((m (src1 + (x - dest))).getLsbD j) ((m (s2 + (x - dest))).getLsbD j)
      else (m x).getLsbD j := by
  cases op with
  | rowAnd =>
    obtain rfl := Option.some.inj hop
    obtain ⟨rfl, h2⟩ := h2 (by simp)
    exact forRow_words (· &&& ·) (· &&& ·) (fun _ _ _ => BitVec.extractLsb'_and)
      (fun _ _ _ => BitVec.getLsbD_and) h1 h2 m x hj
  | rowOr =>
    obtain rfl := Option.some.inj hop
    obtain ⟨rfl, h2⟩ := h2 (by simp)
    exact forRow_words (· ||| ·) (· ||| ·) (fun _ _ _ => BitVec.extractLsb'_or)
      (fun _ _ _ => BitVec.getLsbD_or) h1 h2 m x hj
  | rowNot =>
    obtain rfl := Option.some.inj hop
    apply forRow_bit src1 s2 (fun a _ => !a) (g := fun o => ~~~m (src1 + o))
    · intro i hi m' hm k hk
      rw [not_byte _ hk, source_byte h1 hi hm hk]
    · intro o j hj
      simp [hj]
    · exact hj
  | rowXor =>
    obtain rfl := Option.some.inj hop
    obtain ⟨rfl, h2⟩ := h2 (by simp)
    exact forRow_words (· ^^^ ·) (· ^^^ ·) (fun _ _ _ => BitVec.extractLsb'_xor)
      (fun _ _ _ => BitVec.getLsbD_xor) h1 h2 m x hj
  | rowAp => simp [bitOp] at hop
  | rowAap => simp [bitOp] at hop

variable {p : Params}

lemma BankLayout.sameOrApart (L : BankLayout p) (r r' : Fin p.rowsPerBank) :
    SameOrApart (L.base r) (L.base r') := by
  by_cases h : r = r'
  · exact Or.inl (congrArg L.base h)
  · exact Or.inr (L.apart h)

/-- On the rows of a bank this is the bulk operation. -/
lemma accessRowOp_rows {L : BankLayout p} {addrs : RowOpPayload} {x : BulkOp (Fin p.rowsPerBank)}
    (h : L.Means addrs x) (m : Memory) : L.rows (accessRowOp m addrs) = x.apply (L.rows m) := by
  obtain ⟨op, dest, src1, src2⟩ := addrs
  obtain ⟨hbit, rfl, rfl, hsrc2⟩ := h
  funext r i
  rw [BankLayout.rows, accessRowOp_bit hbit (L.base x.src2) (L.sameOrApart _ _)
    (fun hop => ⟨hsrc2 hop, L.sameOrApart _ _⟩) m _ i.2.isLt]
  by_cases hr : r = x.dest
  · subst hr
    rw [if_pos (by omega), Nat.add_sub_cancel_left]
    simp [BulkOp.apply, BankLayout.rows]
  · have hapart := L.apart hr
    rw [if_neg (by omega), x.apply_of_ne _ hr]
    rfl

/-! ### The timing model -/

section Commands

open Row CellArray

variable {ι : Type}

/-- The commands of a bitwise row operation perform it, whatever the scratch rows hold. -/
lemma rowOpCommands_exec {op : RowOp} {f : Bool → Bool → Bool} (hop : bitOp op = some f)
    (st : CellArray ι) {d a b : Nat} (hd : d < c1) (ha : a < c1) (hb : op ≠ .rowNot → b < c1) :
    ∃ st', st.execAll (rowOpCommands op d a b) = some st' ∧
      st'.data = Function.update st.data d fun i => f (st.data a i) (st.data b i) := by
  cases op with
  | rowAnd =>
    cases hop
    simp [rowOpCommands, execAll, exec, activate, drive, CellArray.read, write, wordline_data, hd, ha,
      hb (by simp)]
  | rowOr =>
    cases hop
    simp [rowOpCommands, execAll, exec, activate, drive, CellArray.read, write, wordline_data, hd, ha,
      hb (by simp)]
  | rowNot =>
    cases hop
    simp only [rowOpCommands, execAll, exec, activate, drive, write, wordline_data, hd, ha]
    simp
    congr 1
    funext i
    simp [CellArray.read]
  | rowXor =>
    cases hop
    simp only [rowOpCommands, execAll, exec, activate, drive, CellArray.read, write, wordline_data, hd, ha,
      hb (by simp)]
    simp
    -- one of `a ∧ ¬b` and `¬a ∧ b`, from the two dual-contact cells
    congr 1
    funext i
    cases st.data a i <;> cases st.data b i <;> rfl
  | rowAp => simp [bitOp] at hop
  | rowAap => simp [bitOp] at hop

end Commands

/-- The commands that `doDRAMAccess` issues for a packet. -/
def bankCommands (d : DRAMPacket p) : List BankCommand :=
  match d.rowOp with
  | some op => rowOpCommands op d.row.val d.src1Row d.src2Row
  | none => []

/-- The rows of the bank, as the cells hold them. -/
def cellRows (st : CellArray Lane) : Fin p.rowsPerBank → Lane → Bool := fun r => st.data r.val

/-- The packet of a row operation on the bank, and the rows it names. -/
lemma rowOpPacket_of_means {L : BankLayout p} {addrs : RowOpPayload} {x : BulkOp (Fin p.rowsPerBank)}
    (h : L.Means addrs x) (now : Nat) (pkt : Packet) :
    ∃ d : DRAMPacket p, rowOpPacket now pkt addrs = .ok d ∧ ∃ src2Row,
      bankCommands d = rowOpCommands addrs.op x.dest.val x.src1.val src2Row ∧
      (addrs.op ≠ .rowNot → src2Row = x.src2.val) := by
  obtain ⟨loc, hloc, hrank, hbank, hrow⟩ := L.decodes_base x.dest
  obtain ⟨loc1, hloc1, hrank1, hbank1, hrow1⟩ := L.decodes_base x.src1
  obtain ⟨loc2, hloc2⟩ := L.decodes_any x.dest addrs.src2
  have hsame : addrs.op ≠ .rowNot → loc2.rank = L.rank ∧ loc2.bank = L.bank ∧ loc2.row.val = x.src2.val := by
    intro hne
    obtain ⟨loc', hloc', hfacts⟩ := L.decodes_base x.src2
    rw [h.src2 hne, hloc'] at hloc2
    cases hloc2
    exact hfacts
  refine ⟨_, bind_eq_ok.mpr ⟨loc, h.dest ▸ hloc, bind_eq_ok.mpr ⟨loc1, h.src1 ▸ hloc1,
    bind_eq_ok.mpr ⟨loc2, hloc2, bind_eq_ok.mpr ⟨(), ensure_eq_ok.mpr ?_,
      bind_eq_ok.mpr ⟨(), ensure_eq_ok.mpr ?_, rfl⟩⟩⟩⟩⟩, loc2.row.val, ?_, fun hne => (hsame hne).2.2⟩
  · exact fun _ => ⟨hrank.trans hrank1.symm, hbank.trans hbank1.symm⟩
  · intro hne _ _
    exact ⟨hrank.trans (hsame hne).1.symm, hbank.trans (hsame hne).2.1.symm⟩
  · simp only [bankCommands, DRAMPacket.create, hrow, hrow1]

/-- The commands that `doDRAMAccess` issues perform the bulk operation. -/
lemma bankCommands_rows {L : BankLayout p} {addrs : RowOpPayload} {x : BulkOp (Fin p.rowsPerBank)}
    (h : L.Means addrs x) (now : Nat) (pkt : Packet) :
    ∃ d : DRAMPacket p, rowOpPacket now pkt addrs = .ok d ∧ ∀ st : CellArray Lane,
      ∃ st', st.execAll (bankCommands d) = some st' ∧ cellRows (p := p) st' = x.apply (cellRows st) := by
  obtain ⟨d, hd, src2Row, hcmd, hsrc2⟩ := rowOpPacket_of_means h now pkt
  refine ⟨d, hd, fun st => ?_⟩
  have hle := L.rows_le
  obtain ⟨st', hexec, hdata⟩ := rowOpCommands_exec h.bit st (d := x.dest.val) (a := x.src1.val)
    (b := src2Row) (by omega) (by omega) (fun hne => by rw [hsrc2 hne]; omega)
  refine ⟨st', hcmd ▸ hexec, ?_⟩
  funext r
  simp only [cellRows, hdata, BulkOp.apply, Function.update_apply, Fin.ext_iff]
  by_cases hr : r.val = x.dest.val
  · rw [if_pos hr, if_pos hr]
    funext i
    by_cases hnot : addrs.op = .rowNot
    · -- the complement has one operand
      have hbit : bitOp .rowNot = some x.bit := hnot ▸ h.bit
      simp only [← Option.some.inj hbit]
    · rw [hsrc2 hnot]
  · rw [if_neg hr, if_neg hr]

/-! ### Sequences of row operations -/

lemma execAll_append {ι : Type} (st : CellArray ι) (cs cs' : List BankCommand) :
    st.execAll (cs ++ cs') = (st.execAll cs).bind fun t => t.execAll cs' := by
  induction cs generalizing st with
  | nil => rfl
  | cons c cs ih =>
    simp only [List.cons_append, CellArray.execAll, ih]
    cases st.exec c <;> rfl

/-- Both models perform the bulk operations one after the other. -/
lemma rowOps_simulation {L : BankLayout p} (now : Nat) (pkt : RowOpPayload → Packet) (ops : List RowOpPayload)
    (hops : ∀ a ∈ ops, L.InBank a) (m : Memory) (st : CellArray Lane)
    (hst : cellRows st = L.rows m) :
    ∃ ds : List (DRAMPacket p), List.Forall₂ (fun a d => rowOpPacket now (pkt a) a = .ok d) ops ds ∧
      ∃ st', st.execAll (ds.flatMap bankCommands) = some st' ∧
        cellRows st' = L.rows (ops.foldl accessRowOp m) ∧
        ∀ r, (∀ a ∈ ops, a.dest ≠ L.base r) → cellRows st' r = cellRows st r := by
  induction ops generalizing m st with
  | nil => exact ⟨[], .nil, st, rfl, hst, fun _ _ => rfl⟩
  | cons a ops ih =>
    obtain ⟨x, hx⟩ := hops a (by simp)
    obtain ⟨d, hd, hexec⟩ := bankCommands_rows hx now (pkt a)
    obtain ⟨mid, hmid, hmidrows⟩ := hexec st
    have hfun : L.rows (accessRowOp m a) = x.apply (L.rows m) := accessRowOp_rows hx m
    obtain ⟨ds, hds, st', hst', hrows, hframe⟩ := ih (fun a' ha' => hops a' (by simp [ha']))
      (accessRowOp m a) mid (by rw [hmidrows, hst, hfun])
    refine ⟨d :: ds, .cons hd hds, st', ?_, hrows, fun r hr => ?_⟩
    · rw [List.flatMap_cons, execAll_append, hmid]
      exact hst'
    · have hne : r ≠ x.dest := by
        rintro rfl
        exact hr a (by simp) hx.dest
      rw [hframe r fun a' ha' => hr a' (by simp [ha']), hmidrows, x.apply_of_ne _ hne]

/-- The timing model and the functional model of the bulk row operations agree. For every sequence
of bitwise row operations on rows of one bank, with any aliasing of the operands and any content of
the B-group rows, the commands of `doDRAMAccess` leave the data rows that the word loops of
`AbstractMemory::access` leave, and a row that is no operation's destination keeps its content. -/
theorem rowOps_timing_agrees_with_functional (p : Params) (L : BankLayout p) (now : Nat)
    (pkt : RowOpPayload → Packet) (ops : List RowOpPayload) (hops : ∀ a ∈ ops, L.InBank a)
    (m : Memory) (cells : Cell → Lane → Bool) (data : Nat → Lane → Bool)
    (hdata : ∀ r : Fin p.rowsPerBank, data r.val = L.rows m r) :
    ∃ ds : List (DRAMPacket p), List.Forall₂ (fun a d => rowOpPacket now (pkt a) a = .ok d) ops ds ∧
      ∃ st', CellArray.execAll ⟨data, cells⟩ (ds.flatMap bankCommands) = some st' ∧
        ∀ r : Fin p.rowsPerBank, st'.data r.val = L.rows (ops.foldl accessRowOp m) r ∧
          ((∀ a ∈ ops, a.dest ≠ L.base r) → st'.data r.val = data r.val) := by
  obtain ⟨ds, hds, st', hst', hrows, hframe⟩ :=
    rowOps_simulation now pkt ops hops m ⟨data, cells⟩ (funext hdata)
  exact ⟨ds, hds, st', hst', fun r => ⟨congrFun hrows r, hframe r⟩⟩

/-- The rows of the second bank of the first rank. -/
def secondBank : BankLayout ddr3_1600_x64 :=
  contiguous_ddr3_1600_x64.layout (by decide) ⟨0, ddr3_1600_x64.ranks_pos⟩ ⟨1, by decide⟩

/-- Row 1 becomes its exclusive or with row 2, then row 2 the complement of row 1. -/
def xorThenNot : List RowOpPayload := [⟨.rowXor, 139264, 139264, 270336⟩, ⟨.rowNot, 270336, 139264, 0⟩]

theorem rowOps_timing_agrees_with_functional_xorThenNot :
    ∃ ds : List (DRAMPacket ddr3_1600_x64),
      List.Forall₂ (fun a d => rowOpPacket 0 ⟨0, .rowOpReq a, false⟩ a = .ok d) xorThenNot ds ∧
      ∃ st', CellArray.execAll
          ⟨fun r => secondBank.rows (fun a => BitVec.ofNat 8 a) ⟨r % 65536, Nat.mod_lt _ (by decide)⟩,
            fun _ _ => true⟩ (ds.flatMap bankCommands) = some st' ∧
        ∀ r : Fin ddr3_1600_x64.rowsPerBank,
          st'.data r.val = secondBank.rows (xorThenNot.foldl accessRowOp fun a => BitVec.ofNat 8 a) r ∧
          ((∀ a ∈ xorThenNot, a.dest ≠ secondBank.base r) →
            st'.data r.val = secondBank.rows (fun a => BitVec.ofNat 8 a) ⟨r.val % 65536, Nat.mod_lt _ (by decide)⟩) :=
  rowOps_timing_agrees_with_functional ddr3_1600_x64 secondBank 0 (fun a => ⟨0, .rowOpReq a, false⟩) xorThenNot
    (by
      intro a ha
      rcases List.mem_pair.mp ha with rfl | rfl
      · exact ⟨⟨xor, ⟨1, by decide⟩, ⟨1, by decide⟩, ⟨2, by decide⟩⟩, rfl, by decide, by decide, fun _ => by decide⟩
      · exact ⟨⟨fun a _ => !a, ⟨2, by decide⟩, ⟨1, by decide⟩, ⟨0, by decide⟩⟩, rfl, by decide, by decide, nofun⟩)
    (fun a => BitVec.ofNat 8 a) (fun _ _ => true)
    (fun r => secondBank.rows (fun a => BitVec.ofNat 8 a) ⟨r % 65536, Nat.mod_lt _ (by decide)⟩)
    (fun r => by
      congr 1
      exact Fin.ext (Nat.mod_eq_of_lt r.isLt))

end MimdramLean.Proofs

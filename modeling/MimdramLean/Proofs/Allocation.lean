import MimdramLean.Allocation
import MimdramLean.Proofs.BitcountSpace
import MimdramLean.Proofs.Predicates
import MimdramLean.Proofs.Vectors
import MimdramLean.Proofs.WithConstants

/-!
# Row operations and the blocks of their operands

The programs name only vectors that they allocate. A row operation stays inside the blocks of its operands
as soon as a vector has a whole row.
-/

namespace MimdramLean.Proofs

open Library PlusProgram

/-! ### The vectors that a program names -/

section UsesOnly

variable {P : Type} {A : P → Prop}

/-- The vectors that the commands name are in `A`. -/
def UsesOnly (A : P → Prop) (cmds : List (RowCommand P)) : Prop := ∀ cmd ∈ cmds, ∀ p, .vec p ∈ cmd.rows → A p

@[simp] lemma usesOnly_nil : UsesOnly A [] := by
  intro cmd hcmd
  cases hcmd

@[simp] lemma usesOnly_cons {cmd : RowCommand P} {cmds : List (RowCommand P)} :
    UsesOnly A (cmd :: cmds) ↔ (∀ p, .vec p ∈ cmd.rows → A p) ∧ UsesOnly A cmds := List.forall_mem_cons

@[simp] lemma usesOnly_append {cmds cmds' : List (RowCommand P)} :
    UsesOnly A (cmds ++ cmds') ↔ UsesOnly A cmds ∧ UsesOnly A cmds' := List.forall_mem_append

@[simp] lemma usesOnly_flatMap {l : List Nat} {f : Nat → List (RowCommand P)} :
    UsesOnly A (l.flatMap f) ↔ ∀ j ∈ l, UsesOnly A (f j) := by
  simp only [UsesOnly, List.mem_flatMap]
  constructor
  · intro h j hj cmd hcmd
    exact h cmd ⟨j, hj, hcmd⟩
  · rintro h cmd ⟨j, hj, hcmd⟩
    exact h j hj cmd hcmd

lemma usesOnly_forLoop {start stop stride : Nat} {f : Nat → List (RowCommand P)} (hstride : 0 < stride)
    (h : ∀ k < stop, UsesOnly A (f k)) : UsesOnly A ((forLoop start stop stride).flatMap f) :=
  usesOnly_flatMap.mpr fun k hk => h k (lt_of_mem_forLoop hstride hk)

@[simp] lemma usesOnly_ite {c : Prop} [Decidable c] {cmds cmds' : List (RowCommand P)} :
    UsesOnly A (if c then cmds else cmds') ↔ (c → UsesOnly A cmds) ∧ (¬ c → UsesOnly A cmds') := by
  split <;> simp [*]

lemma UsesOnly.mono {B : P → Prop} {cmds : List (RowCommand P)} (h : UsesOnly A cmds) (hAB : ∀ p, A p → B p) :
    UsesOnly B cmds := fun cmd hcmd p hp => hAB p (h cmd hcmd p hp)

end UsesOnly

/-- The program names vectors, and only those that it allocates. -/
structure NamesAllocated {P : Type} (prog : PlusProgram P) (n : Nat) : Prop where
  allocated : ∀ body ∈ prog.bodies n, UsesOnly (prog.allocated n) body
  vector : ∃ body ∈ prog.bodies n, ¬ UsesOnly (fun _ => False) body

lemma namesAllocated_one {P : Type} {prog : PlusProgram P} {n : Nat} {body : List (RowCommand P)}
    (hbody : prog.bodies n = [body]) (halloc : UsesOnly (prog.allocated n) body)
    (hvector : ¬ UsesOnly (fun _ => False) body) : NamesAllocated prog n := by
  constructor
  · intro b hb
    rw [hbody, List.mem_singleton] at hb
    exact hb ▸ halloc
  · exact ⟨body, by rw [hbody]; exact List.mem_singleton_self _, hvector⟩

section Programs

variable {n : Nat} (hn : 1 ≤ n)

include hn

lemma namesAllocated_addition : NamesAllocated Addition.program n := by
  apply namesAllocated_one rfl
  · simp [Addition.body, Addition.addBit, addPass, Addition.program, ofBody, PairVec.allocated, mem_forLoop_one]
  · simp [Addition.body, Addition.addBit, addPass, mem_forLoop_one]
    exact ⟨0, hn⟩

lemma namesAllocated_subtraction : NamesAllocated Subtraction.program n := by
  apply namesAllocated_one rfl
  · simp [Subtraction.body, Subtraction.subtractBit, subtractPass, Subtraction.program, ofBody, PairVec.allocated,
      mem_forLoop_one]
  · simp [Subtraction.body, Subtraction.subtractBit, subtractPass, mem_forLoop_one]
    exact ⟨0, hn⟩

omit hn in
lemma usesOnly_selectLoop : UsesOnly (SelectVec.allocated n) (selectLoop n) := by
  simp [selectLoop, selectPass, SelectVec.allocated, mem_forLoop_one]

lemma namesAllocated_ifThenElse : NamesAllocated IfThenElse.program n := by
  apply namesAllocated_one rfl usesOnly_selectLoop
  simp [IfThenElse.body, selectLoop, selectPass, mem_forLoop_one]
  exact ⟨0, hn⟩

omit hn in
lemma namesAllocated_min : NamesAllocated Min.program n := by
  apply namesAllocated_one rfl
  · simp [Min.body, Min.compareBit, Min.program, SelectVec.allocated, mem_forLoop_one, usesOnly_selectLoop]
  · simp [Min.body]

omit hn in
lemma namesAllocated_max : NamesAllocated Max.program n := by
  apply namesAllocated_one rfl
  · simp [Max.body, Max.compareBit, Max.program, SelectVec.allocated, mem_forLoop_one, usesOnly_selectLoop]
  · simp [Max.body]

lemma namesAllocated_multu : NamesAllocated Multu.program n := by
  apply namesAllocated_one rfl
  · simp only [Multu.body, Multu.initBit, Multu.addBit, Multu.round, Multu.program, ofBody, usesOnly_append,
      usesOnly_flatMap, mem_forLoop_one]
    refine ⟨⟨?_, ?_⟩, ?_⟩
    · intro k hk
      simp [Multu.allocated]
      omega
    · simp [Multu.allocated]
      omega
    · intro j hj
      simp [Multu.allocated]
      refine ⟨?_, by omega⟩
      intro k hk
      omega
  · simp [Multu.body]

lemma namesAllocated_divu : NamesAllocated Divu.program n := by
  have hbody : Divu.program.bodies n = [(forDown n).flatMap (Divu.pass n)] := rfl
  apply namesAllocated_one hbody
  · rw [usesOnly_flatMap]
    intro j hj
    have hjn := mem_forDown.mp hj
    simp only [Divu.pass, Divu.compare, Divu.select, Divu.subtract, usesOnly_append]
    refine ⟨⟨⟨⟨?_, ⟨⟨?_, ?_⟩, ?_⟩, ?_⟩, ?_⟩, ?_, ?_⟩, ?_, ?_⟩
    · simp [Divu.bringDown, Divu.program, Divu.allocated, hjn]
    · simp
    · refine usesOnly_forLoop Nat.one_pos fun k hk => ?_
      simp [Divu.compareBit, Divu.program, Divu.allocated]
      omega
    · refine usesOnly_forLoop Nat.two_pos fun k hk => ?_
      simp [Divu.comparePair, Divu.program, Divu.allocated]
      omega
    · simp [Divu.compareLast, Divu.program, Divu.allocated]
      omega
    · simp [Divu.program, Divu.allocated]
      omega
    · refine usesOnly_forLoop Nat.two_pos fun k hk => ?_
      simp [Divu.selectPair, Divu.program, Divu.allocated]
      omega
    · simp [Divu.selectLast, Divu.program, Divu.allocated]
      omega
    · simp
    · refine usesOnly_forLoop Nat.one_pos fun k hk => ?_
      simp [Divu.subtractBit, subtractPass, Divu.program, Divu.allocated]
      omega
  · simp [Divu.pass, Divu.bringDown, mem_forDown]
    exact ⟨0, hn⟩

lemma usesOnly_firstBits (even bit : Bool) (dst : BRow) :
    UsesOnly (ReduceVec.allocated n) (firstBits even dst bit).1 := by
  cases even with
  | false => simp [firstBits, ReduceVec.allocated]; omega
  | true => simp [firstBits]

lemma namesAllocated_xorReduction : NamesAllocated XorReduction.program n := by
  apply namesAllocated_one rfl
  · simp only [XorReduction.body, usesOnly_append]
    refine ⟨⟨usesOnly_firstBits hn _ _ _, ?_⟩, ?_⟩
    · refine usesOnly_forLoop Nat.two_pos fun k hk => ?_
      simp [XorReduction.xorBits, XorReduction.program, ofBody, ReduceVec.allocated]
      omega
    · simp [XorReduction.program, ofBody, ReduceVec.allocated]
  · simp [XorReduction.body]

omit hn in
lemma usesOnly_reduceBits (bit : Bool) {k : Nat} (hk : k < n - 1) :
    UsesOnly (ReduceVec.allocated n) (reduceBits bit k) := by
  simp [reduceBits, ReduceVec.allocated]
  omega

lemma usesOnly_reduction (bit : Bool) : UsesOnly (ReduceVec.allocated n) (reduction bit n) := by
  simp only [reduction, usesOnly_append]
  refine ⟨⟨usesOnly_firstBits hn _ _ _, ?_⟩, ?_⟩
  · exact usesOnly_forLoop Nat.two_pos fun k hk => usesOnly_reduceBits bit hk
  · simp [ReduceVec.allocated]

lemma namesAllocated_andReduction : NamesAllocated AndReduction.program n := by
  apply namesAllocated_one rfl (usesOnly_reduction hn false)
  simp [AndReduction.body, reduction]

lemma namesAllocated_orReduction : NamesAllocated OrReduction.program n := by
  apply namesAllocated_one rfl (usesOnly_reduction hn true)
  simp [OrReduction.body, reduction]

lemma namesAllocated_greaterEqual0 : NamesAllocated GreaterEqual0.program n := by
  apply namesAllocated_one rfl
  · simp [GreaterEqual0.body, GreaterEqual0.program, ofBody, ReduceVec.allocated]
    omega
  · simp [GreaterEqual0.body]

lemma namesAllocated_greaterThan0 : NamesAllocated GreaterThan0.program n := by
  apply namesAllocated_one rfl
  · rw [greaterThan0_body_eq hn]
    simp only [usesOnly_append]
    refine ⟨⟨usesOnly_firstBits hn _ _ _, ?_⟩, ?_⟩
    · refine usesOnly_forLoop Nat.two_pos fun k hk => ?_
      exact usesOnly_reduceBits true (by omega)
    · simp [GreaterThan0.andSign, GreaterThan0.program, ofBody, ReduceVec.allocated]
      omega
  · simp [GreaterThan0.body, GreaterThan0.andSign]

omit hn in
lemma usesOnly_comparison (bit : Bool) : UsesOnly (CompareVec.allocated n) (comparison bit n) := by
  simp [comparison, greaterBit, CompareVec.allocated, mem_forLoop_one]

omit hn in
lemma namesAllocated_greater : NamesAllocated Greater.program n := by
  apply namesAllocated_one rfl (usesOnly_comparison false)
  simp [Greater.body, comparison]

omit hn in
lemma namesAllocated_greaterEqual : NamesAllocated GreaterEqual.program n := by
  apply namesAllocated_one rfl (usesOnly_comparison true)
  simp [GreaterEqual.body, comparison]

omit hn in
lemma namesAllocated_equal : NamesAllocated Equal.program n := by
  apply namesAllocated_one rfl
  · simp [Equal.body, Equal.equalBit, Equal.program, ofBody, CompareVec.allocated, mem_forLoop_one]
  · simp [Equal.body]

lemma namesAllocated_abs : NamesAllocated Abs.program n := by
  apply namesAllocated_one rfl
  · simp [Abs.body, Abs.carryBit, Abs.sumBit, Abs.program, Abs.allocated, mem_forLoop_one]
    refine ⟨hn, ?_, fun k hk => ⟨hn, hk⟩⟩
    intro k hk
    omega
  · simp [Abs.body]

lemma namesAllocated_relu : NamesAllocated Relu.program n := by
  apply namesAllocated_one rfl
  · simp only [Relu.body, usesOnly_append]
    refine ⟨⟨⟨?_, ?_⟩, ?_⟩, ?_⟩
    · simp [Relu.program, Relu.allocated]
      omega
    · refine usesOnly_forLoop Nat.two_pos fun k hk => ?_
      simp [Relu.pairBits, Relu.program, Relu.allocated]
      omega
    · simp [Relu.lastBit, Relu.program, Relu.allocated]
      omega
    · simp [Relu.program, Relu.allocated]
      omega
  · simp [Relu.body]

omit hn in
lemma namesAllocated_bitweave (c1 c2 : BitVec 32) : NamesAllocated (Bitweave.program c1 c2) n := by
  have hconst : ∀ test1 test2 p, .vec p ∉ (Bitweave.constantBits test1 test2).rows := by
    intro test1 test2 p
    cases test1 <;> cases test2 <;> simp [Bitweave.constantBits]
  apply namesAllocated_one rfl
  · simp only [Bitweave.body, usesOnly_append]
    refine ⟨⟨?_, ?_⟩, ?_⟩
    · simp
    · refine usesOnly_forLoop Nat.one_pos fun k hk => ?_
      simp only [Bitweave.queryBit, usesOnly_cons]
      refine ⟨?_, fun p hp => absurd hp (hconst _ _ p), ?_⟩
      · simpa [Bitweave.program, ofBody, Bitweave.allocated] using hk
      · simp
    · simp [Bitweave.program, ofBody, Bitweave.allocated]
  · simp [Bitweave.body]

omit hn in
lemma constant_toNat_lt : (MultuByConst.constant n).toNat < 2 ^ n := by
  rw [MultuByConst.constant, BitVec.toNat_ofNat]
  exact (Nat.mod_le _ _).trans_lt (Nat.mod_lt _ (Nat.two_pow_pos n))

lemma namesAllocated_multuByConst : NamesAllocated MultuByConst.program n := by
  have hbody : MultuByConst.program.bodies n = [MultuByConst.body (MultuByConst.constant n) n] := rfl
  apply namesAllocated_one hbody
  · rw [MultuByConst.body]
    split
    · simp [MultuByConst.writeZero, MultuByConst.program, ofBody, MultuByConst.allocated, mem_forLoop_one]
    · next hne =>
      have hlt : forBreakEnd n (bitTest (MultuByConst.constant n)) < n := forBreakEnd_lt constant_toNat_lt hne
      rw [(forBreak_spec n (bitTest (MultuByConst.constant n))).1]
      simp only [usesOnly_append]
      refine ⟨⟨⟨?_, ?_⟩, ?_⟩, ?_⟩
      · refine usesOnly_forLoop Nat.one_pos fun k hk => ?_
        simp [MultuByConst.writeZero, MultuByConst.program, ofBody, MultuByConst.allocated]
        omega
      · refine usesOnly_forLoop Nat.one_pos fun k hk => ?_
        simp [MultuByConst.copyBit, MultuByConst.program, ofBody, MultuByConst.allocated]
        omega
      · simp [MultuByConst.writeZero, MultuByConst.program, ofBody, MultuByConst.allocated]
        omega
      · refine usesOnly_forLoop Nat.one_pos fun j hj => ?_
        simp [MultuByConst.addShifted, MultuByConst.writeZero, MultuByConst.addBit, addPass, MultuByConst.program,
          ofBody, MultuByConst.allocated, mem_forLoop_one]
        refine ⟨fun _ => ⟨?_, by omega⟩, fun _ => by omega⟩
        intro k hk
        omega
  · rw [MultuByConst.body]
    split
    · simp [MultuByConst.writeZero, mem_forLoop_one]
      exact ⟨0, by omega⟩
    · simp [MultuByConst.writeZero]

end Programs

/-! ### Bitcount -/

section Bitcount

open Bitcount

variable {last : Nat → Nat → Nat → Nat → Nat → List (RowCommand Vec)}

/-- The vectors of `n` rows of the input from `input` on, and of `space` rows of the output from `output` on. -/
def InRange (input n output : Nat) (space : Int) : Vec → Prop
  | .input k => input ≤ k ∧ k < input + n
  | .output k => output ≤ k ∧ (k : Int) < output + space

lemma usesOnly_combine (input left output b1 b2 : Nat) :
    UsesOnly (InRange (input + left) 1 output (b1 + max 1 b2)) (combine input left output b1 b2) := by
  simp only [combine, usesOnly_append]
  refine ⟨⟨?_, ?_⟩, ?_⟩
  · simp [InRange]
  · refine usesOnly_forLoop Nat.one_pos fun i hi => ?_
    rw [addBit, addend]
    split
    · simp [InRange]
      omega
    · simp [InRange]
      omega
  · simp [InRange]

lemma usesOnly_combineFaster (input left output b1 b2 : Nat) :
    UsesOnly (InRange (input + left) 1 output (b1 + max 1 b2)) (combineFaster input left output b1 b2) := by
  rw [combineFaster]
  refine usesOnly_forLoop Nat.one_pos fun i hi => ?_
  rw [addBit, addend]
  split_ifs <;> simp [InRange] <;> omega

lemma usesOnly_bitcountWith (hlast : ∀ input left output b1 b2 : Nat,
    UsesOnly (InRange (input + left) 1 output (b1 + max 1 b2)) (last input left output b1 b2)) (input output : Nat)
    {n : Nat} (hlt : n < 2 ^ 32) :
    ∀ body ∈ (bitcountWith last input n output).bodies, UsesOnly (InRange input n output (necessarySpace n)) body := by
  induction n using Nat.strong_induction_on generalizing input output with
  | _ n ih =>
    by_cases h4 : 4 ≤ n
    · have hfoo := foo_lt (n := n) (by omega)
      have hhalf := half_le_foo n
      have hspace := necessarySpace_eq h4
      have hbits : (bitcountWith last input (foo n) output).bits = n.log2 := by
        rw [bits_eq input output (by omega) (by omega), log2_foo (by omega) hlt]
      rw [bitcountWith_bodies input output n h4]
      simp only [hbits, List.mem_append, List.mem_singleton]
      rintro body ((hbody | hbody) | rfl)
      · refine (ih (foo n) hfoo input output (by omega) body hbody).mono ?_
        rintro (k | k) ⟨hk, hk'⟩
        · exact ⟨hk, by omega⟩
        · exact ⟨hk, by omega⟩
      · refine (ih (n - foo n - 1) (by omega) (input + foo n) (output + n.log2) (by omega) body hbody).mono ?_
        rintro (k | k) ⟨hk, hk'⟩
        · exact ⟨by omega, by omega⟩
        · exact ⟨by omega, by omega⟩
      · have hright : ((bitcountWith last (input + foo n) (n - foo n - 1) (output + n.log2)).bits : Int) ≤
            necessarySpace (n - foo n - 1) := bits_le_space _ _ (by omega)
        refine (hlast input (foo n) output n.log2 _).mono ?_
        rintro (k | k) ⟨hk, hk'⟩
        · exact ⟨by omega, by omega⟩
        · exact ⟨hk, by omega⟩
    · rw [necessarySpace_of_lt (by omega)]
      obtain rfl | rfl | rfl | rfl : n = 0 ∨ n = 1 ∨ n = 2 ∨ n = 3 := by omega
      all_goals simp [bitcountWith, addThree, InRange]

lemma names_bitcountWith (input output : Nat) {n : Nat} (hn : n ≠ 0) :
    ∃ body ∈ (bitcountWith last input n output).bodies, ¬ UsesOnly (fun _ => False) body := by
  induction n using Nat.strong_induction_on generalizing input output with
  | _ n ih =>
    by_cases h4 : 4 ≤ n
    · have hhalf := half_le_foo n
      obtain ⟨body, hbody, hvector⟩ := ih (foo n) (foo_lt hn) input output (by omega)
      refine ⟨body, ?_, hvector⟩
      rw [bitcountWith_bodies input output n h4]
      simp [hbody]
    · obtain rfl | rfl | rfl : n = 1 ∨ n = 2 ∨ n = 3 := by omega
      · simp [bitcountWith]
        exact ⟨.output output, fun h => absurd rfl h⟩
      · simp [bitcountWith, addThree]
      · simp [bitcountWith, addThree]

lemma namesAllocated_bitcountWith (hlast : ∀ input left output b1 b2 : Nat,
    UsesOnly (InRange (input + left) 1 output (b1 + max 1 b2)) (last input left output b1 b2)) {n : Nat}
    (hn : 1 ≤ n) (hlt : n < 2 ^ 31) :
    NamesAllocated ⟨allocated, fun _ => false, fun n => (bitcountWith last 0 n 0).bodies⟩ n := by
  refine ⟨?_, names_bitcountWith 0 0 (by omega)⟩
  intro body hbody
  refine (usesOnly_bitcountWith hlast 0 0 (by omega) body hbody).mono ?_
  rintro (k | k) ⟨hk, hk'⟩
  · simpa [Bitcount.allocated] using hk'
  · simpa [Bitcount.allocated] using hk'

end Bitcount

/-- Every program names vectors, and only those that it allocates. -/
theorem isPlusProgram_namesAllocated {P : Type} {prog : PlusProgram P} (h : IsPlusProgram prog) {n : Nat}
    (hn : 1 ≤ n) (hlt : n < 2 ^ 31) : NamesAllocated prog n := by
  cases h with
  | addition => exact namesAllocated_addition hn
  | subtraction => exact namesAllocated_subtraction hn
  | min => exact namesAllocated_min
  | max => exact namesAllocated_max
  | multuByConst => exact namesAllocated_multuByConst hn
  | multu => exact namesAllocated_multu hn
  | divu => exact namesAllocated_divu hn
  | xorReduction => exact namesAllocated_xorReduction hn
  | andReduction => exact namesAllocated_andReduction hn
  | orReduction => exact namesAllocated_orReduction hn
  | greaterEqual0 => exact namesAllocated_greaterEqual0 hn
  | greaterThan0 => exact namesAllocated_greaterThan0 hn
  | greater => exact namesAllocated_greater
  | greaterEqual => exact namesAllocated_greaterEqual
  | equal => exact namesAllocated_equal
  | abs => exact namesAllocated_abs hn
  | relu => exact namesAllocated_relu hn
  | ifThenElse => exact namesAllocated_ifThenElse hn
  | bitweave c1 c2 => exact namesAllocated_bitweave c1 c2
  | bitcount => exact namesAllocated_bitcountWith usesOnly_combine hn hlt
  | bitcountFaster => exact namesAllocated_bitcountWith usesOnly_combineFaster hn hlt

/-! ### The extent of a row operation -/

section Extent

variable {P : Type} {prog : PlusProgram P} {A : Allocation P} {n k : Nat} {c : RowCall P}

lemma mem_allCalls {perColRows : Nat} {body : List (RowCommand P)} :
    c ∈ allCalls perColRows body ↔
      c.cmd ∈ body ∧ c.baseRow ∈ baseRows perColRows ∧ c.row ∈ rowsInVector perColRows c.baseRow := by
  simp only [allCalls, vectorCalls, List.mem_flatMap, List.mem_map]
  constructor
  · rintro ⟨baseRow, hbase, cmd, hcmd, row, hrow, rfl⟩
    exact ⟨hcmd, hbase, hrow⟩
  · rintro ⟨hcmd, hbase, hrow⟩
    exact ⟨c.baseRow, hbase, c.cmd, hcmd, c.row, hrow, rfl⟩

lemma perColBytes_eq (k : Nat) : perColBytes k = 128 * 2 ^ k := by
  rw [perColBytes, Nat.shiftLeft_eq]
  omega

/-- From `k = 6` on a vector is a number of whole rows. -/
lemma perColBytes_eq_rows (hk : 6 ≤ k) : perColBytes k = perColRowsFor k * rowSize := by
  obtain ⟨d, rfl⟩ := Nat.exists_eq_add_of_le hk
  rw [perColRowsFor, perColBytes_eq, rowSize, pow_add]
  omega

/-- A smaller vector is part of a row. -/
lemma perColBytes_lt_row (hk : k < 6) : 0 < perColBytes k ∧ perColBytes k < rowSize ∧ perColRowsFor k = 1 := by
  have hpow : 2 ^ k ≤ 2 ^ 5 := Nat.pow_le_pow_right Nat.two_pos (by omega)
  have hpos := Nat.two_pow_pos k
  rw [perColRowsFor, perColBytes_eq, rowSize]
  omega

/-- All operands of a call are at the offset of its row. -/
lemma operand_mod (hbase : c.baseRow % rowsPerVector = 0) (r : RowName P) :
    prog.operand A c r % alignment = c.row * rowSize % alignment := by
  have hvector : alignment ∣ c.baseRow * rowSize := by
    obtain ⟨v, hv⟩ := Nat.dvd_of_mod_eq_zero hbase
    exact ⟨v, by rw [hv, alignment]; ring⟩
  have hptr := A.aligned r
  cases r with
  | b row => rw [operand, Nat.add_mod, Nat.mod_eq_zero_of_dvd hptr, Nat.zero_add, Nat.mod_mod]
  | c bit => rw [operand, Nat.add_mod, Nat.mod_eq_zero_of_dvd hptr, Nat.zero_add, Nat.mod_mod]
  | vec p =>
    rw [operand]
    split
    · rw [Nat.add_mod, Nat.mod_eq_zero_of_dvd hptr, Nat.zero_add, Nat.mod_mod]
    · rw [Nat.add_mod, Nat.mod_eq_zero_of_dvd (Nat.dvd_add hptr hvector), Nat.zero_add, Nat.mod_mod]

lemma operand_inside (hk : 6 ≤ k) (hrow : c.baseRow + c.row < perColRowsFor k) (hlt : c.row < rowsPerVector)
    (r : RowName P) : A.ptr r ≤ prog.operand A c r ∧
      prog.operand A c r + rowSize ≤ A.ptr r + prog.blockBytes k r := by
  have hslot : c.row * rowSize + rowSize ≤ alignment := by
    rw [alignment, ← Nat.succ_mul, Nat.mul_comm rowSize]
    exact Nat.mul_le_mul_right _ hlt
  have hvector : c.baseRow * rowSize + c.row * rowSize + rowSize ≤ perColBytes k := by
    rw [perColBytes_eq_rows hk, ← Nat.add_mul, ← Nat.succ_mul]
    exact Nat.mul_le_mul_right _ hrow
  cases r with
  | b row => simp only [operand, blockBytes]; omega
  | c bit => simp only [operand, blockBytes]; omega
  | vec p =>
    simp only [operand, blockBytes]
    split
    · omega
    · omega

/-- The row operations of the programs stay inside the blocks of their operands exactly if a vector has at least one
row, that is, from `k = 6` on. -/
theorem plus_rows_inside_iff (h : IsPlusProgram prog) (hn : 1 ≤ n) (hlt : n < 2 ^ 31) :
    prog.RowsInside A n k ↔ 6 ≤ k := by
  have hnames := isPlusProgram_namesAllocated h hn hlt
  constructor
  · intro hinside
    by_contra hk
    obtain ⟨body, hbody, hvector⟩ := hnames.vector
    simp only [UsesOnly, not_forall] at hvector
    obtain ⟨cmd, hcmd, p, hp, -⟩ := hvector
    obtain ⟨_, hbytes, hrows⟩ := perColBytes_lt_row (not_le.mp hk)
    have hfirst : 0 ∈ baseRows 1 ∧ 0 ∈ rowsInVector 1 0 := by decide
    have hcall : (⟨cmd, 0, 0⟩ : RowCall P) ∈ allCalls (perColRowsFor k) body := by
      rw [hrows, mem_allCalls]
      exact ⟨hcmd, hfirst⟩
    have hextent := ((hinside body hbody _ hcall).inside _ hp).2
    simp only [operand, blockBytes, Nat.zero_mul, Nat.add_zero] at hextent
    split at hextent
    · omega
    · omega
  · intro hk body hbody c hc
    obtain ⟨hcmd, hbase, hrow⟩ := mem_allCalls.mp hc
    obtain ⟨hrow, hslot⟩ := mem_rowsInVector.mp hrow
    refine ⟨?_, ?_, ?_⟩
    · intro p hp
      exact hnames.allocated body hbody c.cmd hcmd p hp
    · intro r _
      exact operand_inside hk hrow hslot r
    · intro r _ r' _
      rw [operand_mod (mem_baseRows hbase).2, operand_mod (mem_baseRows hbase).2]

end Extent

/-- Blocks of the addition, one after the other at multiples of `ALIGNMENT`. -/
def additionBlocks : Allocation PairVec where
  ptr
    | .b row => alignment * row.ctorIdx
    | .c bit => alignment * (16 + bit.toNat)
    | .vec (.vals1 k) => alignment * (18 + 3 * k)
    | .vec (.vals2 k) => alignment * (19 + 3 * k)
    | .vec (.output k) => alignment * (20 + 3 * k)
  aligned := by
    rintro (row | bit | (k | k | k))
    all_goals exact Nat.dvd_mul_right ..

theorem addition_rows_inside : Addition.program.RowsInside additionBlocks 32 6 :=
  (plus_rows_inside_iff .addition (by decide) (by decide)).mpr (by decide)

/-- The addition of 1024 numbers allocates 128 bytes for a row of `vals1` and copies 8192. -/
theorem addition_row_overruns :
    let c : RowCall PairVec := ⟨.aap (.b .t2T3) (.vec (.vals1 0)), 0, 0⟩
    c ∈ allCalls (perColRowsFor 0) (Addition.body 1) ∧
      Addition.program.blockBytes 0 (.vec (.vals1 0)) = 128 ∧
      Addition.program.operand additionBlocks c (.vec (.vals1 0)) + rowSize =
        additionBlocks.ptr (.vec (.vals1 0)) + 8192 ∧
      ¬ Addition.program.RowsInside additionBlocks 1 0 := by
  intro c
  have hc : c ∈ allCalls (perColRowsFor 0) (Addition.body 1) := by
    rw [mem_allCalls]
    exact ⟨by decide, by decide, by decide⟩
  refine ⟨hc, rfl, by simp [c, operand, Addition.program, ofBody, rowSize], ?_⟩
  intro h
  have hinside := ((h (Addition.body 1) (List.mem_singleton_self _) c hc).inside (.vec (.vals1 0)) (by decide)).2
  exact absurd hinside (by decide)

end MimdramLean.Proofs

import MimdramLean.Bitcount
import MimdramLean.Proofs.Vectors

/-!
# The faster bitcount is the plain one

The two programs execute the same number of bodies, and each body of the one does to a lane what the
body of the other does. The faster program stores the carry out before it reads the last bit of the
second addend again; the row is another one because there are always two bits at least.
-/

namespace MimdramLean.Proofs

open Library Bitcount

/-! ### The number of bits -/

lemma half_le_foo (n : Nat) : n / 2 ≤ foo n := by
  have h : ∀ x k : Nat, x ≤ x ||| x >>> k := fun x k => Nat.left_le_or
  have hsmear := (((h n 1).trans (h _ 2)).trans (h _ 4)).trans ((h _ 8).trans (h _ 16))
  rw [foo, Nat.shiftRight_eq_div_pow]
  exact Nat.div_le_div_right hsmear

variable {last : Nat → Nat → Nat → Nat → Nat → List (RowCommand Vec)}

lemma bitcountWith_bits (input output n : Nat) (hn : 4 ≤ n) :
    (bitcountWith last input n output).bits = 1 + (bitcountWith last input (foo n) output).bits := by
  obtain ⟨m, rfl⟩ : ∃ m, n = m + 4 := ⟨n - 4, by omega⟩
  rw [bitcountWith]

lemma bitcountWith_bodies (input output n : Nat) (hn : 4 ≤ n) :
    let c1 := bitcountWith last input (foo n) output
    let c2 := bitcountWith last (input + foo n) (n - foo n - 1) (output + c1.bits)
    (bitcountWith last input n output).bodies =
      c1.bodies ++ c2.bodies ++ [last input (foo n) output c1.bits c2.bits] := by
  obtain ⟨m, rfl⟩ : ∃ m, n = m + 4 := ⟨n - 4, by omega⟩
  rw [bitcountWith]

lemma two_le_bits (input output : Nat) {n : Nat} (hn : 2 ≤ n) :
    2 ≤ (bitcountWith last input n output).bits := by
  induction n using Nat.strong_induction_on with
  | _ n ih =>
    by_cases h4 : 4 ≤ n
    · have hhalf := half_le_foo n
      have := ih (foo n) (foo_lt (by omega)) (by omega)
      rw [bitcountWith_bits input output n h4]
      omega
    · obtain rfl | rfl : n = 2 ∨ n = 3 := by omega
      · rw [bitcountWith]
      · rw [bitcountWith]

/-! ### The last body -/

variable (pair : Bool → Bool → Bool)

/-- The first pass may read the carry from where it comes. -/
lemma addBit_first (c_in : Vec) (carry : RowCommand Vec) (output b1 b2 i : Nat) (s : LaneState Vec) :
    s.run pair (.aap (.b .dcc1) (.vec c_in) :: addBit (.b .dcc1) carry output b1 b2 i) =
      s.run pair (addBit (.vec c_in) carry output b1 b2 i) := by
  -- the third command of the pass overwrites the copy in `B_DCC1`
  have hcopy : s.run pair [.aap (.b .dcc1) (.vec c_in), .aap (.b .t0T1T2) (.b .dcc1),
        .aap (.b .t2T3) (.vec (.output (output + i))), .aap (.b .dcc1) (addend output b1 b2 i)] =
      s.run pair [.aap (.b .t0T1T2) (.vec c_in), .aap (.b .t2T3) (.vec (.output (output + i))),
        .aap (.b .dcc1) (addend output b1 b2 i)] := by
    unfold addend
    split <;> simp [LaneState.run_cons]
  simp only [LaneState.run_cons, LaneState.run_nil] at hcopy
  simp only [addBit, LaneState.run_cons, hcopy]

/-- The last pass may store the carry out as soon as it is there. -/
lemma addBit_last (output b1 b2 i : Nat) (hi : 0 < i) (hlt : i < b1) (s : LaneState Vec) :
    s.run pair (addBit (.b .dcc1) (.ap (.b .dcc1T0T3)) output b1 b2 i ++
        [.aap (.vec (.output (output + b1))) (.b .dcc1)]) =
      s.run pair (addBit (.b .dcc1) (.aap (.vec (.output (output + b1))) (.b .dcc1T0T3)) output b1 b2 i) := by
  have hsum : Vec.output (output + i) ≠ Vec.output (output + b1) := by
    simp only [ne_eq, Vec.output.injEq]
    omega
  have haddend : Vec.output (output + (i + b1)) ≠ Vec.output (output + b1) := by
    simp only [ne_eq, Vec.output.injEq]
    omega
  simp only [addBit, addend, List.cons_append, List.nil_append, LaneState.run_cons, LaneState.run_nil]
  split
  · simp [haddend, Function.update_comm hsum]
  · simp [Function.update_comm hsum]

lemma forLoop_ends (m : Nat) : forLoop 0 (m + 2) 1 = 0 :: forLoop 1 (m + 1) 1 ++ [m + 1] := by
  have h : forLoop 0 (m + 2) 1 = List.range' 0 (m + 1 + 1) 1 := by simp [forLoop]
  have h' : forLoop 1 (m + 1) 1 = List.range' 1 m 1 := by simp [forLoop]
  rw [h, h', List.range'_concat, List.range'_succ]
  simp

lemma combine_split (input left output m b2 : Nat) :
    combine input left output (m + 2) b2 =
      (.aap (.b .dcc1) (.vec (.input (input + left))) ::
        addBit (.b .dcc1) (.ap (.b .dcc1T0T3)) output (m + 2) b2 0) ++
      (forLoop 1 (m + 1) 1).flatMap (addBit (.b .dcc1) (.ap (.b .dcc1T0T3)) output (m + 2) b2) ++
      (addBit (.b .dcc1) (.ap (.b .dcc1T0T3)) output (m + 2) b2 (m + 1) ++
        [.aap (.vec (.output (output + (m + 2)))) (.b .dcc1)]) := by
  rw [combine, forLoop_ends, List.flatMap_append, List.flatMap_cons, List.flatMap_singleton]
  simp only [List.append_assoc, List.cons_append, List.nil_append]

lemma combineFaster_split (input left output m b2 : Nat) :
    combineFaster input left output (m + 2) b2 =
      addBit (.vec (.input (input + left))) (.ap (.b .dcc1T0T3)) output (m + 2) b2 0 ++
      (forLoop 1 (m + 1) 1).flatMap (addBit (.b .dcc1) (.ap (.b .dcc1T0T3)) output (m + 2) b2) ++
      addBit (.b .dcc1) (.aap (.vec (.output (output + (m + 2)))) (.b .dcc1T0T3)) output (m + 2) b2 (m + 1) := by
  rw [combineFaster, forLoop_ends, List.flatMap_append, List.flatMap_cons, List.flatMap_singleton]
  congr 2
  · apply List.flatMap_congr
    intro i hi
    obtain ⟨hlow, hup⟩ := mem_forLoop_one.mp hi
    rw [if_neg (by omega), if_pos (by omega)]
  · rw [if_neg (by omega)]

lemma combine_sameRun (input left output b1 b2 : Nat) (hb1 : 2 ≤ b1) :
    SameRun pair (combine input left output b1 b2) (combineFaster input left output b1 b2) := by
  obtain ⟨m, rfl⟩ : ∃ m, b1 = m + 2 := ⟨b1 - 2, by omega⟩
  intro s
  rw [combine_split, combineFaster_split, LaneState.run_append,
    addBit_last pair output (m + 2) b2 (m + 1) (by omega) (by omega),
    LaneState.run_append, LaneState.run_append, LaneState.run_append, addBit_first pair]

/-! ### The programs -/

lemma bitcount_sameRun (input output n : Nat) :
    (bitcount input n output).bits = (bitcountFaster input n output).bits ∧
    List.Forall₂ (SameRun pair) (bitcount input n output).bodies (bitcountFaster input n output).bodies := by
  rw [bitcount, bitcountFaster]
  induction n using Nat.strong_induction_on generalizing input output with
  | _ n ih =>
    match n with
    | 0 => simp [bitcountWith]
    | 1 => simp [bitcountWith, SameRun]
    | 2 => simp [bitcountWith, SameRun]
    | 3 => simp [bitcountWith, SameRun]
    | m + 4 =>
      have hfoo := foo_lt (n := m + 4) (by omega)
      have hhalf := half_le_foo (m + 4)
      obtain ⟨hbits, hleft⟩ := ih (foo (m + 4)) hfoo input output
      obtain ⟨hbits', hright⟩ := ih (m + 4 - foo (m + 4) - 1) (by omega) (input + foo (m + 4))
        (output + (bitcountWith combine input (foo (m + 4)) output).bits)
      rw [bitcountWith, bitcountWith]
      simp only [← hbits, ← hbits']
      refine ⟨trivial, List.rel_append (List.rel_append hleft hright) (.cons ?_ .nil)⟩
      exact combine_sameRun pair _ _ _ _ _ (two_le_bits input output (n := foo (m + 4)) (by omega))

/-- The faster program returns the number that the plain one returns, and leaves the same content in every
row of the output vectors. -/
theorem bitcountFaster_agrees {β : Type} {perColRows : Nat} (L : Layout Vec perColRows) (input n output : Nat)
    (s : VectorMemory β) :
    (bitcountFaster input n output).bits = (bitcount input n output).bits ∧
    ∀ k, ∀ r < perColRows, ∀ o < rowSize, ∀ i,
      (s.runBodies pair L (bitcountFaster input n output).bodies).mem (L.ptr (.output k) + r * rowSize + o) i =
        (s.runBodies pair L (bitcount input n output).bodies).mem (L.ptr (.output k) + r * rowSize + o) i := by
  obtain ⟨hbits, hbodies⟩ := bitcount_sameRun pair input output n
  have hsame : SameRows L s s := ⟨fun _ _ _ _ => rfl, fun _ _ _ _ _ _ => rfl⟩
  refine ⟨hbits.symm, ?_⟩
  intro k r hr o ho i
  exact ((runBodies_sameRows pair hbodies hsame).mem (.output k) r hr o ho i).symm

end MimdramLean.Proofs

import MimdramLean.Vectors
import Mathlib.Algebra.Order.Ring.Nat
import Mathlib.Data.Nat.Bitwise

/-!
# The bitcount programs

`bitcount` of `91_bitcount-plus.c` and of `91_bitcount_faster-plus.c`. The function is recursive and
executes several `FOR_ALL_VECTORS` one after the other; its tests do not look at the memory, so that a
call is the list of the bodies it executes and the number it returns.
-/

namespace MimdramLean.Bitcount

open Library

inductive Vec where
  | input (k : Nat)
  | output (k : Nat)
  deriving DecidableEq, Repr

/-- The function of this name for an argument that is not negative. -/
def foo (n : Nat) : Nat :=
  let n := n ||| n >>> 1
  let n := n ||| n >>> 2
  let n := n ||| n >>> 4
  let n := n ||| n >>> 8
  let n := n ||| n >>> 16
  n >>> 1

lemma or_shiftRight_lt {x w : Nat} (k : Nat) (hx : x < 2 ^ w) : x ||| x >>> k < 2 ^ w :=
  Nat.or_lt_two_pow hx (lt_of_le_of_lt (Nat.shiftRight_le x k) hx)

/-- The recursion gets smaller. -/
lemma foo_lt {n : Nat} (hn : n ≠ 0) : foo n < n := by
  have hlt : n < 2 ^ (n.log2 + 1) := Nat.lt_log2_self
  have hsmear := or_shiftRight_lt 16 (or_shiftRight_lt 8 (or_shiftRight_lt 4
    (or_shiftRight_lt 2 (or_shiftRight_lt 1 hlt))))
  have hle : 2 ^ n.log2 ≤ n := Nat.log2_self_le hn
  rw [Nat.pow_succ] at hsmear
  rw [foo, Nat.shiftRight_eq_div_pow]
  omega

/-- The loop of `floor_log2`. -/
def floorLog2Loop (n : Nat) (result : Int) : Int :=
  if 0 < n then floorLog2Loop (n >>> 1) (result + 1) else result
termination_by n
decreasing_by
  rw [Nat.shiftRight_eq_div_pow]
  omega

def floorLog2 (n : Nat) : Int := floorLog2Loop n (-1)

/-- `necessary_space` for an argument that is not negative. -/
def necessarySpace (colLength : Nat) : Int :=
  if colLength ≤ 2 then colLength
  else if colLength = 3 then 2
  else
    let left := foo colLength
    let right := colLength - 1 - left
    let flog2 := floorLog2 colLength
    let lowerLimit1 := flog2 + 1
    let lowerLimit2 := flog2 + necessarySpace right
    let lowerLimit3 := necessarySpace left
    let space := lowerLimit1
    let space := if space < lowerLimit2 then lowerLimit2 else space
    if space < lowerLimit3 then lowerLimit3 else space
termination_by colLength
decreasing_by
  · omega
  · exact foo_lt (by omega)

/-- What a call executes, and the number it returns. -/
structure Execution where
  bodies : List (List (RowCommand Vec))
  bits : Nat

/-- Some command reads or writes vector `k` of the output. -/
def UsesOutput (cmds : List (RowCommand Vec)) (k : Nat) : Prop :=
  ∃ cmd ∈ cmds, .output k ∈ cmd.reads ∨ .output k ∈ cmd.writes

def Execution.Uses (e : Execution) (k : Nat) : Prop := UsesOutput e.bodies.flatten k

/-- The body for two and for three rows: a full adder. -/
def addThree (v1 v2 v3 sum c_out : RowName Vec) : List (RowCommand Vec) :=
  [.aap (.b .t0T1T2) v1,
   .aap (.b .t2T3) v2,
   .aap (.b .dcc1) v3,
   .aap c_out (.b .dcc1T0T3),
   .aap (.b .t0T3) (.b .dcc1n),
   .ap (.b .t0T1T2),
   .aap (.b .t1) v3,
   .aap sum (.b .t1T2T3)]

/-- The second addend in pass `i`: `output[i + b1]` if there is such a bit, otherwise `C_0`. -/
def addend (output b1 b2 i : Nat) : RowName Vec :=
  if i < b2 then .vec (.output (output + (i + b1))) else .c false

/-- One pass of the loop that adds the two counts. The passes of the two programs differ in the row
that the carry comes from and in the command that computes the next carry. -/
def addBit (c_in : RowName Vec) (carry : RowCommand Vec) (output b1 b2 i : Nat) : List (RowCommand Vec) :=
  [.aap (.b .t0T1T2) c_in,
   .aap (.b .t2T3) (.vec (.output (output + i))),
   .aap (.b .dcc1) (addend output b1 b2 i),
   carry,
   .aap (.b .t0T3) (.b .dcc1n),
   .ap (.b .t0T1T2),
   .aap (.b .t1) (addend output b1 b2 i),
   .aap (.vec (.output (output + i))) (.b .t1T2T3)]

/-- The last body of `91_bitcount-plus.c`. Pointers into the two arrays are given by the index of
their first element. -/
def combine (input left output b1 b2 : Nat) : List (RowCommand Vec) :=
  [.aap (.b .dcc1) (.vec (.input (input + left)))] ++
  (forLoop 0 b1 1).flatMap (addBit (.b .dcc1) (.ap (.b .dcc1T0T3)) output b1 b2) ++
  [.aap (.vec (.output (output + b1))) (.b .dcc1)]

/-- The last body of `91_bitcount_faster-plus.c`. -/
def combineFaster (input left output b1 b2 : Nat) : List (RowCommand Vec) :=
  (forLoop 0 b1 1).flatMap fun i =>
    addBit (if i = 0 then .vec (.input (input + left)) else .b .dcc1)
      (if i + 1 < b1 then .ap (.b .dcc1T0T3) else .aap (.vec (.output (output + b1))) (.b .dcc1T0T3))
      output b1 b2 i

/-- `bitcount`, with the body that ends the recursive case. -/
def bitcountWith (last : Nat → Nat → Nat → Nat → Nat → List (RowCommand Vec)) (input inputSize output : Nat) :
    Execution :=
  match hn : inputSize with
  | 0 => ⟨[], 0⟩
  | 1 => ⟨[[.aap (.vec (.output output)) (.vec (.input input))]], 1⟩
  | 2 => ⟨[addThree (.vec (.input input)) (.vec (.input (input + 1))) (.c false)
      (.vec (.output output)) (.vec (.output (output + 1)))], 2⟩
  | 3 => ⟨[addThree (.vec (.input input)) (.vec (.input (input + 1))) (.vec (.input (input + 2)))
      (.vec (.output output)) (.vec (.output (output + 1)))], 2⟩
  | _ + 4 =>
    let left := foo inputSize
    let right := inputSize - left - 1
    let c1 := bitcountWith last input left output
    let c2 := bitcountWith last (input + left) right (output + c1.bits)
    ⟨c1.bodies ++ c2.bodies ++ [last input left output c1.bits c2.bits], 1 + c1.bits⟩
termination_by inputSize
decreasing_by
  · have := foo_lt (n := inputSize) (by omega)
    omega
  · omega

/-- `bitcount` of `91_bitcount-plus.c`. -/
def bitcount (input inputSize output : Nat) : Execution := bitcountWith combine input inputSize output

/-- `bitcount` of `91_bitcount_faster-plus.c`. -/
def bitcountFaster (input inputSize output : Nat) : Execution :=
  bitcountWith combineFaster input inputSize output

end MimdramLean.Bitcount

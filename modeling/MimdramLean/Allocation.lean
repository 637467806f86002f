import MimdramLean.Bitcount
import MimdramLean.Elementwise
import MimdramLean.Microprograms
import MimdramLean.Predicates
import MimdramLean.WithConstants

/-!
# The blocks that the programs allocate

`main` of each program allocates its vectors with `allocate_vector`, a vector of the whole width for
operands and results and a smaller one for a temporary result that is needed for one vector at a time.
The macros then address rows of `ROW_SIZE` bytes in these blocks.
-/

namespace MimdramLean

open Library

/-- `ALIGNMENT` -/
def alignment : Nat := rowSize * rowsPerVector

/-- `per_col_bytes`, for `num_vals = 1024 << k`. -/
def perColBytes (k : Nat) : Nat := (1024 <<< k) / 8

/-- `per_col_rows` -/
def perColRowsFor (k : Nat) : Nat := (perColBytes k + rowSize - 1) / rowSize

/-- The rows that a command names. -/
@[simp] def RowCommand.rows {P : Type} : RowCommand P → List (RowName P)
  | .ap dst => [dst]
  | .aap dst src => [dst, src]

/-- What `main` of a program does with its vectors: which it allocates for a `col_length`, which of them are
temporary, and the bodies of `FOR_ALL_VECTORS` that it executes. -/
structure PlusProgram (P : Type) where
  allocated : Nat → P → Prop
  temporary : P → Bool
  bodies : Nat → List (List (RowCommand P))

/-- The addresses that `posix_memalign` returns. -/
structure Allocation (P : Type) where
  ptr : RowName P → Nat
  aligned : ∀ r, alignment ∣ ptr r

namespace PlusProgram

variable {P : Type} (prog : PlusProgram P)

/-- The size of the block of a row: `init_ambit` allocates the B-group and the constant rows, `main` the
vectors. -/
def blockBytes (k : Nat) : RowName P → Nat
  | .b _ => alignment
  | .c _ => alignment
  | .vec p => if prog.temporary p then min (perColBytes k) alignment else perColBytes k

/-- The argument of `rowop_aap` or `rowop_ap` in a call: `ROW(VECTOR(ptr))`, or `ROW(ptr)` for a temporary
vector, a row of the B-group and a constant row. -/
def operand (A : Allocation P) (c : RowCall P) : RowName P → Nat
  | .b row => A.ptr (.b row) + c.row * rowSize
  | .c bit => A.ptr (.c bit) + c.row * rowSize
  | .vec p =>
    if prog.temporary p then A.ptr (.vec p) + c.row * rowSize
    else A.ptr (.vec p) + c.baseRow * rowSize + c.row * rowSize

/-- The operands of a call lie inside their blocks, at the same offset modulo `ALIGNMENT`. -/
structure StaysInside (A : Allocation P) (colLength k : Nat) (c : RowCall P) : Prop where
  allocated : ∀ p, .vec p ∈ c.cmd.rows → prog.allocated colLength p
  inside : ∀ r ∈ c.cmd.rows, A.ptr r ≤ prog.operand A c r ∧
    prog.operand A c r + rowSize ≤ A.ptr r + prog.blockBytes k r
  offset : ∀ r ∈ c.cmd.rows, ∀ r' ∈ c.cmd.rows,
    prog.operand A c r % alignment = prog.operand A c r' % alignment

/-- So do those of all calls of the program. -/
def RowsInside (A : Allocation P) (colLength k : Nat) : Prop :=
  ∀ body ∈ prog.bodies colLength, ∀ c ∈ allCalls (perColRowsFor k) body, prog.StaysInside A colLength k c

/-- A program with one body and no temporary vectors. -/
def ofBody (allocated : Nat → P → Prop) (body : Nat → List (RowCommand P)) : PlusProgram P :=
  ⟨allocated, fun _ => false, fun n => [body n]⟩

end PlusProgram

/-! ### The programs -/

def PairVec.allocated (n : Nat) : PairVec → Prop
  | .vals1 k => k < n
  | .vals2 k => k < n
  | .output k => k < n

def Addition.program : PlusProgram PairVec := .ofBody PairVec.allocated body

def Subtraction.program : PlusProgram PairVec := .ofBody PairVec.allocated body

def SelectVec.allocated (n : Nat) : SelectVec → Prop
  | .vals1 k => k < n
  | .vals2 k => k < n
  | .output k => k < n
  | .s => True

/-- The vector `selection` is an operand. -/
def IfThenElse.program : PlusProgram SelectVec := .ofBody SelectVec.allocated body

def Min.program : PlusProgram SelectVec := ⟨SelectVec.allocated, fun p => p == .s, fun n => [body n]⟩

def Max.program : PlusProgram SelectVec := ⟨SelectVec.allocated, fun p => p == .s, fun n => [body n]⟩

namespace MultuByConst

/-- The constant of the program. -/
def constant (n : Nat) : BitVec 32 := BitVec.ofNat 32 (0x55555555 % 2 ^ n)

def allocated (n : Nat) : Vec → Prop
  | .vals k => k < n
  | .output k => k < 2 * n

def program : PlusProgram Vec := .ofBody allocated fun n => body (constant n) n

end MultuByConst

namespace Multu

def allocated (n : Nat) : Vec → Prop
  | .vals1 k => k < n
  | .vals2 k => k < n
  | .output k => k < 2 * n

def program : PlusProgram Vec := .ofBody allocated body

end Multu

namespace Divu

def allocated (n : Nat) : Vec → Prop
  | .vals1 k => k < n
  | .vals2 k => k < n
  | .output k => k < 2 * n
  | .rest k => k < n
  | .tmp k => k < n
  | .m => True

def temporary : Vec → Bool
  | .rest _ => true
  | .tmp _ => true
  | .m => true
  | _ => false

def program : PlusProgram Vec := ⟨allocated, temporary, fun n => [body n]⟩

end Divu

def ReduceVec.allocated (n : Nat) : ReduceVec → Prop
  | .vals k => k < n
  | .output => True

def XorReduction.program : PlusProgram ReduceVec := .ofBody ReduceVec.allocated body

def AndReduction.program : PlusProgram ReduceVec := .ofBody ReduceVec.allocated body

def OrReduction.program : PlusProgram ReduceVec := .ofBody ReduceVec.allocated body

def GreaterEqual0.program : PlusProgram ReduceVec := .ofBody ReduceVec.allocated body

def GreaterThan0.program : PlusProgram ReduceVec := .ofBody ReduceVec.allocated body

def CompareVec.allocated (n : Nat) : CompareVec → Prop
  | .vals1 k => k < n
  | .vals2 k => k < n
  | .output => True

def Greater.program : PlusProgram CompareVec := .ofBody CompareVec.allocated body

def GreaterEqual.program : PlusProgram CompareVec := .ofBody CompareVec.allocated body

def Equal.program : PlusProgram CompareVec := .ofBody CompareVec.allocated body

namespace Abs

def allocated (n : Nat) : Vec → Prop
  | .vals k => k < n
  | .output k => k < n
  | .carries k => k < n

def temporary : Vec → Bool
  | .carries _ => true
  | _ => false

def program : PlusProgram Vec := ⟨allocated, temporary, fun n => [body n]⟩

end Abs

namespace Relu

def allocated (n : Nat) : Vec → Prop
  | .vals k => k < n
  | .output k => k < n
  | .sign => True

def program : PlusProgram Vec := ⟨allocated, fun p => p == .sign, fun n => [body n]⟩

end Relu

namespace Bitweave

def allocated (n : Nat) : Vec → Prop
  | .vals k => k < n
  | .output => True

def program (c1 c2 : BitVec 32) : PlusProgram Vec := .ofBody allocated (body c1 c2)

end Bitweave

namespace Bitcount

/-- `main` allocates the output with `necessary_space`. -/
def allocated (n : Nat) : Vec → Prop
  | .input k => k < n
  | .output k => (k : Int) < necessarySpace n

def program : PlusProgram Vec := ⟨allocated, fun _ => false, fun n => (bitcount 0 n 0).bodies⟩

def programFaster : PlusProgram Vec := ⟨allocated, fun _ => false, fun n => (bitcountFaster 0 n 0).bodies⟩

end Bitcount

/-- The programs of `src/microworkloads` that issue their row operations through the macros. The text of
`92_bitcount-plus.c` is that of `91_bitcount_faster-plus.c`. -/
inductive IsPlusProgram : {P : Type} → PlusProgram P → Prop
  | addition : IsPlusProgram Addition.program
  | subtraction : IsPlusProgram Subtraction.program
  | min : IsPlusProgram Min.program
  | max : IsPlusProgram Max.program
  | multuByConst : IsPlusProgram MultuByConst.program
  | multu : IsPlusProgram Multu.program
  | divu : IsPlusProgram Divu.program
  | xorReduction : IsPlusProgram XorReduction.program
  | andReduction : IsPlusProgram AndReduction.program
  | orReduction : IsPlusProgram OrReduction.program
  | greaterEqual0 : IsPlusProgram GreaterEqual0.program
  | greaterThan0 : IsPlusProgram GreaterThan0.program
  | greater : IsPlusProgram Greater.program
  | greaterEqual : IsPlusProgram GreaterEqual.program
  | equal : IsPlusProgram Equal.program
  | abs : IsPlusProgram Abs.program
  | relu : IsPlusProgram Relu.program
  | ifThenElse : IsPlusProgram IfThenElse.program
  | bitweave (c1 c2 : BitVec 32) : IsPlusProgram (Bitweave.program c1 c2)
  | bitcount : IsPlusProgram Bitcount.program
  | bitcountFaster : IsPlusProgram Bitcount.programFaster

end MimdramLean

import MimdramLean.Ambit

/-!
# Microprograms

The row names of `mimdram.h`, the commands `rowop_aap` and `rowop_ap`, and what a sequence of them
does to one lane: one bit of every row. Commands act on all lanes of their rows alike and on each
lane alone. The operand vectors of a program are of an arbitrary type `P`.

What the sense amplifiers settle to when exactly two rows are connected is left open: it is a
parameter `pair`.
-/

namespace MimdramLean

/-- The rows `init_ambit` allocates for the B-group. -/
inductive BRow where
  | t0
  | t1
  | t2
  | t3
  | dcc0
  | dcc0n
  | dcc1
  | dcc1n
  | dcc0nT0
  | dcc1nT1
  | t2T3
  | t0T3
  | t0T1T2
  | t1T2T3
  | dcc0T1T2
  | dcc1T0T3
  deriving DecidableEq, Repr

/-- The cells a row of the B-group is connected to. -/
@[simp] def BRow.ports : BRow → List Port
  | .t0 => [⟨.t0, false⟩]
  | .t1 => [⟨.t1, false⟩]
  | .t2 => [⟨.t2, false⟩]
  | .t3 => [⟨.t3, false⟩]
  | .dcc0 => [⟨.dcc0, false⟩]
  | .dcc0n => [⟨.dcc0, true⟩]
  | .dcc1 => [⟨.dcc1, false⟩]
  | .dcc1n => [⟨.dcc1, true⟩]
  | .dcc0nT0 => [⟨.dcc0, true⟩, ⟨.t0, false⟩]
  | .dcc1nT1 => [⟨.dcc1, true⟩, ⟨.t1, false⟩]
  | .t2T3 => [⟨.t2, false⟩, ⟨.t3, false⟩]
  | .t0T3 => [⟨.t0, false⟩, ⟨.t3, false⟩]
  | .t0T1T2 => [⟨.t0, false⟩, ⟨.t1, false⟩, ⟨.t2, false⟩]
  | .t1T2T3 => [⟨.t1, false⟩, ⟨.t2, false⟩, ⟨.t3, false⟩]
  | .dcc0T1T2 => [⟨.dcc0, false⟩, ⟨.t1, false⟩, ⟨.t2, false⟩]
  | .dcc1T0T3 => [⟨.dcc1, false⟩, ⟨.t0, false⟩, ⟨.t3, false⟩]

/-- The cells of the B-group in one lane. -/
structure BGroup where
  t0 : Bool
  t1 : Bool
  t2 : Bool
  t3 : Bool
  dcc0 : Bool
  dcc1 : Bool
  deriving DecidableEq, Repr

namespace BGroup

@[simp] def get (g : BGroup) : Cell → Bool
  | .t0 => g.t0
  | .t1 => g.t1
  | .t2 => g.t2
  | .t3 => g.t3
  | .dcc0 => g.dcc0
  | .dcc1 => g.dcc1

@[simp] def set (g : BGroup) (c : Cell) (v : Bool) : BGroup :=
  match c with
  | .t0 => { g with t0 := v }
  | .t1 => { g with t1 := v }
  | .t2 => { g with t2 := v }
  | .t3 => { g with t3 := v }
  | .dcc0 => { g with dcc0 := v }
  | .dcc1 => { g with dcc1 := v }

@[simp] def read (g : BGroup) (p : Port) : Bool := xor p.negated (g.get p.cell)

@[simp] def write (g : BGroup) (v : Bool) (p : Port) : BGroup := g.set p.cell (xor p.negated v)

/-- The value on the bitline when a row is activated. -/
@[simp] def sense (pair : Bool → Bool → Bool) (g : BGroup) (row : BRow) : Bool :=
  match row.ports with
  | [p] => g.read p
  | [p, q] => pair (g.read p) (g.read q)
  | [p, q, r] => maj (g.read p) (g.read q) (g.read r)
  | _ => false

/-- Connect the cells of a row to a bitline that holds `v`. -/
@[simp] def drive (g : BGroup) (v : Bool) (row : BRow) : BGroup := row.ports.foldl (fun g p => g.write v p) g

end BGroup

/-- A row that a microprogram names: of the B-group, `C_0` or `C_1`, or of an operand vector. -/
inductive RowName (P : Type) where
  | b (row : BRow)
  | c (bit : Bool)
  | vec (p : P)
  deriving DecidableEq, Repr

/-- `AAP_VECTORS(dst, src)` and `AP_VECTOR(dst)`. -/
inductive RowCommand (P : Type) where
  | aap (dst src : RowName P)
  | ap (dst : RowName P)
  deriving DecidableEq, Repr

/-- One lane: the cells of the B-group, and a bit of every operand vector. -/
structure LaneState (P : Type) where
  bgroup : BGroup
  data : P → Bool

namespace LaneState

variable {P : Type} [DecidableEq P] (pair : Bool → Bool → Bool)

def sense (s : LaneState P) : RowName P → Bool
  | .b row => s.bgroup.sense pair row
  | .c bit => bit
  | .vec p => s.data p

/-- Connect a row to a bitline that holds `v`. The constant rows keep their content. -/
def drive (s : LaneState P) (v : Bool) : RowName P → LaneState P
  | .b row => { s with bgroup := s.bgroup.drive v row }
  | .c _ => s
  | .vec p => { s with data := Function.update s.data p v }

/-- `rowop_ap` restores the sensed value in the rows it activates; `rowop_aap` then stores it in the
rows of its first operand too. -/
def exec (s : LaneState P) : RowCommand P → LaneState P
  | .ap dst => s.drive (s.sense pair dst) dst
  | .aap dst src => (s.drive (s.sense pair src) src).drive (s.sense pair src) dst

@[simp] lemma drive_b (s : LaneState P) (v : Bool) (row : BRow) :
    s.drive v (.b row) = ⟨s.bgroup.drive v row, s.data⟩ := rfl

@[simp] lemma drive_vec (s : LaneState P) (v : Bool) (p : P) :
    s.drive v (.vec p) = ⟨s.bgroup, Function.update s.data p v⟩ := rfl

@[simp] lemma exec_ap_b (s : LaneState P) (row : BRow) :
    s.exec pair (.ap (.b row)) = s.drive (s.bgroup.sense pair row) (.b row) := rfl

@[simp] lemma exec_aap_b (s : LaneState P) (dst : RowName P) (row : BRow) :
    s.exec pair (.aap dst (.b row)) =
      (s.drive (s.bgroup.sense pair row) (.b row)).drive (s.bgroup.sense pair row) dst := rfl

@[simp] lemma exec_aap_c (s : LaneState P) (dst : RowName P) (bit : Bool) :
    s.exec pair (.aap dst (.c bit)) = s.drive bit dst := rfl

/-- Reading an operand vector does not change it. -/
@[simp] lemma exec_aap_vec (s : LaneState P) (dst : RowName P) (p : P) :
    s.exec pair (.aap dst (.vec p)) = s.drive (s.data p) dst := by
  simp [exec, sense]

/-- The commands of a microprogram, one after the other. -/
def run (s : LaneState P) (cmds : List (RowCommand P)) : LaneState P := cmds.foldl (exec pair) s

@[simp] lemma run_nil (s : LaneState P) : s.run pair [] = s := rfl

lemma run_cons (s : LaneState P) (cmd : RowCommand P) (cmds : List (RowCommand P)) :
    s.run pair (cmd :: cmds) = (s.exec pair cmd).run pair cmds := rfl

lemma run_append (s : LaneState P) (cmds cmds' : List (RowCommand P)) :
    s.run pair (cmds ++ cmds') = (s.run pair cmds).run pair cmds' := List.foldl_append

end LaneState

/-! ### Rows that a program reads and writes -/

namespace RowCommand

variable {P : Type}

/-- The operand vectors that a command reads. -/
def reads : RowCommand P → List P
  | .ap (.vec p) => [p]
  | .aap _ (.vec p) => [p]
  | _ => []

/-- The operand vectors that a command stores a value in. -/
def writes : RowCommand P → List P
  | .ap (.vec p) => [p]
  | .aap (.vec p) _ => [p]
  | _ => []

end RowCommand

/-- Each row that a command reads is in `W` or has been written by an earlier command. -/
def ReadsWritten {P : Type} (W : P → Prop) : List (RowCommand P) → Prop
  | [] => True
  | cmd :: cmds => (∀ p ∈ cmd.reads, W p) ∧ ReadsWritten (fun p => W p ∨ p ∈ cmd.writes) cmds

/-! ### Passes that several programs share

The programs of this repository are loops over the bits of their operands. Three of the passes occur in
more than one program, with other rows. -/

section Passes

variable {P : Type}

/-- Add one bit. The carry is in `B_DCC1`. -/
def addPass (v1 v2 out : RowName P) : List (RowCommand P) :=
  [.aap (.b .t0T1T2) (.b .dcc1),
   .aap (.b .t2T3) v1,
   .aap (.b .dcc1) v2,
   .ap (.b .dcc1T0T3),
   .aap (.b .t0T3) (.b .dcc1n),
   .ap (.b .t0T1T2),
   .aap (.b .t1) v2,
   .aap out (.b .t1T2T3)]

/-- Subtract one bit. The complement of the borrow is in `B_DCC0`. -/
def subtractPass (v1 v2 out : RowName P) : List (RowCommand P) :=
  [.aap (.b .t0T1T2) (.b .dcc0),
   .aap (.b .t2T3) v1,
   .aap (.b .dcc1n) v2,
   .aap (.b .dcc0) (.b .dcc1T0T3),
   .aap (.b .t0T3) (.b .dcc1n),
   .ap (.b .t0T1T2),
   .aap (.b .dcc1n) v2,
   .aap out (.b .dcc1T0T3)]

/-- Select one bit, `out = s ? v1 : v2`. -/
def selectPass (s v1 v2 out : RowName P) : List (RowCommand P) :=
  [.aap (.b .dcc0nT0) s,
   .aap (.b .dcc1nT1) (.c true),
   .aap (.b .t3) v1,
   .aap (.b .t2) v2,
   .ap (.b .t0T1T2),
   .aap (.b .t3) (.b .dcc0T1T2),
   .aap out (.b .dcc1T0T3)]

end Passes

end MimdramLean

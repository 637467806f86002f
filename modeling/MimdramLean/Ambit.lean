import MimdramLean.RowOps
import Mathlib.Logic.Function.Basic

/-!
# Row contents under bank commands

What an activation does to the cells of a bank. A row is a family of bits over an arbitrary
type `ι` of lanes. Activating a name of three rows leaves the bitwise majority in all three;
`AAP` activates its first row and stores the sensed value in every row its second name stands
for; the `N` names are the complement ports of the dual-contact cells.
-/

namespace MimdramLean

def maj (a b c : Bool) : Bool := (a && b) || (b && c) || (a && c)

@[simp] lemma maj_false (a b : Bool) : maj a b false = (a && b) := by cases a <;> cases b <;> rfl

@[simp] lemma maj_true (a b : Bool) : maj a b true = (a || b) := by cases a <;> cases b <;> rfl

/-- The cell rows of the B-group. -/
inductive Cell where
  | t0
  | t1
  | t2
  | t3
  | dcc0
  | dcc1
  deriving DecidableEq, Repr

/-- A cell row together with the side of the sense amplifier it is connected to. -/
structure Port where
  cell : Cell
  negated : Bool
  deriving DecidableEq, Repr

/-- What a row number selects. -/
inductive Wordline where
  | data (row : Nat)
  | const (bit : Bool)
  | ports (ps : List Port)

def wordline (row : Nat) : Wordline :=
  if row < Row.c1 then .data row
  else match 2 ^ 32 - row with
    | 3 => .ports [⟨.t0, false⟩]
    | 4 => .ports [⟨.t1, false⟩]
    | 5 => .ports [⟨.t2, false⟩]
    | 6 => .ports [⟨.t3, false⟩]
    | 7 => .ports [⟨.dcc0, false⟩]
    | 8 => .ports [⟨.dcc0, true⟩]
    | 9 => .ports [⟨.dcc1, false⟩]
    | 10 => .ports [⟨.dcc1, true⟩]
    | 11 => .ports [⟨.dcc0, true⟩, ⟨.t0, false⟩]
    | 12 => .ports [⟨.dcc1, true⟩, ⟨.t1, false⟩]
    | 13 => .ports [⟨.t2, false⟩, ⟨.t3, false⟩]
    | 14 => .ports [⟨.t0, false⟩, ⟨.t3, false⟩]
    | 15 => .ports [⟨.t0, false⟩, ⟨.t1, false⟩, ⟨.t2, false⟩]
    | 16 => .ports [⟨.t1, false⟩, ⟨.t2, false⟩, ⟨.t3, false⟩]
    | 17 => .ports [⟨.dcc0, false⟩, ⟨.t1, false⟩, ⟨.t2, false⟩]
    | 18 => .ports [⟨.dcc1, false⟩, ⟨.t0, false⟩, ⟨.t3, false⟩]
    | 19 => .const false
    | 20 => .const true
    | _ => .ports []

section
open Row

lemma wordline_data {row : Nat} (h : row < c1) : wordline row = .data row := if_pos h

@[simp] lemma wordline_bT0 : wordline bT0 = .ports [⟨.t0, false⟩] := rfl
@[simp] lemma wordline_bT1 : wordline bT1 = .ports [⟨.t1, false⟩] := rfl
@[simp] lemma wordline_bT2 : wordline bT2 = .ports [⟨.t2, false⟩] := rfl
@[simp] lemma wordline_bDCC0 : wordline bDCC0 = .ports [⟨.dcc0, false⟩] := rfl
@[simp] lemma wordline_bDCC0N : wordline bDCC0N = .ports [⟨.dcc0, true⟩] := rfl
@[simp] lemma wordline_bDCC0NT0 : wordline bDCC0NT0 = .ports [⟨.dcc0, true⟩, ⟨.t0, false⟩] := rfl
@[simp] lemma wordline_bDCC1NT1 : wordline bDCC1NT1 = .ports [⟨.dcc1, true⟩, ⟨.t1, false⟩] := rfl
@[simp] lemma wordline_bT2T3 : wordline bT2T3 = .ports [⟨.t2, false⟩, ⟨.t3, false⟩] := rfl
@[simp] lemma wordline_bT0T1T2 : wordline bT0T1T2 = .ports [⟨.t0, false⟩, ⟨.t1, false⟩, ⟨.t2, false⟩] := rfl
@[simp] lemma wordline_bDCC0T1T2 :
    wordline bDCC0T1T2 = .ports [⟨.dcc0, false⟩, ⟨.t1, false⟩, ⟨.t2, false⟩] := rfl
@[simp] lemma wordline_bDCC1T0T3 :
    wordline bDCC1T0T3 = .ports [⟨.dcc1, false⟩, ⟨.t0, false⟩, ⟨.t3, false⟩] := rfl
@[simp] lemma wordline_c0 : wordline c0 = .const false := rfl
@[simp] lemma wordline_c1 : wordline c1 = .const true := rfl

end

structure CellArray (ι : Type) where
  data : Nat → ι → Bool
  cell : Cell → ι → Bool

namespace CellArray

variable {ι : Type}

def read (s : CellArray ι) (p : Port) : ι → Bool :=
  fun i => xor p.negated (s.cell p.cell i)

def write (s : CellArray ι) (v : ι → Bool) (p : Port) : CellArray ι :=
  { s with cell := Function.update s.cell p.cell (fun i => xor p.negated (v i)) }

/-- Activate a row: the value on the bitlines, and the cells after sensing. The value is not
defined when two rows, or none, are connected. -/
def activate (s : CellArray ι) (row : Nat) : Option ((ι → Bool) × CellArray ι) :=
  match wordline row with
  | .data r => some (s.data r, s)
  | .const b => some (fun _ => b, s)
  | .ports [p] => some (s.read p, s)
  | .ports [p, q, r] =>
    let v := fun i => maj (s.read p i) (s.read q i) (s.read r i)
    some (v, ((s.write v p).write v q).write v r)
  | .ports _ => none

/-- Connect further rows while the bitlines hold `v`. The constant rows keep their content. -/
def drive (s : CellArray ι) (row : Nat) (v : ι → Bool) : CellArray ι :=
  match wordline row with
  | .data r => { s with data := Function.update s.data r v }
  | .const _ => s
  | .ports ps => ps.foldl (fun s p => s.write v p) s

def exec (s : CellArray ι) : BankCommand → Option (CellArray ι)
  | .ap row => (s.activate row).map Prod.snd
  | .aap row1 row2 _ => (s.activate row1).map fun (v, t) => t.drive row2 v

def execAll (s : CellArray ι) : List BankCommand → Option (CellArray ι)
  | [] => some s
  | c :: cs => (s.exec c).bind fun t => t.execAll cs

end CellArray

end MimdramLean

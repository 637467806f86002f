import MimdramLean.Proofs.PageTable
import MimdramLean.Proofs.ProcessMemory

/-!
# Row operations in virtual memory

A row operation works on physical rows. When its operands are in regions that the process got from `mmap`, it
does to the virtual memory of the process what it would do there if addresses were not translated at all,
and nothing to the memory of other processes.
-/

namespace MimdramLean.Proofs
open Library

/-! ### Row operations at the images of addresses -/

section Images

variable {D : Nat → Prop} {f : Nat → Nat} {m m' : Memory} {virt phys : RowOpPayload}

/-- The rows of the operands lie at the images of their addresses. -/
def RowsAt (D : Nat → Prop) (f : Nat → Nat) (virt phys : RowOpPayload) : Prop :=
  ∀ o, virt.op.touches o = true → ∀ i < rowSize, D (virt.get o + i) ∧ f (virt.get o + i) = phys.get o + i

lemma RowsAt.load64_eq (h : RowsAt D f virt phys) {o : Operand} (ho : virt.op.touches o = true) {i : Nat}
    (hi : i < rowSize / 8) (hm : Images D f m m') :
    load64 m (phys.get o + 8 * i) = load64 m' (virt.get o + 8 * i) := by
  refine hm.load64_eq fun k hk => ?_
  rw [Nat.add_assoc, Nat.add_assoc]
  refine h o ho (8 * i + k) ?_
  simp only [rowSize] at hi ⊢
  omega

/-- A row operation at the images does what it does at the addresses. -/
lemma accessRowOp_images (hinj : ∀ x y, D x → D y → f x = f y → x = y) (hop : phys.op = virt.op)
    (hrows : RowsAt D f virt phys) (h : Images D f m m') : Images D f (accessRowOp m phys) (accessRowOp m' virt) := by
  have hloop : virt.op.touches .dest = true → ∀ word word' : Memory → Nat → BitVec 64,
      (∀ i < rowSize / 8, ∀ m m', Images D f m m' → word m (8 * i) = word' m' (8 * i)) →
      Images D f (forRow phys.dest word m) (forRow virt.dest word' m') := by
    intro ho word word' hword
    exact Images.storeWords hinj (fun i hi => hrows .dest ho i hi) hword h
  obtain ⟨op, dest, src1, src2⟩ := virt
  obtain ⟨op', dest', src1', src2'⟩ := phys
  obtain rfl : op' = op := hop
  cases op' with
  | rowAnd =>
    refine hloop rfl _ _ fun i hi m m' hm => ?_
    exact congrArg₂ _ (hrows.load64_eq (o := .src1) rfl hi hm) (hrows.load64_eq (o := .src2) rfl hi hm)
  | rowOr =>
    refine hloop rfl _ _ fun i hi m m' hm => ?_
    exact congrArg₂ _ (hrows.load64_eq (o := .src1) rfl hi hm) (hrows.load64_eq (o := .src2) rfl hi hm)
  | rowXor =>
    refine hloop rfl _ _ fun i hi m m' hm => ?_
    exact congrArg₂ _ (hrows.load64_eq (o := .src1) rfl hi hm) (hrows.load64_eq (o := .src2) rfl hi hm)
  | rowNot =>
    refine hloop rfl _ _ fun i hi m m' hm => ?_
    exact congrArg _ (hrows.load64_eq (o := .src1) rfl hi hm)
  | rowAp => exact h
  | rowAap => exact h

/-- An operation without a destination changes nothing. -/
lemma accessRowOp_eq_self (h : ¬phys.op.touches .dest = true) : accessRowOp m phys = m := by
  obtain ⟨op, dest, src1, src2⟩ := phys
  cases op with
  | rowAp => rfl
  | rowAap => rfl
  | _ => exact absurd rfl h

end Images

/-! ### Virtual memory -/

/-- The address is mapped. -/
def MappedByte (T : PTable) (x : Nat) : Prop := x < 2 ^ 64 ∧ T (pageAlign (BitVec.ofNat 64 x)) ≠ none

/-- The place of a byte in physical memory. -/
def physOf (T : PTable) (x : Nat) : Nat :=
  match T (pageAlign (BitVec.ofNat 64 x)) with
  | some e => (e.paddr + pageOffset (BitVec.ofNat 64 x)).toNat
  | none => 0

/-- The memory as a process sees it. -/
def virtMem (T : PTable) (m : Memory) : Memory := fun x => m (physOf T x)

section System

variable {ι κ : Type} {n : Nat} {owner : κ → ι} {s : SeSystem ι κ n}

lemma physOf_eq {T : PTable} {x : Nat} {e : TlbEntry} (he : T (pageAlign (BitVec.ofNat 64 x)) = some e) :
    physOf T x = (e.paddr + pageOffset (BitVec.ofNat 64 x)).toNat := by rw [physOf, he]

/-- No two bytes are in the same place. -/
lemma SeInv.physOf_inj (h : SeInv owner s) {i j : ι} {x y : Nat} (hx : MappedByte (table s i) x)
    (hy : MappedByte (table s j) y) (heq : physOf (table s i) x = physOf (table s j) y) : i = j ∧ x = y := by
  obtain ⟨e, he⟩ := Option.ne_none_iff_exists'.mp hx.2
  obtain ⟨e', he'⟩ := Option.ne_none_iff_exists'.mp hy.2
  rw [physOf_eq he, physOf_eq he', BitVec.toNat_inj] at heq
  have hframe := congrArg pageAlign heq
  rw [pageAlign_add_offset (h.good _ _ _ he).frame, pageAlign_add_offset (h.good _ _ _ he').frame] at hframe
  obtain ⟨rfl, hpage⟩ := h.separate _ _ _ _ _ _ he he' hframe
  refine ⟨rfl, ?_⟩
  rw [hframe] at heq
  have hoff : pageOffset (BitVec.ofNat 64 x) = pageOffset (BitVec.ofNat 64 y) := add_left_cancel heq
  have hsame : BitVec.ofNat 64 x = BitVec.ofNat 64 y := by
    rw [← pageAlign_add_pageOffset (BitVec.ofNat 64 x), hpage, hoff, pageAlign_add_pageOffset]
  have := congrArg BitVec.toNat hsame
  rw [BitVec.toNat_ofNat, BitVec.toNat_ofNat, Nat.mod_eq_of_lt hx.1, Nat.mod_eq_of_lt hy.1] at this
  exact this

/-- The region that `mmap` returned has the row at the address. -/
def RowInRegion (ops : List (SeOp ι κ)) (os : List SeAnswer) (i : ι) (addr : Nat) : Prop :=
  ∃ args start, (SeOp.mmap i args, SeAnswer.syscall (.value start)) ∈ ops.zip os ∧ start.toNat ≤ addr ∧
    addr + rowSize ≤ start.toNat + (Process.roundUp args.length).toNat ∧ addr + rowSize ≤ 2 ^ 64

variable [DecidableEq ι] [DecidableEq κ] {growsDown : Bool} {s₀ : SeSystem ι κ n} {ops : List (SeOp ι κ)}
  {os : List SeAnswer}

/-- A row operation whose operands are in regions that the process got from `mmap`, at the addresses that the TLB
gave for them: the process sees what it would see without translation, and other processes see nothing. -/
theorem row_op_in_virtual_memory (hfresh : Fresh s₀) (hsmall : s₀.mem.totalSize.toNat < 0xFFFF0000)
    (hops : ∀ op ∈ ops, PlainOp op)
    (hrun : runAnswers (SeSystem.step owner growsDown) s₀ ops = .ok (os, s)) {i : ι} {virt phys : RowOpPayload}
    (hop : phys.op = virt.op)
    (htrans : ∀ o, virt.op.touches o = true → ∃ k r, GotAddress ops os k r ∧ owner k = i ∧
      r.vaddr.toNat = virt.get o ∧ r.paddr.toNat = phys.get o)
    (hregion : ∀ o, virt.op.touches o = true → RowInRegion ops os i (virt.get o)) (m : Memory) :
    (∀ x, MappedByte (table s i) x →
      virtMem (table s i) (accessRowOp m phys) x = accessRowOp (virtMem (table s i) m) virt x) ∧
    ∀ j, j ≠ i → ∀ x, MappedByte (table s j) x →
      virtMem (table s j) (accessRowOp m phys) x = virtMem (table s j) m x := by
  obtain ⟨hinv, hall⟩ := run_explained hfresh hsmall hops hrun
  have hrows : RowsAt (MappedByte (table s i)) (physOf (table s i)) virt phys := by
    intro o ho l hl
    obtain ⟨k, r, hr, rfl, hvirt, hphys⟩ := htrans o ho
    obtain ⟨args, start, hmmap, hlow, hhigh, htop⟩ := hregion o ho
    obtain ⟨base, hbase⟩ := hall _ hmmap
    have hsize : (Process.roundUp args.length).toNat ≤ 2 ^ 42 := hops _ (List.of_mem_zip hmmap).1
    have hmod := roundUp_mod args.length
    rw [← hvirt] at hlow hhigh htop ⊢
    -- the address that was translated, and the byte of its row
    obtain ⟨e, he, hpaddr⟩ := hr.translatedBy hall
    obtain ⟨e₀, he₀, hfirst⟩ := hbase.entry (v := r.vaddr) (hinv.good _) hsize hmod (by
      rw [BitVec.toNat_sub]
      simp only [rowSize] at hhigh
      omega)
    obtain ⟨e₁, he₁, hbyte⟩ := hbase.entry (v := BitVec.ofNat 64 (r.vaddr.toNat + l)) (hinv.good _) hsize hmod (by
      rw [BitVec.toNat_sub, BitVec.toNat_ofNat]
      simp only [rowSize] at hhigh hl htop
      omega)
    refine ⟨⟨by omega, fun hnone => Option.some_ne_none _ (he₁.symm.trans hnone)⟩, ?_⟩
    obtain rfl := Option.some.inj (he.symm.trans he₀)
    have haddr := (hinv.good _ _ _ he).addr_lt (hinv.mem.ptr.trans_lt hinv.mem.small) r.vaddr
    have hnext : base + (BitVec.ofNat 64 (r.vaddr.toNat + l) - start) =
        base + (r.vaddr - start) + BitVec.ofNat 64 l := by
      rw [BitVec.ofNat_add, BitVec.ofNat_toNat, BitVec.setWidth_eq]
      ring
    rw [physOf_eq he₁, hbyte, hnext, ← hfirst, ← hphys, hpaddr, BitVec.toNat_add, BitVec.toNat_ofNat]
    simp only [rowSize] at hl
    omega
  constructor
  · exact accessRowOp_images (fun x y hx hy heq => (hinv.physOf_inj hx hy heq).2) hop hrows fun x _ => rfl
  · intro j hj x hx
    by_cases hdest : virt.op.touches .dest = true
    · refine accessRowOp_outside fun l hl heq => hj ?_
      obtain ⟨hmapped, hplace⟩ := hrows .dest hdest l hl
      exact (hinv.physOf_inj hx hmapped (heq.trans hplace.symm)).1
    · rw [accessRowOp_eq_self (hop ▸ hdest)]

end System

/-- A process with one CPU. -/
def oneProcess : SeSystem Unit Unit 0 where
  processes := fun _ => ⟨.new, 0x7FFFFFFFF000, 0x7FFFFFFFE000, 0x800000, 0x600000, 0x2AAAAAAAB000⟩
  tlbs := fun _ => .new 0
  mem := ⟨16, 0x20000000⟩

def oneProcessOps : List (SeOp Unit Unit) :=
  [.mmap () ⟨0, 0x4000, 0x20, false, 0⟩, .translate () userRegs ⟨0x2AAAAAAAB000, 8, 3⟩ .write,
    .translate () userRegs ⟨0x2AAAAAAAD000, 8, 3⟩ .read]

def oneProcessAnswers : List SeAnswer :=
  [.syscall (.value 0x2AAAAAAAB000), .translated (.ok ⟨0x2AAAAAAAB000, 0x10000, 3⟩),
    .translated (.ok ⟨0x2AAAAAAAD000, 0x12000, 3⟩)]

lemma oneProcess_run :
    ∃ s, runAnswers (SeSystem.step id false) oneProcess oneProcessOps = .ok (oneProcessAnswers, s) := ⟨_, rfl⟩

/-- The complement of the second row of a region goes to the first. -/
def notVirt : RowOpPayload := ⟨.rowNot, 0x2AAAAAAAB000, 0x2AAAAAAAD000, 0⟩

def notPhys : RowOpPayload := ⟨.rowNot, 0x10000, 0x12000, 0⟩

theorem row_op_in_virtual_memory_not :
    ∃ s, runAnswers (SeSystem.step id false) oneProcess oneProcessOps = .ok (oneProcessAnswers, s) ∧
      ∀ m x, MappedByte (table s ()) x →
        virtMem (table s ()) (accessRowOp m notPhys) x = accessRowOp (virtMem (table s ()) m) notVirt x := by
  obtain ⟨s, hrun⟩ := oneProcess_run
  have hops : ∀ op ∈ oneProcessOps, PlainOp op := by
    simp only [oneProcessOps, List.forall_mem_cons, PlainOp]
    exact ⟨by decide, trivial, trivial, List.forall_mem_nil _⟩
  have hmmap : (SeOp.mmap () ⟨0, 0x4000, 0x20, false, 0⟩, SeAnswer.syscall (.value 0x2AAAAAAAB000)) ∈
      oneProcessOps.zip oneProcessAnswers := List.mem_iff_getElem?.mpr ⟨0, rfl⟩
  have hdest : GotAddress oneProcessOps oneProcessAnswers () ⟨0x2AAAAAAAB000, 0x10000, 3⟩ :=
    ⟨userRegs, _, _, List.mem_iff_getElem?.mpr ⟨1, rfl⟩, rfl, rfl⟩
  have hsrc : GotAddress oneProcessOps oneProcessAnswers () ⟨0x2AAAAAAAD000, 0x12000, 3⟩ :=
    ⟨userRegs, _, _, List.mem_iff_getElem?.mpr ⟨2, rfl⟩, rfl, rfl⟩
  refine ⟨s, hrun, fun m => ?_⟩
  have hfresh : Fresh oneProcess := ⟨by decide, fun _ => rfl, fun _ => rfl⟩
  have hop : notPhys.op = notVirt.op := rfl
  refine (row_op_in_virtual_memory hfresh (by decide) hops hrun hop (fun o ho => ?_) (fun o ho => ?_) m).1
  · cases o with
    | dest => exact ⟨(), _, hdest, rfl, rfl, rfl⟩
    | src1 => exact ⟨(), _, hsrc, rfl, rfl, rfl⟩
    | src2 => cases ho
  · cases o with
    | dest => exact ⟨_, _, hmmap, by decide, by decide, by decide⟩
    | src1 => exact ⟨_, _, hmmap, by decide, by decide, by decide⟩
    | src2 => cases ho

end MimdramLean.Proofs

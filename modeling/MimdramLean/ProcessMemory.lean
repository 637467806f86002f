import MimdramLean.FuncPageTable

/-!
# Memory of the processes in syscall emulation

Physical memory is handed out by `System::allocPhysPages`. A process gets its pages from `allocateMem`:
when it is loaded, by the system calls `brk`, `mmap` and `mremap`, and when its stack grows. The TLBs are
filled from the page tables. What the pages hold is not part of the model.
-/

namespace MimdramLean

open Library

/-- `pagePtr` of `System` and `physmem.totalSize()`. -/
structure PhysMem where
  pagePtr : Addr
  totalSize : Addr
  deriving DecidableEq, Repr

inductive SeFailure where
  | pageTable (e : PageTableFailure)
  | tlb (e : TlbFailure)
  | outOfMemory
  | stackSize
  /-- not a failure of the code: the loop over the new pages of the stack does not end -/
  | stackLoop
  /-- a write of the simulator to a page that is not mapped -/
  | proxyFault
  /-- not a failure of the code: the internal address spaces (`translateInt`) are left out -/
  | internalSegment
  deriving DecidableEq, Repr

/-- The addresses of the pseudo instructions. -/
def m5opRange (a : Addr) : Bool := 0xFFFF0000 ≤ a && a ≤ 0xFFFFFFFF

/-- `System::allocPhysPages`. -/
def PhysMem.allocPhysPages (m : PhysMem) (npages : BitVec 32) : Except SeFailure (Addr × PhysMem) := do
  let pagePtr := m.pagePtr + npages.signExtend 64
  let (returnAddr, pagePtr) : Addr × Addr :=
    if m5opRange (pagePtr <<< TlbEntry.pageShift) then (0xFFFFFFFF, (0xFFFFFFFF : Addr) >>> TlbEntry.pageShift)
    else (m.pagePtr <<< TlbEntry.pageShift, pagePtr)
  ensure (pagePtr <<< TlbEntry.pageShift ≤ m.totalSize) .outOfMemory
  .ok (returnAddr, { m with pagePtr := pagePtr })

/-- The part of `Process` that is about its memory. -/
structure Process where
  pTable : FuncPageTable
  stackBase : Addr
  stackMin : Addr
  maxStackSize : Addr
  brkPoint : Addr
  mmapEnd : Addr

/-- A process and the physical memory. -/
abbrev ProcMem := Process × PhysMem

def liftTable {α : Type} : Except PageTableFailure α → Except SeFailure α
  | .ok a => .ok a
  | .error e => .error (.pageTable e)

def liftTlb {α : Type} : Except TlbFailure α → Except SeFailure α
  | .ok a => .ok a
  | .error e => .error (.tlb e)

namespace Process

/-- `npages` of `allocateMem`: an `int` from an `int64_t`. -/
def npages (size : BitVec 64) : BitVec 32 := ((size + pageSize - 1).sdiv pageSize).setWidth 32

/-- `Process::allocateMem`. -/
def allocateMem (s : ProcMem) (vaddr : Addr) (size : BitVec 64) (clobber : Bool) : Except SeFailure ProcMem := do
  let (paddr, mem) ← s.2.allocPhysPages (npages size)
  let pTable ← liftTable (s.1.pTable.map vaddr paddr size ⟨clobber, false, false⟩)
  .ok ({ s.1 with pTable := pTable }, mem)

/-- The loop of `fixupStackFault`. -/
def growStack (vaddr : Addr) : Nat → ProcMem → Except SeFailure ProcMem
  | 0, s => if vaddr < s.1.stackMin then .error .stackLoop else .ok s
  | fuel + 1, s =>
    if vaddr < s.1.stackMin then do
      let stackMin := s.1.stackMin - pageSize
      ensure (s.1.stackBase - stackMin ≤ s.1.maxStackSize) .stackSize
      let s ← allocateMem ({ s.1 with stackMin := stackMin }, s.2) stackMin pageSize false
      growStack vaddr fuel s
    else .ok s

/-- `Process::fixupStackFault`. -/
def fixupStackFault (s : ProcMem) (vaddr : Addr) : Except SeFailure (Bool × ProcMem) :=
  if s.1.stackMin ≤ vaddr ∧ vaddr < s.1.stackBase then do
    let s ← allocateMem s (pageAlign vaddr) pageSize false
    .ok (true, s)
  else if vaddr < s.1.stackMin ∧ s.1.stackBase - s.1.maxStackSize ≤ vaddr then do
    let s ← growStack vaddr ((s.1.stackMin - vaddr).toNat / pageBytes + 1) s
    .ok (true, s)
  else .ok (false, s)

/-- `pTable->lookup`, which changes the cache of the page table. -/
def lookup (s : ProcMem) (vaddr : Addr) : Option TlbEntry × ProcMem :=
  let (entry, pTable) := s.1.pTable.lookup vaddr
  (entry, { s.1 with pTable := pTable }, s.2)

/-- `roundUp(a, PageBytes)`. -/
def roundUp (a : Addr) : Addr := (a + offsetMask) &&& ~~~offsetMask

/-- The addresses of a `ChunkGenerator` over pages, whose total size is an `unsigned`. -/
def chunks (start : Addr) (total : BitVec 32) : List Addr :=
  if total = 0 then []
  else
    let first := min total.toNat (pageBytes - (pageOffset start).toNat)
    start :: (List.range ((total.toNat - first + (pageBytes - 1)) / pageBytes)).map fun i =>
      pageAlign start + pageSize + BitVec.ofNat 64 (i * pageBytes)

/-- What `brkFunc` does for a chunk. A page that is there is cleared, with the start of the page after it; of
this only the lookups in the page table are modelled. -/
def brkChunk (newBrk : Addr) (s : ProcMem) (addr : Addr) : Except SeFailure ProcMem :=
  match lookup s addr with
  | (none, s) => allocateMem s (pageAlign addr) pageSize false
  | (some _, s) =>
    let nextPage := roundUp addr
    let s := if addr < nextPage then (lookup s addr).2 else s
    if nextPage < addr + pageSize ∧ nextPage < newBrk then
      match lookup s nextPage with
      | (none, s) => .ok s
      | (some _, s) => .ok (lookup s nextPage).2
    else .ok s

/-- What a system call returns. -/
inductive SyscallReturn where
  | value (a : Addr)
  | einval
  | enomem
  | ebadf
  deriving DecidableEq, Repr

/-- `brkFunc`. -/
def brkFunc (s : ProcMem) (newBrk : Addr) : Except SeFailure (SyscallReturn × ProcMem) :=
  if newBrk = 0 then .ok (.value s.1.brkPoint, s)
  else do
    let todo := if s.1.brkPoint < newBrk then chunks s.1.brkPoint ((newBrk - s.1.brkPoint).setWidth 32) else []
    let s ← todo.foldlM (brkChunk newBrk) s
    .ok (.value newBrk, { s.1 with brkPoint := newBrk }, s.2)

/-- The arguments of `mmapFunc`. `fdValid` says that the file descriptor is that of an open file. -/
structure MmapArgs where
  start : Addr
  length : Addr
  flags : BitVec 32
  fdValid : Bool
  offset : BitVec 32
  deriving DecidableEq, Repr

def mapAnonymous : BitVec 32 := 0x20
def mapFixed : BitVec 32 := 0x10

/-- The address that `mmapFunc` uses; `growsDown` is `OS::mmapGrowsDown()`. -/
def mmapPlace (growsDown : Bool) (p : Process) (provided : Option Addr) (length : Addr) : Addr × Process :=
  match provided with
  | some start => (start, p)
  | none =>
    if growsDown then (p.mmapEnd - length, { p with mmapEnd := p.mmapEnd - length })
    else (p.mmapEnd, { p with mmapEnd := p.mmapEnd + length })

/-- An address is given and nothing is mapped there. -/
def startUnused (s : ProcMem) (start length : Addr) : Except SeFailure Bool :=
  if start ≠ 0 then liftTable (s.1.pTable.isUnmapped start length) else .ok false

/-- `mmapFunc`. -/
def mmapFunc (growsDown : Bool) (s : ProcMem) (a : MmapArgs) : Except SeFailure (SyscallReturn × ProcMem) :=
  let length := roundUp a.length
  if a.flags &&& mapAnonymous = 0 ∧ a.fdValid = false then .ok (.ebadf, s)
  else if pageOffset a.start ≠ 0 ∨ a.offset &&& 0xFFF ≠ 0 then .ok (.einval, s)
  else do
    let unused ← startUnused s a.start length
    if a.start ≠ 0 ∧ unused = false ∧ a.flags &&& mapFixed ≠ 0 then .ok (.einval, s)
    else
      -- an address that is in use is only a suggestion
      let (start, p) := mmapPlace growsDown s.1 (if unused then some a.start else none) length
      let s ← allocateMem (p, s.2) start length false
      .ok (.value start, s)

/-- The arguments of `mremapFunc`; `provided` is there with `MREMAP_FIXED`. -/
structure MremapArgs where
  start : Addr
  oldLength : Addr
  newLength : Addr
  mayMove : Bool
  provided : Option Addr
  deriving DecidableEq, Repr

/-- The branch of `mremapFunc` for a region that grows and is moved. -/
def mremapMove (s : ProcMem) (a : MremapArgs) (newLength : Addr) : Except SeFailure (SyscallReturn × ProcMem) := do
  let newStart := a.provided.getD s.1.mmapEnd
  let pTable ← liftTable (s.1.pTable.remap a.start a.oldLength newStart)
  let (p, mem) ← allocateMem ({ s.1 with pTable := pTable }, s.2) (newStart + a.oldLength) (newLength - a.oldLength)
    a.provided.isSome
  let p := if a.provided.isNone then { p with mmapEnd := p.mmapEnd + newLength } else p
  .ok (.value newStart, p, mem)

/-- The pages that are kept are moved if another address is given. -/
def shrinkMove (s : ProcMem) (a : MremapArgs) (newLength : Addr) : Except SeFailure FuncPageTable :=
  match a.provided with
  | some w => if w ≠ a.start then liftTable (s.1.pTable.remap a.start newLength w) else .ok s.1.pTable
  | none => .ok s.1.pTable

/-- The branch for a region that does not grow. -/
def mremapShrink (s : ProcMem) (a : MremapArgs) (newLength : Addr) : Except SeFailure (SyscallReturn × ProcMem) := do
  let pTable ← shrinkMove s a newLength
  let pTable ← liftTable (pTable.unmap (a.start + newLength) (a.oldLength - newLength))
  .ok (.value (a.provided.getD a.start), { s.1 with pTable := pTable }, s.2)

/-- `mremapFunc`. -/
def mremapFunc (s : ProcMem) (a : MremapArgs) : Except SeFailure (SyscallReturn × ProcMem) :=
  if pageOffset a.start ≠ 0 ∨ pageOffset (a.provided.getD 0) ≠ 0 then .ok (.einval, s)
  else
    let newLength := roundUp a.newLength
    if a.oldLength < newLength then
      if a.start + a.oldLength = s.1.mmapEnd ∧ (a.provided.isNone ∨ a.provided = some a.start) then do
        let diff := newLength - a.oldLength
        let (p, mem) ← allocateMem s s.1.mmapEnd diff false
        .ok (.value a.start, { p with mmapEnd := p.mmapEnd + diff }, mem)
      else if a.provided.isNone ∧ a.mayMove = false then .ok (.enomem, s)
      else mremapMove s a newLength
    else mremapShrink s a newLength

/-- `AllocType` of a port proxy. -/
inductive AllocType where
  | always
  | nextPage
  | never
  deriving DecidableEq, Repr

/-- `SETranslatingPortProxy::tryWriteBlob` for a chunk. -/
def proxyWrite (s : ProcMem) (allocating : AllocType) (addr : Addr) : Except SeFailure (Bool × ProcMem) :=
  match lookup s addr with
  | (some _, s) => .ok (true, s)
  | (none, s) =>
    match allocating with
    | .always => do
      let s ← allocateMem s (pageAlign addr) pageSize false
      .ok (true, (lookup s addr).2)
    | .nextPage => do
      let (fixed, s) ← fixupStackFault s addr
      ensure (fixed = true) .proxyFault
      .ok (true, (lookup s addr).2)
    | .never => .ok (false, s)

/-- `SETranslatingPortProxy::tryReadBlob` for a chunk. -/
def proxyRead (s : ProcMem) (addr : Addr) : Bool × ProcMem :=
  let (entry, s) := lookup s addr
  (entry.isSome, s)

end Process

/-! ### Translation -/

inductive TlbMode where
  | read
  | write
  | execute
  deriving DecidableEq, Repr

inductive TlbFault where
  | generalProtection
  | pageFault (vaddr : Addr) (mode : TlbMode) (user : Bool)
  deriving DecidableEq, Repr

/-- The part of a request that `TLB::translate` reads. -/
structure TlbRequest where
  vaddr : Addr
  size : Addr
  flags : BitVec 32
  deriving DecidableEq, Repr

/-- The address that was translated, with the segment applied, and what the request has got. -/
structure TlbResult where
  vaddr : Addr
  paddr : Addr
  flags : BitVec 32
  deriving DecidableEq, Repr

/-- The attributes of a segment. -/
structure Segment where
  selector : Bool
  writable : Bool
  readable : Bool
  expandDown : Bool
  base : Addr
  limit : Addr
  deriving DecidableEq, Repr

/-- The registers that `TLB::translate` reads: the fields of `MISCREG_M5_REG`, `CR0.WP` and the segments. -/
structure MiscRegs where
  prot : Bool
  longMode : Bool
  sixtyFourBitMode : Bool
  paging : Bool
  cpl : Nat
  defAddr : Nat
  altAddr : Nat
  wp : Bool
  segment : Nat → Segment

namespace SegmentReg

def hs : Nat := 6
def tsg : Nat := 8
def ls : Nat := 9
def ms : Nat := 10
def idtr : Nat := 12

end SegmentReg

namespace TlbRequest

def seg (req : TlbRequest) : Nat := (req.flags &&& 0xF).toNat
def cpl0 (req : TlbRequest) : Bool := req.flags &&& 0x10 != 0
def addrSize (req : TlbRequest) : Bool := req.flags &&& 0x20 != 0
def storeCheck (req : TlbRequest) : Bool := req.flags &&& 0x40 != 0

end TlbRequest

/-- The protection and limit checks outside of long mode: the request does not pass. -/
def segmentFault (regs : MiscRegs) (req : TlbRequest) (mode : TlbMode) : Bool :=
  let segment := regs.segment req.seg
  let data := req.seg ≤ SegmentReg.hs
  let free := req.seg == SegmentReg.tsg || req.seg == SegmentReg.idtr || req.seg == SegmentReg.hs ||
    req.seg == SegmentReg.ls
  let logSize := if req.addrSize then regs.altAddr else regs.defAddr
  let offset := (req.vaddr - segment.base) &&& BitVec.ofNat 64 (2 ^ (2 ^ logSize * 8) - 1)
  let endOffset := offset + req.size - 1
  let outside :=
    if data && segment.expandDown then offset ≤ segment.limit || endOffset ≤ segment.limit
    else segment.limit < offset || segment.limit < endOffset
  !free && !segment.selector ||
    data && !segment.writable && (mode == .write || req.storeCheck) ||
    data && !segment.readable && mode == .read || outside

/-- The checks of the entry: the fault that they raise. -/
def pageProtection (regs : MiscRegs) (req : TlbRequest) (mode : TlbMode) (vaddr : Addr) (e : TlbEntry) :
    Option TlbFault :=
  let inUser := regs.cpl == 3 && !req.cpl0
  let badWrite := !e.writable && (inUser || regs.wp)
  if inUser && !e.user || mode == .write && badWrite then some (.pageFault vaddr mode inUser)
  else if req.storeCheck && badWrite then some (.pageFault vaddr .write inUser)
  else none

def uncacheableFlags : BitVec 32 := 0xC00
def genericIprFlags : BitVec 32 := 0x8002000

/-- `TLB::finalizePhysical`, outside of full-system mode. -/
def finalizePhysical (r : TlbResult) : TlbResult :=
  if m5opRange r.paddr then
    { r with
      paddr := ((r.paddr >>> 8) &&& 0xFF) <<< 8 ||| r.paddr &&& 0xFF
      flags := r.flags ||| genericIprFlags }
  else r

/-- The address and the flags that a page gives. -/
def pageTranslation (req : TlbRequest) (vaddr : Addr) (e : TlbEntry) : TlbResult where
  vaddr := vaddr
  paddr := e.paddr ||| (vaddr &&& BitVec.ofNat 64 (2 ^ e.logBytes - 1))
  flags := if e.uncacheable then req.flags ||| uncacheableFlags else req.flags

/-- `TLB::translate` after a miss: the entry of the page table, for which the stack may have to grow. -/
def missEntry (mode : TlbMode) (s : ProcMem) (vaddr : Addr) : Except SeFailure (Option TlbEntry × ProcMem) :=
  match Process.lookup s vaddr with
  | (some e, s) => .ok (some e, s)
  | (none, s) =>
    if mode = .execute then .ok (none, s)
    else do
      let (fixed, s) ← Process.fixupStackFault s vaddr
      .ok (if fixed then Process.lookup s vaddr else (none, s))

/-- A TLB with its process and the physical memory. -/
abbrev TlbState (n : Nat) := TLB n × ProcMem

/-- The entry for an address: that of the TLB, or one that is put into it. -/
def tlbEntry {n : Nat} (mode : TlbMode) (s : TlbState n) (vaddr : Addr) :
    Except SeFailure (Option TlbEntry × TlbState n) :=
  match s.1.lookup vaddr true with
  | (some e, t) => .ok (some e, t, s.2)
  | (none, t) => do
    let (entry, pm) ← missEntry mode s.2 vaddr
    match entry with
    | none => .ok (none, t, pm)
    | some e => do
      let (e, t) ← liftTlb (t.insert (pageAlign vaddr) e)
      .ok (some e, t, pm)

/-- The paging branch of `TLB::translate`. -/
def translatePage {n : Nat} (regs : MiscRegs) (req : TlbRequest) (mode : TlbMode) (s : TlbState n) (vaddr : Addr) :
    Except SeFailure (Except TlbFault TlbResult × TlbState n) := do
  let (entry, s) ← tlbEntry mode s vaddr
  match entry with
  | none => .ok (.error (.pageFault vaddr mode true), s)
  | some e =>
    match pageProtection regs req mode vaddr e with
    | some fault => .ok (.error fault, s)
    | none => .ok (.ok (finalizePhysical (pageTranslation req vaddr e)), s)

/-- `TLB::translate`. -/
def tlbTranslate {n : Nat} (regs : MiscRegs) (req : TlbRequest) (mode : TlbMode) (s : TlbState n) :
    Except SeFailure (Except TlbFault TlbResult × TlbState n) := do
  ensure (req.seg ≠ SegmentReg.ms) .internalSegment
  if regs.prot = true then
    if regs.longMode = false ∧ segmentFault regs req mode = true then .ok (.error .generalProtection, s)
    else
      let vaddr := if !regs.sixtyFourBitMode || req.addrSize then req.vaddr &&& 0xFFFFFFFF else req.vaddr
      if regs.paging = true then translatePage regs req mode s vaddr
      else .ok (.ok (finalizePhysical ⟨vaddr, vaddr, req.flags⟩), s)
  else .ok (.ok (finalizePhysical ⟨req.vaddr, req.vaddr, req.flags⟩), s)

/-! ### The system -/

/-- The processes `ι`, the TLBs `κ` and the physical memory that the processes share. -/
structure SeSystem (ι κ : Type) (n : Nat) where
  processes : ι → Process
  tlbs : κ → TLB n
  mem : PhysMem

/-- What happens to the memory of the processes. -/
inductive SeOp (ι κ : Type) where
  | translate (k : κ) (regs : MiscRegs) (req : TlbRequest) (mode : TlbMode)
  /-- `allocateMem` while a process is loaded -/
  | allocate (i : ι) (vaddr : Addr) (size : BitVec 64)
  | brk (i : ι) (newBrk : Addr)
  | mmap (i : ι) (args : Process.MmapArgs)
  | mremap (i : ι) (args : Process.MremapArgs)
  /-- `munmapFunc` does nothing -/
  | munmap (i : ι)
  | proxyWrite (i : ι) (allocating : Process.AllocType) (addr : Addr)
  | proxyRead (i : ι) (addr : Addr)

/-- What a process or a CPU gets back. -/
inductive SeAnswer where
  | translated (r : Except TlbFault TlbResult)
  | syscall (r : Process.SyscallReturn)
  | bool (b : Bool)
  | done

namespace SeSystem

variable {ι κ : Type} [DecidableEq ι] [DecidableEq κ] {n : Nat}

def setProcess (s : SeSystem ι κ n) (i : ι) (pm : ProcMem) : SeSystem ι κ n :=
  { s with processes := Function.update s.processes i pm.1, mem := pm.2 }

def procMem (s : SeSystem ι κ n) (i : ι) : ProcMem := (s.processes i, s.mem)

/-- An event. `owner` is the process that each TLB is used by. -/
def step (owner : κ → ι) (growsDown : Bool) (s : SeSystem ι κ n) :
    SeOp ι κ → Except SeFailure (SeAnswer × SeSystem ι κ n)
  | .translate k regs req mode => do
    let (r, t, pm) ← tlbTranslate regs req mode (s.tlbs k, s.procMem (owner k))
    .ok (.translated r, { s.setProcess (owner k) pm with tlbs := Function.update s.tlbs k t })
  | .allocate i vaddr size => do
    let pm ← Process.allocateMem (s.procMem i) vaddr size false
    .ok (.done, s.setProcess i pm)
  | .brk i newBrk => do
    let (r, pm) ← Process.brkFunc (s.procMem i) newBrk
    .ok (.syscall r, s.setProcess i pm)
  | .mmap i args => do
    let (r, pm) ← Process.mmapFunc growsDown (s.procMem i) args
    .ok (.syscall r, s.setProcess i pm)
  | .mremap i args => do
    let (r, pm) ← Process.mremapFunc (s.procMem i) args
    .ok (.syscall r, s.setProcess i pm)
  | .munmap _ => .ok (.syscall (.value 0), s)
  | .proxyWrite i allocating addr => do
    let (b, pm) ← Process.proxyWrite (s.procMem i) allocating addr
    .ok (.bool b, s.setProcess i pm)
  | .proxyRead i addr =>
    let (b, pm) := Process.proxyRead (s.procMem i) addr
    .ok (.bool b, s.setProcess i pm)

end SeSystem

end MimdramLean

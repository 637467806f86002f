import MimdramLean.Cache

/-!
# A set-associative tag store

`BaseSetAssoc` with the blocks, their data and the order of the ways, under either replacement
policy, and on it the path of `Cache::access` for uncacheable requests. `Cache` keeps only which
blocks are valid; here a lookup goes through the ways of a set. Usage statistics are left out.
-/

namespace MimdramLean

open Library

/-- The two tag stores derived from `BaseSetAssoc`. -/
inductive Replacement where
  | lru
  | randomRepl
  deriving DecidableEq, Repr

structure TagParams extends CacheParams where
  setShift : Nat
  /-- `floorLog2(numSets)` -/
  setBits : Nat
  assoc : Nat
  maxMasters : Nat
  replacement : Replacement
  blkSize_eq : blkSize = 2 ^ setShift

namespace TagParams

def numSets (p : TagParams) : Nat := 2 ^ p.setBits

def tagShift (p : TagParams) : Nat := p.setShift + p.setBits

def extractTag (p : TagParams) (addr : Nat) : Nat := addr >>> p.tagShift

/-- `setMask` is `numSets - 1`. -/
def extractSet (p : TagParams) (addr : Nat) : Fin p.numSets :=
  ⟨(addr >>> p.setShift) % p.numSets, Nat.mod_lt _ (Nat.two_pow_pos _)⟩

def regenerateBlkAddr (p : TagParams) (tag : Nat) (set : Fin p.numSets) : Nat :=
  (tag <<< p.tagShift) ||| (set.val <<< p.setShift)

end TagParams

/-! ### Blocks -/

/-- The bits of `CacheBlk::status`. -/
structure BlkStatus where
  valid : Bool := false
  writable : Bool := false
  readable : Bool := false
  dirty : Bool := false
  hwPrefetched : Bool := false
  secure : Bool := false
  deriving DecidableEq, Repr

/-- `CacheBlk`. -/
structure TagBlk (blkSize : Nat) where
  taskId : Nat
  tag : Nat
  data : Vector UInt8 blkSize
  status : BlkStatus
  isTouched : Bool
  srcMasterId : Nat
  tickInserted : Nat
  /-- context and bounds of each load lock -/
  lockList : List (Nat × Nat × Nat)
  deriving DecidableEq

namespace TagBlk

variable {blkSize : Nat}

/-- `ContextSwitchTaskId::Unknown`. -/
def unknownTask : Nat := 1024

/-- `Request::invldMasterId`, the largest 16-bit number. -/
def invldMasterId : Nat := 2 ^ 16 - 1

def isValid (blk : TagBlk blkSize) : Bool := blk.status.valid
def isDirty (blk : TagBlk blkSize) : Bool := blk.status.dirty
def isSecure (blk : TagBlk blkSize) : Bool := blk.status.secure
def isWritable (blk : TagBlk blkSize) : Bool := blk.status.writable && blk.status.valid

/-- What `BaseSetAssoc::invalidate` and then `CacheBlk::invalidate` make of a block. -/
def invalidate (blk : TagBlk blkSize) (now : Nat) : TagBlk blkSize :=
  { blk with
    srcMasterId := invldMasterId
    taskId := unknownTask
    tickInserted := now
    status := {}
    isTouched := false
    lockList := [] }

end TagBlk

/-! ### Sets -/

namespace CacheSet

variable {α : Type} [DecidableEq α]

/-- The loop of `moveToTail`, from the tail on: every block moves up by one until the place of
`blk` is overwritten. -/
def shiftIn (blk next : α) : List α → List α
  | [] => []
  | x :: xs => next :: if x = blk then xs else shiftIn blk x xs

def moveToTail (blks : List α) (blk : α) : List α := (shiftIn blk blk blks.reverse).reverse

lemma mem_shiftIn_next {blk next : α} {l : List α} (hblk : blk ∈ l) : next ∈ shiftIn blk next l := by
  cases l with
  | nil => cases hblk
  | cons x xs => simp [shiftIn]

lemma mem_shiftIn {blk x : α} {l : List α} (hblk : blk ∈ l) (hx : x ∈ l) (hne : x ≠ blk) (next : α) :
    x ∈ shiftIn blk next l := by
  induction l generalizing next with
  | nil => cases hx
  | cons y ys ih =>
    simp only [shiftIn]
    apply List.mem_cons_of_mem
    split
    · rename_i hy
      exact (List.mem_cons.mp hx).resolve_left (fun h => hne (h.trans hy))
    · rename_i hy
      have hrest : blk ∈ ys := (List.mem_cons.mp hblk).resolve_left (fun h => hy h.symm)
      rcases List.mem_cons.mp hx with rfl | hx
      · exact mem_shiftIn_next hrest
      · exact ih hrest hx y

/-- No block is lost. -/
lemma mem_moveToTail {blks : List α} {blk x : α} (hblk : blk ∈ blks) (hx : x ∈ blks) :
    x ∈ moveToTail blks blk := by
  simp only [moveToTail, List.mem_reverse]
  by_cases hne : x = blk
  · rw [hne]
    exact mem_shiftIn_next (List.mem_reverse.mpr hblk)
  · exact mem_shiftIn (List.mem_reverse.mpr hblk) (List.mem_reverse.mpr hx) hne blk

end CacheSet

/-! ### The tag store -/

/-- The blocks, and for each set its ways with the most recently used one first. No two valid
blocks are for the same address and security, and a valid block has a master. -/
structure TagStore (p : TagParams) where
  blks : Fin p.numSets → Fin p.assoc → TagBlk p.blkSize
  order : Fin p.numSets → List (Fin p.assoc)
  complete : ∀ set way, way ∈ order set
  unique : ∀ set way way', (blks set way).isValid = true → (blks set way').isValid = true →
    (blks set way).tag = (blks set way').tag → (blks set way).isSecure = (blks set way').isSecure → way = way'
  masters : ∀ set way, (blks set way).isValid = true → (blks set way).srcMasterId < p.maxMasters

/-- The failed assertions on the path. -/
inductive TagFailure where
  | writeInReadOnlyCache
  | writebackFromReadOnlyCache
  | notValidAndDirty
  | notValidAndClean
  | notValid
  | noMaster
  deriving DecidableEq, Repr

/-- What `writebackBlk` and `cleanEvictBlk` send. The buffer of a CleanEvict is not filled. -/
structure Eviction (blkSize : Nat) where
  pkt : CachePacket
  taskId : Nat
  data : Option (Vector UInt8 blkSize)
  deriving DecidableEq

namespace TagStore

variable {p : TagParams}

/-- `CacheSet::findBlk`. -/
def findBlk (t : TagStore p) (set : Fin p.numSets) (tag : Nat) (secure : Bool) : Option (Fin p.assoc) :=
  (t.order set).find? fun way =>
    (t.blks set way).tag == tag && (t.blks set way).isValid && (t.blks set way).isSecure == secure

/-- `BaseSetAssoc::findBlock`. -/
def findBlock (t : TagStore p) (addr : Nat) (secure : Bool) : Option (Fin p.numSets × Fin p.assoc) :=
  (t.findBlk (p.extractSet addr) (p.extractTag addr) secure).map fun way => (p.extractSet addr, way)

def blkAddr (t : TagStore p) (set : Fin p.numSets) (way : Fin p.assoc) : Nat :=
  p.regenerateBlkAddr (t.blks set way).tag set

/-- `Cache::writebackBlk`: the packet, and what becomes of the block. -/
def writebackBlk (p : TagParams) (now : Nat) (set : Fin p.numSets) (blk : TagBlk p.blkSize) :
    Except TagFailure (Eviction p.blkSize × TagBlk p.blkSize) := do
  ensure (p.isReadOnly = false) .writebackFromReadOnlyCache
  ensure (blk.isValid = true ∧ blk.isDirty = true) .notValidAndDirty
  .ok (⟨.ofBlock .writeback (p.regenerateBlkAddr blk.tag set) p.blkSize blk.isSecure (!blk.isWritable),
      blk.taskId, some blk.data⟩,
    { blk with
      taskId := TagBlk.unknownTask
      tickInserted := now
      status := { blk.status with writable := blk.status.writable && !blk.isWritable, dirty := false } })

/-- `Cache::cleanEvictBlk`. -/
def cleanEvictBlk (p : TagParams) (now : Nat) (set : Fin p.numSets) (blk : TagBlk p.blkSize) :
    Except TagFailure (Eviction p.blkSize × TagBlk p.blkSize) := do
  ensure (blk.isValid = true ∧ blk.isDirty = false) .notValidAndClean
  .ok (⟨.ofBlock .cleanEvict (p.regenerateBlkAddr blk.tag set) p.blkSize blk.isSecure false, blk.taskId, none⟩,
    { blk with taskId := TagBlk.unknownTask, tickInserted := now })

def evictBlk (p : TagParams) (now : Nat) (set : Fin p.numSets) (blk : TagBlk p.blkSize) :
    Except TagFailure (Eviction p.blkSize × TagBlk p.blkSize) :=
  if blk.isDirty then writebackBlk p now set blk else cleanEvictBlk p now set blk

/-- The store after `tags->invalidate(blk)` and `blk->invalidate()`, where `blk` is the block of
`way`. -/
def invalidated (t : TagStore p) (now : Nat) (set : Fin p.numSets) (way : Fin p.assoc) (blk : TagBlk p.blkSize) :
    TagStore p where
  blks := fun s w => if s = set ∧ w = way then blk.invalidate now else t.blks s w
  order := fun s =>
    if s = set ∧ p.replacement = .lru then CacheSet.moveToTail (t.order s) way else t.order s
  complete := by
    intro s w
    split
    · exact CacheSet.mem_moveToTail (t.complete s way) (t.complete s w)
    · exact t.complete s w
  unique := by
    intro s w w'
    split
    · simp [TagBlk.invalidate, TagBlk.isValid]
    · split
      · simp [TagBlk.invalidate, TagBlk.isValid]
      · exact t.unique s w w'
  masters := by
    intro s w
    split
    · simp [TagBlk.invalidate, TagBlk.isValid]
    · exact t.masters s w

def invalidate (t : TagStore p) (now : Nat) (set : Fin p.numSets) (way : Fin p.assoc) (blk : TagBlk p.blkSize) :
    Except TagFailure (TagStore p) := do
  ensure (blk.isValid = true) .notValid
  ensure (blk.srcMasterId < p.maxMasters) .noMaster
  .ok (t.invalidated now set way blk)

/-- `Cache::writebackAddr`. -/
def writebackAddr (now : Nat) (secure : Bool) (s : TagStore p × List (Eviction p.blkSize)) (addr : Nat) :
    Except TagFailure (TagStore p × List (Eviction p.blkSize)) :=
  match s.1.findBlock addr secure with
  | none => .ok s
  | some (set, way) =>
    let oldBlk := s.1.blks set way
    if oldBlk.isValid then do
      let (writeback, blk) ← evictBlk p now set oldBlk
      let t ← s.1.invalidate now set way blk
      .ok (t, s.2 ++ [writeback])
    else .ok s

/-- `Cache::access` of an uncacheable request: the flag that it returns, the blocks and the list
of writebacks. -/
def accessUncacheable (t : TagStore p) (now : Nat) (pkt : CachePacket) (writebacks : List (Eviction p.blkSize)) :
    Except TagFailure (Bool × TagStore p × List (Eviction p.blkSize)) := do
  ensure (¬(p.isReadOnly = true ∧ pkt.isWrite = true)) .writeInReadOnlyCache
  let s ← (Cache.flushAddrs p.toCacheParams pkt).foldlM (writebackAddr now pkt.secure) (t, writebacks)
  .ok (false, s)

end TagStore

end MimdramLean

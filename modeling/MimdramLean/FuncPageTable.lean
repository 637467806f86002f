import MimdramLean.PageTable
import MimdramLean.TLB

/-!
# The page table of a process

`FuncPageTable`: a table of pages with a cache of three entries in front of it. The page size is
`PageBytes`. An element of the cache that is not valid is `none`.
-/

namespace MimdramLean

open Library

abbrev Addr := BitVec 64

def offsetMask : Addr := 0xFFF

/-- `PageTableBase::pageAlign`. -/
def pageAlign (a : Addr) : Addr := a &&& ~~~offsetMask

/-- `PageTableBase::pageOffset`. -/
def pageOffset (a : Addr) : Addr := a &&& offsetMask

def pageSize : Addr := BitVec.ofNat 64 pageBytes

/-- How often a loop `for (; size > 0; size -= pageSize)` runs; the size is an `int64_t`. -/
def pageCount (size : BitVec 64) : Nat := ((size.toInt + (pageBytes - 1)) / pageBytes).toNat

/-- The flags of `map` that are read. -/
structure MappingFlags where
  clobber : Bool
  uncacheable : Bool
  readOnly : Bool
  deriving DecidableEq, Repr

inductive PageTableFailure where
  /-- the address is not that of a page -/
  | notAligned
  | alreadyMapped (vaddr : Addr)
  | notMapped
  deriving DecidableEq, Repr

/-- The index of an element of `pTableCache`. -/
inductive CacheIndex where
  | i0 | i1 | i2
  deriving DecidableEq

/-- `pTableCache`. -/
abbrev PTableCache := CacheIndex → Option (Addr × TlbEntry)

namespace PTableCache

/-- The entry of an element, if it is for the page. -/
def entryFor (element : Option (Addr × TlbEntry)) (vaddr : Addr) : Option TlbEntry :=
  match element with
  | some (v, e) => if v = vaddr then some e else none
  | none => none

def find (c : PTableCache) (vaddr : Addr) : Option TlbEntry :=
  match entryFor (c .i0) vaddr with
  | some e => some e
  | none =>
    match entryFor (c .i1) vaddr with
    | some e => some e
    | none => entryFor (c .i2) vaddr

/-- `PageTableBase::updateCache`. -/
def updateCache (c : PTableCache) (vaddr : Addr) (entry : TlbEntry) : PTableCache
  | .i0 => some (vaddr, entry)
  | .i1 => c .i0
  | .i2 => c .i1

/-- `PageTableBase::eraseCacheEntry`: the first element for the page. -/
def eraseCacheEntry (c : PTableCache) (vaddr : Addr) : PTableCache :=
  if (entryFor (c .i0) vaddr).isSome then Function.update c .i0 none
  else if (entryFor (c .i1) vaddr).isSome then Function.update c .i1 none
  else if (entryFor (c .i2) vaddr).isSome then Function.update c .i2 none
  else c

end PTableCache

/-- `pTable`: the entry of each page that is mapped. -/
abbrev PTable := Addr → Option TlbEntry

structure FuncPageTable where
  pTable : PTable
  cache : PTableCache

namespace FuncPageTable

def new : FuncPageTable := ⟨fun _ => none, fun _ => none⟩

/-- `pTable[vaddr] = entry`. -/
def set (t : FuncPageTable) (vaddr : Addr) (entry : Option TlbEntry) : FuncPageTable :=
  { t with pTable := Function.update t.pTable vaddr entry }

def eraseCacheEntry (t : FuncPageTable) (vaddr : Addr) : FuncPageTable :=
  { t with cache := t.cache.eraseCacheEntry vaddr }

def updateCache (t : FuncPageTable) (vaddr : Addr) (entry : TlbEntry) : FuncPageTable :=
  { t with cache := t.cache.updateCache vaddr entry }

/-- The loop of `map`. -/
def mapPages (flags : MappingFlags) : Nat → Addr → Addr → FuncPageTable → Except PageTableFailure FuncPageTable
  | 0, _, _, t => .ok t
  | k + 1, vaddr, paddr, t => do
    ensure (flags.clobber = true ∨ t.pTable vaddr = none) (.alreadyMapped vaddr)
    let entry := TlbEntry.ofPage vaddr paddr flags.uncacheable flags.readOnly
    let t := ((t.set vaddr (some entry)).eraseCacheEntry vaddr).updateCache vaddr entry
    mapPages flags k (vaddr + pageSize) (paddr + pageSize) t

/-- `FuncPageTable::map`. -/
def map (t : FuncPageTable) (vaddr paddr : Addr) (size : BitVec 64) (flags : MappingFlags) :
    Except PageTableFailure FuncPageTable := do
  ensure (pageOffset vaddr = 0) .notAligned
  t.mapPages flags (pageCount size) vaddr paddr

/-- The loop of `remap`. -/
def remapPages : Nat → Addr → Addr → FuncPageTable → Except PageTableFailure FuncPageTable
  | 0, _, _, t => .ok t
  | k + 1, vaddr, newVaddr, t =>
    match t.pTable vaddr with
    | none => .error .notMapped
    | some entry =>
      let t := ((t.set newVaddr (some entry)).set vaddr none).eraseCacheEntry vaddr
      -- a page that is moved onto itself is gone here, and `pTable[new_vaddr]` makes an empty entry
      let moved := { (t.pTable newVaddr).getD .empty with vaddr := newVaddr }
      remapPages k (vaddr + pageSize) (newVaddr + pageSize) ((t.set newVaddr (some moved)).updateCache newVaddr moved)

/-- `FuncPageTable::remap`. -/
def remap (t : FuncPageTable) (vaddr : Addr) (size : BitVec 64) (newVaddr : Addr) :
    Except PageTableFailure FuncPageTable := do
  ensure (pageOffset vaddr = 0) .notAligned
  ensure (pageOffset newVaddr = 0) .notAligned
  t.remapPages (pageCount size) vaddr newVaddr

/-- The loop of `unmap`. -/
def unmapPages : Nat → Addr → FuncPageTable → Except PageTableFailure FuncPageTable
  | 0, _, t => .ok t
  | k + 1, vaddr, t => do
    ensure (t.pTable vaddr ≠ none) .notMapped
    unmapPages k (vaddr + pageSize) ((t.set vaddr none).eraseCacheEntry vaddr)

/-- `FuncPageTable::unmap`. -/
def unmap (t : FuncPageTable) (vaddr : Addr) (size : BitVec 64) : Except PageTableFailure FuncPageTable := do
  ensure (pageOffset vaddr = 0) .notAligned
  t.unmapPages (pageCount size) vaddr

/-- The loop of `isUnmapped`. -/
def pagesUnmapped (t : FuncPageTable) : Nat → Addr → Bool
  | 0, _ => true
  | k + 1, vaddr => if t.pTable vaddr ≠ none then false else t.pagesUnmapped k (vaddr + pageSize)

/-- `FuncPageTable::isUnmapped`. -/
def isUnmapped (t : FuncPageTable) (vaddr : Addr) (size : BitVec 64) : Except PageTableFailure Bool := do
  ensure (pageOffset vaddr = 0) .notAligned
  .ok (t.pagesUnmapped (pageCount size) vaddr)

/-- `FuncPageTable::lookup`. -/
def lookup (t : FuncPageTable) (vaddr : Addr) : Option TlbEntry × FuncPageTable :=
  let page := pageAlign vaddr
  match t.cache.find page with
  | some entry => (some entry, t)
  | none =>
    match t.pTable page with
    | none => (none, t)
    | some entry => (some entry, t.updateCache page entry)

/-- `PageTableBase::translate` of an address. -/
def translate (t : FuncPageTable) (vaddr : Addr) : Option Addr × FuncPageTable :=
  let (entry, t) := t.lookup vaddr
  (entry.map fun e => pageOffset vaddr + e.paddr, t)

/-- The calls that a page table gets. -/
inductive Op where
  | map (vaddr paddr : Addr) (size : BitVec 64) (flags : MappingFlags)
  | remap (vaddr : Addr) (size : BitVec 64) (newVaddr : Addr)
  | unmap (vaddr : Addr) (size : BitVec 64)
  | isUnmapped (vaddr : Addr) (size : BitVec 64)
  | lookup (vaddr : Addr)
  | translate (vaddr : Addr)

/-- What a call returns. -/
inductive Answer where
  | done
  | bool (b : Bool)
  | entry (e : Option TlbEntry)
  | addr (paddr : Option Addr)

/-- A call, with what it returns. -/
def step (t : FuncPageTable) : Op → Except PageTableFailure (Answer × FuncPageTable)
  | .map vaddr paddr size flags => do
    let t ← t.map vaddr paddr size flags
    .ok (.done, t)
  | .remap vaddr size newVaddr => do
    let t ← t.remap vaddr size newVaddr
    .ok (.done, t)
  | .unmap vaddr size => do
    let t ← t.unmap vaddr size
    .ok (.done, t)
  | .isUnmapped vaddr size => do
    let b ← t.isUnmapped vaddr size
    .ok (.bool b, t)
  | .lookup vaddr => .ok (.entry (t.lookup vaddr).1, (t.lookup vaddr).2)
  | .translate vaddr => .ok (.addr (t.translate vaddr).1, (t.translate vaddr).2)

end FuncPageTable

end MimdramLean

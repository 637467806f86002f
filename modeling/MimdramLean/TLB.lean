import MimdramLean.Trie

/-!
# The x86 translation lookaside buffer

`X86ISA::TLB`: an array of entries, the list of those that are free, the trie that finds an entry by
a virtual address, and sequence numbers from which the least recently used entry is told.
-/

namespace MimdramLean

open Library

/-- `TlbEntry`. The address space number is not used. -/
structure TlbEntry where
  paddr : BitVec 64
  vaddr : BitVec 64
  logBytes : Nat
  writable : Bool
  user : Bool
  uncacheable : Bool
  global : Bool
  patBit : Bool
  noExec : Bool
  lruSeq : Nat
  trieHandle : Option (TrieHandle 64)
  deriving DecidableEq

namespace TlbEntry

/-- `PageShift`. -/
def pageShift : Nat := 12

/-- The constructor without arguments. -/
def empty : TlbEntry := ⟨0, 0, 0, false, true, false, false, false, false, 0, none⟩

/-- The constructor for a page. -/
def ofPage (vaddr paddr : BitVec 64) (uncacheable readOnly : Bool) : TlbEntry :=
  ⟨paddr, vaddr, pageShift, !readOnly, true, uncacheable, false, false, false, 0, none⟩

/-- What `insert` makes of the entry for a page. -/
def inserted (entry : TlbEntry) (vpn : BitVec 64) (seq : Nat) (h : TrieHandle 64) : TlbEntry :=
  { entry with lruSeq := seq, vaddr := vpn, trieHandle := some h }

end TlbEntry

inductive TlbFailure where
  | wrongPage
  | noHandle
  /-- `freeList.front()` of an empty list -/
  | noFreeEntry
  | trie (e : TrieFailure)
  deriving DecidableEq, Repr

/-- The constructor refuses a size of zero; here the size is `n + 1`. -/
structure TLB (n : Nat) where
  tlb : Fin (n + 1) → TlbEntry
  freeList : List (Fin (n + 1))
  trie : TrieNode 64 (Fin (n + 1))
  lruSeq : Nat

namespace TLB

variable {n : Nat}

/-- The constructor. -/
def new (n : Nat) : TLB n := ⟨fun _ => .empty, List.finRange (n + 1), .head, 0⟩

def setEntry (t : TLB n) (i : Fin (n + 1)) (e : TlbEntry) : TLB n :=
  { t with tlb := fun j => if j = i then e else t.tlb j }

/-- `trie.remove(tlb[i].trieHandle)`, and the entry is free. -/
def release (t : TLB n) (i : Fin (n + 1)) : Except TlbFailure (TLB n) :=
  match (t.tlb i).trieHandle with
  | none => .error .noHandle
  | some h =>
    match t.trie.remove h with
    | .error e => .error (.trie e)
    | .ok trie =>
      .ok { t.setEntry i { t.tlb i with trieHandle := none } with trie := trie, freeList := t.freeList ++ [i] }

/-- `TLB::nextSeq`: the counter is a `uint64_t`. -/
def nextSeq (t : TLB n) : Nat := (t.lruSeq + 1) % 2 ^ 64

/-- The entry with the lowest sequence number. -/
def lru (t : TLB n) : Fin (n + 1) :=
  (List.finRange (n + 1)).tail.foldl (fun lru i => if (t.tlb i).lruSeq < (t.tlb lru).lruSeq then i else lru) 0

/-- `TLB::evictLRU`. -/
def evictLRU (t : TLB n) : Except TlbFailure (TLB n) := t.release t.lru

/-- `if (freeList.empty()) evictLRU()`. -/
def makeRoom (t : TLB n) : Except TlbFailure (TLB n) := if t.freeList.isEmpty then t.evictLRU else .ok t

/-- `TLB::insert`: the entry that is used, and the state. -/
def insert (t : TLB n) (vpn : BitVec 64) (entry : TlbEntry) : Except TlbFailure (TlbEntry × TLB n) :=
  match t.trie.lookup vpn with
  | some i => do
    -- somebody was faster
    ensure ((t.tlb i).vaddr = vpn) .wrongPage
    .ok (t.tlb i, t)
  | none => do
    let t ← t.makeRoom
    match t.freeList with
    | [] => .error .noFreeEntry
    | i :: rest =>
      match t.trie.insert vpn (64 - entry.logBytes) i with
      | .error e => .error (.trie e)
      | .ok (trie, h) =>
        let e := entry.inserted vpn t.nextSeq h
        .ok (e, { t.setEntry i e with freeList := rest, trie := trie, lruSeq := t.nextSeq })

/-- `TLB::lookup`. -/
def lookup (t : TLB n) (va : BitVec 64) (updateLru : Bool) : Option TlbEntry × TLB n :=
  match t.trie.lookup va with
  | none => (none, t)
  | some i =>
    if updateLru then
      let e := { t.tlb i with lruSeq := t.nextSeq }
      (some e, { t.setEntry i e with lruSeq := t.nextSeq })
    else (some (t.tlb i), t)

/-- The loop of `flushAll` and `flushNonGlobal`: every entry in use that passes the test is released. -/
def flushWhere (p : TlbEntry → Bool) (t : TLB n) : Except TlbFailure (TLB n) :=
  (List.finRange (n + 1)).foldlM (fun t i =>
    if (t.tlb i).trieHandle.isSome && p (t.tlb i) then t.release i else .ok t) t

def flushAll (t : TLB n) : Except TlbFailure (TLB n) := t.flushWhere fun _ => true

def flushNonGlobal (t : TLB n) : Except TlbFailure (TLB n) := t.flushWhere fun e => !e.global

/-- `TLB::demapPage`. -/
def demapPage (t : TLB n) (va : BitVec 64) : Except TlbFailure (TLB n) :=
  match t.trie.lookup va with
  | none => .ok t
  | some i => t.release i

/-- The calls that a TLB gets. -/
inductive Op where
  | insert (vpn : BitVec 64) (entry : TlbEntry)
  | lookup (va : BitVec 64) (updateLru : Bool)
  | flushAll
  | flushNonGlobal
  | demapPage (va : BitVec 64)

/-- A call, with the entry that it returns. -/
def step (t : TLB n) : Op → Except TlbFailure (Option TlbEntry × TLB n)
  | .insert vpn entry => do
    let (e, t) ← t.insert vpn entry
    .ok (some e, t)
  | .lookup va updateLru => .ok (t.lookup va updateLru)
  | .flushAll => do
    let t ← t.flushAll
    .ok (none, t)
  | .flushNonGlobal => do
    let t ← t.flushNonGlobal
    .ok (none, t)
  | .demapPage va => do
    let t ← t.demapPage va
    .ok (none, t)

end TLB

end MimdramLean

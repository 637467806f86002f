import MimdramLean.Library.Machine
import Mathlib.Data.BitVec

/-!
# Tries

`Trie` of `base/trie.hh`: a map whose keys are words of which only the leading bits matter. A node
stands for the words that match its key under its mask. The parent pointers are the way down from
the root, and a handle, which is a pointer to a node, is written as the key and mask of the node.
-/

namespace MimdramLean

open Library

/-- `Trie::Node`, with `null` where there is none. -/
inductive TrieNode (w : Nat) (α : Type) where
  | null
  | node (key mask : BitVec w) (value : Option α) (kid0 kid1 : TrieNode w α)
  deriving DecidableEq

/-- `Trie::Handle`. -/
structure TrieHandle (w : Nat) where
  key : BitVec w
  mask : BitVec w
  deriving DecidableEq

inductive TrieFailure where
  | valuePresent
  | endOfInsert
  | noValue
  | removeRoot
  /-- not a failure of the code: the handle points to no node -/
  | noSuchNode
  deriving DecidableEq, Repr

namespace TrieNode

variable {w : Nat} {α : Type}

/-- The node that `Trie` has from the start. -/
def head : TrieNode w α := node 0 0 none null null

def isNull : TrieNode w α → Bool
  | null => true
  | node .. => false

/-- `kid && kid->matches(test)`. -/
def matchesKey : TrieNode w α → BitVec w → Bool
  | null, _ => false
  | node key mask _ _ _, test => test &&& mask == key

/-- The condition of `goesAfter`. -/
def goesAfter (kid : TrieNode w α) (key newMask : BitVec w) : Bool :=
  match kid with
  | null => false
  | node _ mask _ _ _ => kid.matchesKey key && mask &&& newMask == mask

def extendMask (orig : BitVec w) : BitVec w := orig ||| orig >>> 1 ||| BitVec.twoPow w (w - 1)

/-- The loop of `insert` that goes down a leg until something does not match or the bits run out, with the
number of passes that it may still take. -/
def walkMask (key kidKey newMask : BitVec w) : Nat → BitVec w → BitVec w
  | 0, curMask => curMask
  | fuel + 1, curMask =>
    let next := extendMask curMask
    if key &&& next != kidKey &&& next || curMask == newMask then curMask
    else walkMask key kidKey newMask fuel next

/-- The key of a kid. -/
def key : TrieNode w α → BitVec w
  | null => 0
  | node key _ _ _ _ => key

/-- The new node between a node and its kid: the value goes there, or to another new node below it. -/
def between (key curMask newMask : BitVec w) (val : α) (kid : TrieNode w α) : TrieNode w α :=
  if curMask = newMask then node (key &&& curMask) curMask (some val) kid null
  else node (key &&& curMask) curMask none kid (node (key &&& newMask) newMask (some val) null null)

/-- `Trie::insert` below a node, where `key` has been tidied up. -/
def insertAt (key newMask : BitVec w) (val : α) : TrieNode w α → Except TrieFailure (TrieNode w α)
  | null => .error .noSuchNode
  | node k m v l r =>
    if l.goesAfter key newMask then do
      let l ← l.insertAt key newMask val
      .ok (node k m v l r)
    else if r.goesAfter key newMask then do
      let r ← r.insertAt key newMask val
      .ok (node k m v l r)
    else if m = newMask then do
      ensure (v = none) .valuePresent
      .ok (node k m (some val) l r)
    else if l.isNull then .ok (node k m v (node (key &&& newMask) newMask (some val) null null) r)
    else
      let curMask := walkMask key l.key newMask (w + 1) m
      if curMask ≠ m then .ok (node k m v (between key curMask newMask val l) r)
      else if r.isNull then .ok (node k m v l (node (key &&& newMask) newMask (some val) null null))
      else
        let curMask := walkMask key r.key newMask (w + 1) m
        if curMask ≠ m then .ok (node k m v l (between key curMask newMask val r))
        else .error .endOfInsert

/-- The mask of `insert`. -/
def widthMask (width : Nat) : BitVec w :=
  if width < w then BitVec.allOnes w <<< (w - width) else BitVec.allOnes w

/-- `Trie::insert`. -/
def insert (t : TrieNode w α) (key : BitVec w) (width : Nat) (val : α) :
    Except TrieFailure (TrieNode w α × TrieHandle w) := do
  let newMask := widthMask width
  let key := key &&& newMask
  let t ← t.insertAt key newMask val
  .ok (t, ⟨key, newMask⟩)

/-- `Trie::lookupHandle`, with the value of the node. -/
def lookupHandle (key : BitVec w) : TrieNode w α → Option (TrieHandle w × α)
  | null => none
  | node k m v l r =>
    match v with
    | some x => some (⟨k, m⟩, x)
    | none =>
      if l.matchesKey key then l.lookupHandle key
      else if r.matchesKey key then r.lookupHandle key
      else none

/-- `Trie::lookup`. -/
def lookup (t : TrieNode w α) (key : BitVec w) : Option α := (t.lookupHandle key).map Prod.snd

/-- What `remove` does at the parent of a node that it takes out: the remaining kid comes first, and a node
with fewer than two kids and no value is taken out too, unless it is the root. -/
def relink (root : Bool) (k m : BitVec w) (v : Option α) (l r : TrieNode w α) : TrieNode w α × Bool :=
  let (l, r) := if !r.isNull && l.isNull then (r, null) else (l, r)
  if r.isNull && v.isNone && !root then (l, true) else (node k m v l r, false)

/-- `Trie::remove`: what stands in the place of a node, and whether the node itself was taken out. -/
def removeAt (root : Bool) (h : TrieHandle w) : TrieNode w α → Except TrieFailure (TrieNode w α × Bool)
  | null => .error .noSuchNode
  | node k m v l r =>
    if k = h.key ∧ m = h.mask then
      if !r.isNull then do
        ensure (v.isSome = true) .noValue
        .ok (node k m none l r, false)
      else if root then .error .removeRoot
      else .ok (l, true)
    else if l.goesAfter h.key h.mask then do
      let (l, gone) ← l.removeAt false h
      .ok (if gone then relink root k m v l r else (node k m v l r, false))
    else if r.goesAfter h.key h.mask then do
      let (r, gone) ← r.removeAt false h
      .ok (if gone then relink root k m v l r else (node k m v l r, false))
    else .error .noSuchNode

/-- `Trie::remove`. -/
def remove (t : TrieNode w α) (h : TrieHandle w) : Except TrieFailure (TrieNode w α) := do
  let (t, _) ← t.removeAt true h
  .ok t

/-- `Trie::remove` of a key. -/
def removeKey (t : TrieNode w α) (key : BitVec w) : Except TrieFailure (TrieNode w α) :=
  match t.lookupHandle key with
  | none => .ok t
  | some (h, _) => t.remove h

end TrieNode

/-- The calls that a trie gets. -/
inductive TrieOp (w : Nat) (α : Type) where
  | insert (key : BitVec w) (width : Nat) (val : α)
  | lookup (key : BitVec w)
  | remove (h : TrieHandle w)
  | removeKey (key : BitVec w)

/-- A call, with what a lookup returns. -/
def TrieNode.step {w : Nat} {α : Type} (t : TrieNode w α) : TrieOp w α → Except TrieFailure (Option α × TrieNode w α)
  | .insert key width val => do
    let (t, _) ← t.insert key width val
    .ok (none, t)
  | .lookup key => .ok (t.lookup key, t)
  | .remove h => do
    let t ← t.remove h
    .ok (none, t)
  | .removeKey key => do
    let t ← t.removeKey key
    .ok (none, t)

end MimdramLean

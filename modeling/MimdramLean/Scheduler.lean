import MimdramLean.Access
import MimdramLean.Library.Bits
import MimdramLean.Library.Queue
import Mathlib.Order.WithBot

/-!
# Choosing the next request

`DRAMCtrl::chooseNext`, `DRAMCtrl::reorderQueue` and `DRAMCtrl::minBankPrep`. An iterator into the
queue is an index; `queue.end()` is `none`.
-/

namespace MimdramLean

open Library

namespace Channel

variable {p : Params}

def available (c : Channel p) (d : DRAMPacket p) : Bool := (c.ranks d.rank).isAvailable

/-- `got_waiting[i * banksPerRank + j]`. -/
def gotWaiting (c : Channel p) (queue : List (DRAMPacket p)) (i : Fin p.ranksPerChannel)
    (j : Fin p.banksPerRank) : Bool :=
  queue.any fun d => c.available d &&
    d.bankId == (i.val * p.banksPerRank + j.val) % 2 ^ 16

/-- The variables of `minBankPrep`. The largest tick, at which `min_act_at` starts, is `⊤`. -/
structure BankPrep where
  bankMask : BitVec 64
  minActAt : WithTop Nat
  foundSeamlessBank : Bool
  hiddenBankPrep : Bool

/-- When bank `j` of rank `i` can be activated, ignoring rank-to-rank switching. -/
def actAt (c : Channel p) (now : Nat) (i : Fin p.ranksPerChannel) (j : Fin p.banksPerRank) : Nat :=
  let bank := (c.ranks i).banks j
  if bank.openRow = Row.noRow then max bank.actAllowedAt now
  else add64 (max bank.preAllowedAt now) p.tRP

/-- One iteration of the loop of `minBankPrep`. -/
def prepStep (c : Channel p) (now : Nat) (queue : List (DRAMPacket p)) (minColAt : Nat)
    (st : BankPrep) (ij : Fin p.ranksPerChannel × Fin p.banksPerRank) : BankPrep :=
  if c.gotWaiting queue ij.1 ij.2 then
    let actAt := c.actAt now ij.1 ij.2
    let colAt := max ((c.ranks ij.1).banks ij.2).colAllowedAt (add64 actAt p.tRCD)
    let newSeamlessBank := decide (colAt ≤ minColAt)
    if newSeamlessBank ∨ (!st.foundSeamlessBank ∧ (actAt : WithTop Nat) ≤ st.minActAt) then
      let mask := if !st.foundSeamlessBank ∧ (newSeamlessBank ∨ (actAt : WithTop Nat) < st.minActAt)
        then 0 else st.bankMask
      { bankMask := setBit mask ((ij.1.val * p.banksPerRank + ij.2.val) % 2 ^ 16)
        minActAt := actAt
        foundSeamlessBank := st.foundSeamlessBank || newSeamlessBank
        hiddenBankPrep := decide (actAt ≤ max (sub64 minColAt p.tRCD) now) }
    else st
  else st

/-- The banks of the channel in the order of the two nested loops. -/
def allBanks (p : Params) : List (Fin p.ranksPerChannel × Fin p.banksPerRank) :=
  (List.finRange p.ranksPerChannel).flatMap fun i => (List.finRange p.banksPerRank).map fun j => (i, j)

/-- `DRAMCtrl::minBankPrep`. -/
def minBankPrep (c : Channel p) (now : Nat) (queue : List (DRAMPacket p)) (minColAt : Nat) :
    BitVec 64 × Bool :=
  let st := (allBanks p).foldl (c.prepStep now queue minColAt) ⟨0, ⊤, false, false⟩
  (st.bankMask, st.hiddenBankPrep)

/-- The variables of `reorderQueue`. -/
structure Search where
  earliestBanks : BitVec 64
  hiddenBankPrep : Bool
  foundHiddenBank : Bool
  foundPreppedPkt : Bool
  foundEarliestPkt : Bool
  selectedPkt : Option Nat

/-- The search of `reorderQueue` from position `i` of `queue` on. -/
def reorderLoop (c : Channel p) (now : Nat) (queue : List (DRAMPacket p)) (minColAt : Nat) :
    List (DRAMPacket p) → Nat → Search → Option Nat
  | [], _, st => st.selectedPkt
  | d :: ds, i, st =>
    if c.available d then
      if (c.bank d).openRow = d.row.val then
        if (c.bank d).colAllowedAt ≤ minColAt then some i
        else if !st.foundHiddenBank ∧ !st.foundPreppedPkt then
          reorderLoop c now queue minColAt ds (i + 1)
            { st with selectedPkt := some i, foundPreppedPkt := true }
        else reorderLoop c now queue minColAt ds (i + 1) st
      else if !st.foundEarliestPkt then
        let prep := if st.earliestBanks = 0 then c.minBankPrep now queue minColAt
          else (st.earliestBanks, st.hiddenBankPrep)
        let st := { st with earliestBanks := prep.1, hiddenBankPrep := prep.2 }
        if bitAt st.earliestBanks d.bankId ≠ 0 then
          reorderLoop c now queue minColAt ds (i + 1)
            { st with
              foundEarliestPkt := true
              foundHiddenBank := st.hiddenBankPrep
              selectedPkt := if st.hiddenBankPrep ∨ !st.foundPreppedPkt then some i
                else st.selectedPkt }
        else reorderLoop c now queue minColAt ds (i + 1) st
      else reorderLoop c now queue minColAt ds (i + 1) st
    else reorderLoop c now queue minColAt ds (i + 1) st

/-- The time at which a column command is seamless. -/
def minColAt (c : Channel p) (now extraColDelay : Nat) : Nat :=
  max (add64 (sub64 c.busBusyUntil p.tCL) extraColDelay) now

/-- `DRAMCtrl::reorderQueue`: the position of the selected packet. -/
def reorderQueue (c : Channel p) (now : Nat) (queue : List (DRAMPacket p)) (extraColDelay : Nat) :
    Option Nat :=
  c.reorderLoop now queue (c.minColAt now extraColDelay) queue 0 ⟨0, false, false, false, false, none⟩

/-- The position of the packet that `chooseNext` moves to the head of a queue. -/
def chooseIndex (c : Channel p) (now : Nat) (queue : List (DRAMPacket p)) (extraColDelay : Nat) :
    Option Nat :=
  match queue with
  | [d] => if c.available d then some 0 else none
  | _ =>
    match p.memSchedPolicy with
    | .fcfs => queue.findIdx? c.available
    | .frfcfs => c.reorderQueue now queue extraColDelay

/-- `DRAMCtrl::chooseNext`: whether a packet to an available rank is found, and the queue with
that packet at its head. -/
def chooseNext (c : Channel p) (now : Nat) (queue : List (DRAMPacket p)) (extraColDelay : Nat) :
    Except Failure (Bool × List (DRAMPacket p)) := do
  ensure (queue ≠ []) .queueEmpty
  match c.chooseIndex now queue extraColDelay with
  | some i => .ok (true, moveToFront queue i)
  | none => .ok (false, queue)

end Channel

end MimdramLean

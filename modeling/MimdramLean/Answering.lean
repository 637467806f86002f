import MimdramLean.Controller
import Mathlib.Data.Multiset.Count
import Mathlib.Data.Finset.Card
import Mathlib.Data.Finset.Dedup

/-!
# Answers

What the controller owes to the outside: each packet it accepts is answered at once, or is split into
bursts and answered when the last of them is done. A split packet has a burst helper of its own; a
packet of a single burst has none. The packets are of an arbitrary type `Q`, and the order in which
the bursts are served is left open.
-/

namespace MimdramLean

structure Answering (Q : Type) where
  /-- the packet of each burst that is not done, and its burst helper -/
  bursts : Multiset (Q × Option Nat)
  helpers : List BurstHelper
  responded : List Q

namespace Answering

variable {Q : Type}

/-- One step, with the packets accepted in it. -/
inductive Step : Answering Q → List Q → Answering Q → Prop
  | idle (a : Answering Q) : Step a [] a
  | answer (a : Answering Q) (q : Q) : Step a [q] { a with responded := a.responded ++ [q] }
  | single (a : Answering Q) (q : Q) : Step a [q] { a with bursts := (q, none) ::ₘ a.bursts }
  | split (a : Answering Q) (q : Q) {count missed : Nat} (hpos : 0 < missed) (hle : missed ≤ count) :
    Step a [q] { a with
      bursts := Multiset.replicate missed (q, some a.helpers.length) + a.bursts
      helpers := a.helpers ++ [⟨count, count - missed⟩] }
  | done (a : Answering Q) {q : Q} {helper : Option Nat} {rest : Multiset (Q × Option Nat)}
    (hb : a.bursts = (q, helper) ::ₘ rest) :
    Step a [] {
      bursts := rest
      helpers := (DRAMCtrl.countBurst a.helpers helper).1
      responded := if (DRAMCtrl.countBurst a.helpers helper).2 then a.responded ++ [q] else a.responded }

variable [DecidableEq Q]

/-- The accepted packets `q` that are not answered: each burst without a helper is one, and so are
the bursts that share a helper. -/
def openReads (bursts : Multiset (Q × Option Nat)) (q : Q) : Nat :=
  bursts.count (q, none) + (bursts.toFinset.filter fun x => x.1 = q ∧ x.2 ≠ none).card

/-- After `accepted` has been accepted nothing is lost and nothing is answered twice. -/
structure Balanced (a : Answering Q) (accepted : List Q) : Prop where
  known : ∀ q h, (q, some h) ∈ a.bursts → h < a.helpers.length
  owner : ∀ q q' h, (q, some h) ∈ a.bursts → (q', some h) ∈ a.bursts → q = q'
  served : ∀ h b, a.helpers[h]? = some b →
    b.burstsServiced + a.bursts.countP (fun x => x.2 = some h) = b.burstCount
  answered : ∀ q, a.responded.count q + openReads a.bursts q = accepted.count q

end Answering

end MimdramLean

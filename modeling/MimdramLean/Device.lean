import MimdramLean.Params
import Mathlib.Logic.Function.Basic

/-!
# Banks and ranks

`DRAMCtrl::Bank`, `DRAMCtrl::Rank` and the bank commands `activateBank`, `prechargeBank`,
`apBank` and `aapBank`. All four work on one rank. Besides the source's fields a rank carries
`history`, the activates, precharges and column commands in the order they are issued; nothing
reads it.
-/

namespace MimdramLean

open Library

structure Bank where
  openRow : Nat := Row.noRow
  colAllowedAt : Nat := 0
  preAllowedAt : Nat := 0
  actAllowedAt : Nat := 0
  rowAccesses : Nat := 0
  deriving DecidableEq, Repr

inductive RefreshState where
  | refIdle
  | refDrain
  | refPre
  | refRun
  deriving DecidableEq, Repr

/-- The power states in use; the two power-down states are declared in the source and never
entered. -/
inductive PowerState where
  | pwrIdle
  | pwrRef
  | pwrAct
  deriving DecidableEq, Repr

/-- The commands handed to the DRAMPower library by `doCommand`. -/
inductive MemCommand where
  | act
  | pre
  | rd
  | wr
  | prea
  | ref
  deriving DecidableEq, Repr

/-- One modelled command: an activate (one for each `activateBank` or `aapBank`), a precharge,
or a column command together with the row it accesses. -/
inductive Command (p : Params) where
  | act (bank : Fin p.banksPerRank) (row : Nat) (tick : Nat)
  | pre (bank : Fin p.banksPerRank) (tick : Nat)
  | col (bank : Fin p.banksPerRank) (row : Nat) (tick : Nat)
  deriving DecidableEq

structure Rank (p : Params) where
  banks : Fin p.banksPerRank → Bank
  numBanksActive : Nat
  /-- newest first -/
  actTicks : List Nat
  refreshState : RefreshState
  refreshDueAt : Nat
  pwrState : PowerState
  pwrStateTrans : PowerState
  activateEvent : Option Nat
  prechargeEvent : Option Nat
  refreshEvent : Option Nat
  powerEvent : Option Nat
  /-- command, bank and time stamp, oldest first -/
  cmdList : List (MemCommand × Nat × Nat)
  /-- oldest first -/
  history : List (Command p)

namespace Rank

variable {p : Params}

/-- The rank the constructor builds. -/
def init (p : Params) : Rank p where
  banks := fun _ => {}
  numBanksActive := 0
  actTicks := List.replicate p.activationLimit 0
  refreshState := .refIdle
  refreshDueAt := 0
  pwrState := .pwrIdle
  pwrStateTrans := .pwrIdle
  activateEvent := none
  prechargeEvent := none
  refreshEvent := none
  powerEvent := none
  cmdList := []
  history := []

def isAvailable (rk : Rank p) : Bool := rk.refreshState == .refIdle

def setBank (rk : Rank p) (b : Fin p.banksPerRank) (bank : Bank) : Rank p :=
  { rk with banks := Function.update rk.banks b bank }

def record (rk : Rank p) (c : Command p) : Rank p :=
  { rk with history := rk.history ++ [c] }

/-- `divCeil(tick, tCK) - timeStampOffset`. -/
def timeStamp (p : Params) (timeStampOffset : Nat) (tick : Nat) : Nat :=
  sub64 (divCeil tick p.tCK) timeStampOffset

def doCommand (rk : Rank p) (off : Nat) (cmd : MemCommand) (b : Nat) (tick : Nat) : Rank p :=
  { rk with cmdList := rk.cmdList ++ [(cmd, b % 256, timeStamp p off tick)] }

/-- The assertions at the start of `activateBank` and of `aapBank`. -/
def canOpen (rk : Rank p) (b : Fin p.banksPerRank) : Except Failure Unit := do
  ensure ((rk.banks b).openRow = Row.noRow) .bankOpen
  ensure (rk.numBanksActive + 1 ≤ p.banksPerRank) .tooManyActive

/-- Open `row`, start counting accesses anew and count the bank as active. -/
def openBank (rk : Rank p) (b : Fin p.banksPerRank) (row : Nat) : Rank p :=
  { rk.setBank b { rk.banks b with openRow := row, rowAccesses := 0 } with
    numBanksActive := rk.numBanksActive + 1 }

/-- The delay between activates of banks `b` and `i`. -/
def rrdDelay (p : Params) (b i : Fin p.banksPerRank) : Nat :=
  if p.bankGroupArch && p.bankgr b == p.bankgr i then p.tRRDL else p.tRRD

/-- Enforce tRRD: no bank of the rank activates too soon after an activate of `b`. -/
def enforceRRD (rk : Rank p) (b : Fin p.banksPerRank) (actTick : Nat) : Rank p :=
  { rk with banks := fun i => { rk.banks i with
      actAllowedAt := max (add64 actTick (rrdDelay p b i)) (rk.banks i).actAllowedAt } }

/-- Hold back every bank of the rank until `limit`. -/
def holdActs (rk : Rank p) (limit : Nat) : Rank p :=
  { rk with banks := fun i => { rk.banks i with
      actAllowedAt := max limit (rk.banks i).actAllowedAt } }

def oldestAct (rk : Rank p) : Nat := rk.actTicks.getLastD 0

/-- Record an activate in the window of the last `activationLimit` ones. -/
def pushAct (rk : Rank p) (actTick : Nat) : Rank p :=
  { rk with actTicks := actTick :: rk.actTicks.dropLast }

/-- The oldest activate of the window is less than tXAW before `actTick`. -/
def WithinXAW (rk : Rank p) (actTick : Nat) : Prop :=
  rk.oldestAct ≠ 0 ∧ sub64 actTick rk.oldestAct < p.tXAW

instance (rk : Rank p) (actTick : Nat) : Decidable (rk.WithinXAW actTick) :=
  inferInstanceAs (Decidable (_ ∧ _))

/-- The window handling of `activateBank`. -/
def enforceXAW (rk : Rank p) (actTick : Nat) : Rank p :=
  if rk.actTicks = [] then rk
  else
    let rk := rk.pushAct actTick
    if rk.WithinXAW actTick then rk.holdActs (add64 rk.oldestAct p.tXAW) else rk

/-- The window handling of `aapBank`, where the comparison is by addition. -/
def enforceXAWOfAap (rk : Rank p) (actTick : Nat) : Rank p :=
  if rk.actTicks = [] then rk
  else
    let rk := rk.pushAct actTick
    let newLimit := add64 rk.oldestAct p.tXAW
    if rk.oldestAct ≠ 0 ∧ actTick < newLimit then rk.holdActs newLimit else rk

/-- Have the rank's activate event fire no later than `actTick`. -/
def scheduleActivate (rk : Rank p) (actTick : Nat) : Rank p :=
  match rk.activateEvent with
  | none => { rk with activateEvent := some actTick }
  | some t => if actTick < t then { rk with activateEvent := some actTick } else rk

/-- What `activateBank` does once its checks have passed. -/
def activated (rk : Rank p) (off : Nat) (b : Fin p.banksPerRank) (actTick : Nat) (row : Nat) :
    Rank p :=
  let rk := (rk.openBank b row).doCommand off .act b actTick
  let rk := rk.setBank b { rk.banks b with
    preAllowedAt := add64 actTick p.tRAS
    colAllowedAt := max (add64 actTick p.tRCD) (rk.banks b).colAllowedAt }
  let rk := (rk.enforceRRD b actTick).enforceXAW actTick
  (rk.scheduleActivate actTick).record (.act b row actTick)

/-- `DRAMCtrl::activateBank`. -/
def activateBank (rk : Rank p) (off : Nat) (b : Fin p.banksPerRank) (actTick : Nat) (row : Nat) :
    Except Failure (Rank p) := do
  ensure (rk.actTicks.length = p.activationLimit) .actTicksSize
  rk.canOpen b
  ensure (rk.actTicks = [] ∨ ¬rk.WithinXAW actTick) .activationWindow
  .ok (rk.activated off b actTick row)

/-- Have the rank's precharge event fire no earlier than `preDoneAt`. -/
def schedulePrecharge (rk : Rank p) (preDoneAt : Nat) : Rank p :=
  match rk.prechargeEvent with
  | none => { rk with prechargeEvent := some preDoneAt }
  | some t => if t < preDoneAt then { rk with prechargeEvent := some preDoneAt } else rk

/-- What `prechargeBank` does once its checks have passed. -/
def precharged (rk : Rank p) (off : Nat) (b : Fin p.banksPerRank) (preAt : Nat) (trace : Bool) :
    Rank p :=
  let preDoneAt := add64 preAt p.tRP
  let rk := { rk.setBank b { rk.banks b with
      openRow := Row.noRow
      preAllowedAt := preAt
      actAllowedAt := max (rk.banks b).actAllowedAt preDoneAt } with
    numBanksActive := rk.numBanksActive - 1 }
  let rk := if trace then rk.doCommand off .pre b preAt else rk
  (rk.schedulePrecharge preDoneAt).record (.pre b preAt)

/-- `DRAMCtrl::prechargeBank`. -/
def prechargeBank (rk : Rank p) (off : Nat) (b : Fin p.banksPerRank) (preAt : Nat) (trace : Bool) :
    Except Failure (Rank p) := do
  ensure ((rk.banks b).openRow ≠ Row.noRow) .bankClosed
  ensure (rk.numBanksActive ≠ 0) .noneActive
  .ok (rk.precharged off b preAt trace)

/-- `DRAMCtrl::apBank`. -/
def apBank (rk : Rank p) (off : Nat) (b : Fin p.banksPerRank) (actTick : Nat) (row : Nat) :
    Except Failure (Rank p) := do
  let rk ← rk.activateBank off b actTick row
  rk.prechargeBank off b (rk.banks b).preAllowedAt true

/-- The two overlapped activates of `aapBank`. No activate is handed to the DRAMPower library. -/
def doubleActivated (rk : Rank p) (b : Fin p.banksPerRank) (actTick : Nat) (actOverlapped : Bool) :
    Rank p :=
  let rk := rk.openBank b Row.doubleRow
  let rk := rk.setBank b { rk.banks b with
    preAllowedAt := add64 (add64 actTick p.tRAS) (if actOverlapped then p.tWLOV else p.tWL) }
  let rk := (rk.enforceRRD b actTick).enforceXAWOfAap actTick
  (rk.scheduleActivate actTick).record (.act b Row.doubleRow actTick)

/-- `DRAMCtrl::aapBank`. The two rows have no influence on the timing. -/
def aapBank (rk : Rank p) (off : Nat) (b : Fin p.banksPerRank) (actTick : Nat)
    (_row1 _row2 : Nat) (actOverlapped : Bool) : Except Failure (Rank p) := do
  rk.canOpen b
  let rk := rk.doubleActivated b actTick actOverlapped
  rk.prechargeBank off b (rk.banks b).preAllowedAt true

/-- A call of `apBank` or `aapBank`. -/
def issue (rk : Rank p) (off : Nat) (b : Fin p.banksPerRank) (actTick : Nat) :
    BankCommand → Except Failure (Rank p)
  | .ap row => rk.apBank off b actTick row
  | .aap row1 row2 actOverlapped => rk.aapBank off b actTick row1 row2 actOverlapped

/-- A sequence of such calls, each at the first tick the bank allows after the one before. The
tick returned is the one at which the bank could activate next. -/
def issueAll (rk : Rank p) (off : Nat) (b : Fin p.banksPerRank) (cmdAt : Nat) :
    List BankCommand → Except Failure (Rank p × Nat)
  | [] => .ok (rk, cmdAt)
  | c :: cs => do
    let rk ← rk.issue off b cmdAt c
    rk.issueAll off b (rk.banks b).actAllowedAt cs

/-- If there is a page open, precharge it. -/
def closeBank (rk : Rank p) (off : Nat) (b : Fin p.banksPerRank) (now : Nat) :
    Except Failure (Rank p) :=
  if (rk.banks b).openRow ≠ Row.noRow then
    rk.prechargeBank off b (max (rk.banks b).preAllowedAt now) true
  else .ok rk

end Rank

end MimdramLean

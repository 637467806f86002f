import MimdramLean.Access
import Mathlib.Data.List.FinRange

/-!
# Refresh and power states of a rank

The handlers of the four events of `DRAMCtrl::Rank`. An event that fires is no longer scheduled
when its handler runs; energy figures and the time spent in each state are left out.
-/

namespace MimdramLean

open Library

namespace Rank

variable {p : Params}

/-- `Rank::checkDrainDone`. -/
def checkDrainDone (rk : Rank p) (now : Nat) : Rank p :=
  if rk.refreshState = .refDrain then
    { rk with refreshState := .refPre, refreshEvent := some now }
  else rk

/-- `Rank::schedulePowerEvent`. -/
def schedulePowerEvent (rk : Rank p) (pwrState : PowerState) (tick : Nat) : Except Failure (Rank p) := do
  ensure (rk.powerEvent = none) .powerScheduled
  .ok { rk with pwrStateTrans := pwrState, powerEvent := some tick }

/-- `Rank::processActivateEvent`. -/
def processActivateEvent (rk : Rank p) (now : Nat) : Except Failure (Rank p) :=
  if rk.pwrState ≠ .pwrAct then rk.schedulePowerEvent .pwrAct now else .ok rk

/-- `Rank::processPrechargeEvent`. -/
def processPrechargeEvent (rk : Rank p) (now : Nat) : Except Failure (Rank p) :=
  if rk.numBanksActive = 0 then rk.schedulePowerEvent .pwrIdle now else .ok rk

/-- The first tick at which all banks of the rank can be precharged. -/
def preAllAt (rk : Rank p) (now : Nat) : Nat :=
  (List.finRange p.banksPerRank).foldl (fun t b => max (rk.banks b).preAllowedAt t) now

/-- Precharge the bank, or update the availability of one that already is. -/
def prechargeOrHold (off : Nat) (preAt : Nat) (rk : Rank p) (b : Fin p.banksPerRank) :
    Except Failure (Rank p) :=
  if (rk.banks b).openRow ≠ Row.noRow then rk.prechargeBank off b preAt false
  else .ok (rk.setBank b { rk.banks b with
    actAllowedAt := max (rk.banks b).actAllowedAt (add64 preAt p.tRP)
    preAllowedAt := max (rk.banks b).preAllowedAt preAt })

/-- Precharge all banks, or go on to refresh if the rank is idle. -/
def prechargeAll (rk : Rank p) (off now : Nat) : Except Failure (Rank p) :=
  if rk.pwrState ≠ .pwrIdle then do
    let preAt := rk.preAllAt now
    let rk ← (List.finRange p.banksPerRank).foldlM (prechargeOrHold off preAt) rk
    .ok (rk.doCommand off .prea 0 preAt)
  else rk.schedulePowerEvent .pwrRef now

/-- The `REF_PRE` part of `processRefreshEvent`. -/
def refreshPrecharge (rk : Rank p) (off now : Nat) : Except Failure (Rank p) := do
  let rk ← rk.prechargeAll off now
  ensure (rk.numBanksActive = 0) .refreshActive
  .ok { rk with refreshState := .refRun }

/-- The `REF_RUN` part of `processRefreshEvent`. -/
def refreshRun (rk : Rank p) (off : Nat) (now : Nat) : Except Failure (Rank p) := do
  ensure (rk.numBanksActive = 0) .refreshActive
  ensure (rk.pwrState = .pwrRef) .refreshPower
  let refDoneAt := add64 now p.tRFC
  let rk := { rk with banks := fun b => { rk.banks b with actAllowedAt := refDoneAt } }
  let rk := rk.doCommand off .ref 0 now
  ensure (refDoneAt ≤ add64 rk.refreshDueAt p.tREFI) .refreshDelayed
  let rk := { rk with refreshEvent := some (sub64 (add64 rk.refreshDueAt p.tREFI) p.tRP) }
  rk.schedulePowerEvent .pwrIdle refDoneAt

/-- The due refresh starts: remember when, and wait for requests to drain. -/
def startRefresh (rk : Rank p) (now : Nat) : Rank p :=
  if rk.refreshState = .refIdle then { rk with refreshDueAt := now, refreshState := .refDrain } else rk

def leaveDrain (rk : Rank p) : Rank p :=
  if rk.refreshState = .refDrain then { rk with refreshState := .refPre } else rk

def continueRefresh (rk : Rank p) (off now : Nat) : Except Failure (Rank p) :=
  if rk.refreshState = .refPre then rk.refreshPrecharge off now else rk.refreshRun off now

/-- `Rank::processRefreshEvent`. `awaiting` tells that the rank is the active one and a request
is still being handled. -/
def processRefreshEvent (rk : Rank p) (off now : Nat) (awaiting : Bool) : Except Failure (Rank p) :=
  if (rk.startRefresh now).refreshState = .refDrain ∧ awaiting then .ok (rk.startRefresh now)
  else (rk.startRefresh now).leaveDrain.continueRefresh off now

/-- An idle rank with a refresh pending moves on to the refresh power state. -/
def enterRefresh (rk : Rank p) : Rank p :=
  if rk.pwrState = .pwrIdle ∧ rk.refreshState = .refRun then { rk with pwrState := .pwrRef } else rk

/-- The end of `processPowerEvent`: in the refresh power state the refresh is kicked off. -/
def kickRefresh (rk : Rank p) (off now : Nat) : Except Failure (Rank p) :=
  if rk.pwrState = .pwrRef then do
    ensure (rk.refreshState = .refRun) .powerState
    rk.processRefreshEvent off now false
  else .ok rk

/-- `Rank::processPowerEvent`. The flag tells that the rank went back to normal operation and
`nextReqEvent` has to be scheduled. -/
def processPowerEvent (rk : Rank p) (off now : Nat) : Except Failure (Rank p × Bool) :=
  if rk.pwrStateTrans = .pwrIdle ∧ rk.pwrState = .pwrRef then
    .ok ({ rk with pwrState := .pwrIdle, refreshState := .refIdle }, true)
  else do
    ensure (rk.pwrStateTrans = .pwrIdle → rk.pwrState = .pwrAct) .powerState
    let rk ← ({ rk with pwrState := rk.pwrStateTrans }.enterRefresh).kickRefresh off now
    .ok (rk, false)

end Rank

/-! ### Accesses and rank events in any order -/

/-- A call of `doDRAMAccess`, or of a handler of rank `r` at tick `now`. `refreshPrecharge` is the
`REF_PRE` part of the refresh handler on its own. -/
inductive ChannelEvent (p : Params) where
  | access (a : Call p)
  | refreshPrecharge (r : Fin p.ranksPerChannel) (now : Nat)
  | refresh (r : Fin p.ranksPerChannel) (now : Nat) (awaiting : Bool)
  | activate (r : Fin p.ranksPerChannel) (now : Nat)
  | precharge (r : Fin p.ranksPerChannel) (now : Nat)
  | power (r : Fin p.ranksPerChannel) (now : Nat)

namespace Channel

variable {p : Params}

/-- Run a handler of rank `r`. -/
def onRank (c : Channel p) (r : Fin p.ranksPerChannel) (handler : Rank p → Except Failure (Rank p)) :
    Except Failure (Channel p) := do
  let rk ← handler (c.ranks r)
  .ok (c.setRank r rk)

def onEvent (c : Channel p) : ChannelEvent p → Except Failure (Channel p)
  | .access a => do
    let (_, c) ← (c.advanceBus a.bubble).doDRAMAccess a.now a.pkt a.rest
    .ok c
  | .refreshPrecharge r now => c.onRank r fun rk => rk.refreshPrecharge c.timeStampOffset now
  | .refresh r now awaiting => c.onRank r fun rk =>
    { rk with refreshEvent := none }.processRefreshEvent c.timeStampOffset now awaiting
  | .activate r now => c.onRank r fun rk => { rk with activateEvent := none }.processActivateEvent now
  | .precharge r now => c.onRank r fun rk => { rk with prechargeEvent := none }.processPrechargeEvent now
  | .power r now => c.onRank r fun rk => do
    let (rk, _) ← { rk with powerEvent := none }.processPowerEvent c.timeStampOffset now
    .ok rk

end Channel

end MimdramLean

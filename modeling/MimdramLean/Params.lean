import MimdramLean.Library.Machine
import MimdramLean.RowOps

/-!
# Controller parameters and address decoding

`DRAMCtrlParams` as the constructor of `DRAMCtrl` accepts them, the failures the controller can
stop with, and `DRAMCtrl::decodeAddr`. The thresholds and `rowsPerBank` are taken as computed;
frequencies, currents and everything read by the statistics only are left out.
-/

namespace MimdramLean

open Library

inductive MemSched where
  | fcfs
  | frfcfs
  deriving DecidableEq, Repr

inductive AddrMap where
  | roRaBaChCo
  | roRaBaCoCh
  | roCoRaBaCh
  deriving DecidableEq, Repr

inductive PageManage where
  | openPage
  | openAdaptive
  | close
  | closeAdaptive
  deriving DecidableEq, Repr

/-- The parameters of a controller that its constructor lets through: the last fields are the
`fatal` checks. -/
structure Params where
  burstSize : Nat
  columnsPerRowBuffer : Nat
  columnsPerStripe : Nat
  ranksPerChannel : Nat
  bankGroupsPerRank : Nat
  banksPerRank : Nat
  channels : Nat
  rowsPerBank : Nat
  readBufferSize : Nat
  writeBufferSize : Nat
  writeHighThreshold : Nat
  writeLowThreshold : Nat
  minWritesPerSwitch : Nat
  tCK : Nat
  tWTR : Nat
  tRTW : Nat
  tCS : Nat
  tBURST : Nat
  tCCDL : Nat
  tRCD : Nat
  tCL : Nat
  tRP : Nat
  tRAS : Nat
  tWR : Nat
  tRTP : Nat
  tRFC : Nat
  tREFI : Nat
  tRRD : Nat
  tRRDL : Nat
  tXAW : Nat
  tWL : Nat
  tWLOV : Nat
  activationLimit : Nat
  memSchedPolicy : MemSched
  addrMapping : AddrMap
  pageMgmt : PageManage
  maxAccessesPerRow : Nat
  frontendLatency : Nat
  backendLatency : Nat
  ranks_pow : ∃ k, ranksPerChannel = 2 ^ k
  burst_pow : ∃ k, k < 32 ∧ burstSize = 2 ^ k
  refresh_interval : tRP < tREFI ∧ tRFC < tREFI
  bank_groups : 0 < bankGroupsPerRank → bankGroupsPerRank ≤ banksPerRank ∧
    banksPerRank % bankGroupsPerRank = 0 ∧ tBURST < tCCDL ∧ tRRD ≤ tRRDL

namespace Params

variable (p : Params)

def bankGroupArch : Bool := decide (0 < p.bankGroupsPerRank)

/-- `Bank::bankgr`, an eight-bit field: low-order bits rotate over the groups. -/
def bankgr (b : Fin p.banksPerRank) : Nat :=
  if p.bankGroupArch then b.val % p.bankGroupsPerRank % 256 else b.val % 256

lemma ranks_pos : 0 < p.ranksPerChannel := by
  obtain ⟨k, hk⟩ := p.ranks_pow
  rw [hk]
  exact Nat.two_pow_pos k

/-- `DRAMCtrl::burstAlign`. -/
def burstAlign (addr : Nat) : Nat := addr &&& (2 ^ 64 - p.burstSize)

end Params

/-- `DDR3_1600_x64` of `DRAMCtrl.py` with the default policies, over 8 GiB. Ticks are picoseconds. -/
def ddr3_1600_x64 : Params where
  burstSize := 64
  columnsPerRowBuffer := 128
  columnsPerStripe := 1
  ranksPerChannel := 2
  bankGroupsPerRank := 0
  banksPerRank := 8
  channels := 1
  rowsPerBank := 65536
  readBufferSize := 32
  writeBufferSize := 64
  writeHighThreshold := 54
  writeLowThreshold := 32
  minWritesPerSwitch := 16
  tCK := 1250
  tWTR := 7500
  tRTW := 2500
  tCS := 2500
  tBURST := 5000
  tCCDL := 0
  tRCD := 13750
  tCL := 13750
  tRP := 13750
  tRAS := 35000
  tWR := 15000
  tRTP := 7500
  tRFC := 260000
  tREFI := 7800000
  tRRD := 6000
  tRRDL := 0
  tXAW := 30000
  tWL := 32000
  tWLOV := 4000
  activationLimit := 4
  memSchedPolicy := .frfcfs
  addrMapping := .roRaBaCoCh
  pageMgmt := .openAdaptive
  maxAccessesPerRow := 16
  frontendLatency := 10000
  backendLatency := 10000
  ranks_pow := ⟨1, rfl⟩
  burst_pow := ⟨6, by decide, rfl⟩
  refresh_interval := by decide
  bank_groups := by decide

/-- Assertions, panics and fatal errors of the controller, with the function they stand in. -/
inductive Failure where
  /-- not a failure of the code: the event is not scheduled at this tick -/
  | notEnabled
  /-- `decodeAddr`: an address component has no values, or the row is out of range -/
  | decodeRange
  /-- `addToWriteQueue`: the rows of a row operation are in different banks -/
  | rowOpBank
  /-- `recvTimingReq`: a request of no bytes -/
  | zeroSize
  /-- `addToReadQueue`: no bursts -/
  | zeroBursts
  /-- `addToReadQueue`: no room in the read queue -/
  | readQueueFull
  /-- `addToWriteQueue`: no room in the write queue -/
  | writeQueueFull
  /-- `chooseNext`: nothing to choose from -/
  | queueEmpty
  /-- `processNextReqEvent`: the chosen packet goes to a rank that is refreshing -/
  | rankBusy
  /-- `processNextReqEvent`: a packet larger than a burst -/
  | packetSize
  /-- `processNextReqEvent`: a read that was ready before now -/
  | readyInPast
  /-- `processNextReqEvent`: the response event disagrees with the response queue -/
  | respondScheduled
  /-- `processNextReqEvent`: responses out of order -/
  | respondOrder
  /-- `processRespondEvent`: the next response is in the past or already scheduled -/
  | respondNext
  /-- `activateBank`: the window of activates has the wrong size -/
  | actTicksSize
  /-- `activateBank`, `aapBank`: the bank has an open row -/
  | bankOpen
  /-- `prechargeBank`: the bank has no open row -/
  | bankClosed
  /-- `activateBank`, `aapBank`: more active banks than banks -/
  | tooManyActive
  /-- `prechargeBank`: no bank is active -/
  | noneActive
  /-- `activateBank`: too many activates in the window -/
  | activationWindow
  /-- `doDRAMAccess`: two bursts on the data bus -/
  | busOverlap
  /-- `processRefreshEvent`: a bank is active -/
  | refreshActive
  /-- `processRefreshEvent`: the rank is not in the refresh power state -/
  | refreshPower
  /-- `processRefreshEvent`: too late to catch up -/
  | refreshDelayed
  /-- `schedulePowerEvent`: a power event is already scheduled -/
  | powerScheduled
  /-- `processPowerEvent`: unexpected previous or refresh state -/
  | powerState
  deriving DecidableEq, Repr

/-- Where a DRAM packet goes: the part of a `DRAMPacket` that `decodeAddr` populates. -/
structure Location (p : Params) where
  rank : Fin p.ranksPerChannel
  bank : Fin p.banksPerRank
  row : Fin Row.noRow

/-- The burst number of an address with the column and channel parts taken out, and the column
part that `RoCoRaBaCh` takes out later. -/
def addrAboveColumns (p : Params) (dramPktAddr : Nat) : Nat :=
  let addr := dramPktAddr / p.burstSize
  match p.addrMapping with
  | .roRaBaChCo => addr / p.columnsPerRowBuffer / p.channels
  | .roRaBaCoCh => addr / p.columnsPerStripe / p.channels / (p.columnsPerRowBuffer / p.columnsPerStripe)
  | .roCoRaBaCh => addr / p.columnsPerStripe / p.channels

def addrAboveRank (p : Params) (dramPktAddr : Nat) : Nat :=
  let addr := addrAboveColumns p dramPktAddr / p.banksPerRank / p.ranksPerChannel
  match p.addrMapping with
  | .roRaBaChCo => addr
  | .roRaBaCoCh => addr
  | .roCoRaBaCh => addr / (p.columnsPerRowBuffer / p.columnsPerStripe)

/-- The product of what `decodeAddr` divides by before it reads the bank. -/
def columnDivisor (p : Params) : Nat :=
  match p.addrMapping with
  | .roRaBaChCo => p.columnsPerRowBuffer * p.channels
  | .roRaBaCoCh => p.columnsPerStripe * p.channels * (p.columnsPerRowBuffer / p.columnsPerStripe)
  | .roCoRaBaCh => p.columnsPerStripe * p.channels * (p.columnsPerRowBuffer / p.columnsPerStripe)

/-- `DRAMCtrl::decodeAddr`. Rank and bank are eight-bit locals; a division by zero stops the
simulator like a failed assertion. -/
def decodeAddr (p : Params) (dramPktAddr : Nat) : Except Failure (Location p) :=
  let addr := addrAboveColumns p dramPktAddr
  if hb : 0 < p.banksPerRank ∧ 0 < columnDivisor p then
    let row := addrAboveRank p dramPktAddr % p.rowsPerBank
    if hrow : row < p.rowsPerBank ∧ row < Row.noRow then
      .ok {
        rank := ⟨addr / p.banksPerRank % p.ranksPerChannel % 256,
          lt_of_le_of_lt (Nat.mod_le _ _) (Nat.mod_lt _ p.ranks_pos)⟩
        bank := ⟨addr % p.banksPerRank % 256, lt_of_le_of_lt (Nat.mod_le _ _) (Nat.mod_lt _ hb.1)⟩
        row := ⟨row, hrow.2⟩ }
    else .error .decodeRange
  else .error .decodeRange

end MimdramLean

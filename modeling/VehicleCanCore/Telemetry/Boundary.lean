import VehicleCanCore.Core.Frame

/-!
# The data types of the runtime's boundaries

Results, lifecycle states and the records exchanged with acquisition sources,
frame processors and observers, and the configuration of the worker.
-/

namespace VehicleCanCore
namespace Telemetry

open VehicleCanCore.Core

/-- The status of a `StatusResult`, which has no other field. -/
inductive ResultCode
  | ok
  | invalidConfiguration
  | invalidState
  | alreadyRunning
  | notRunning
  | stopping
  | timeout
  | faulted
  | capacityExceeded
  deriving DecidableEq, Repr

inductive LifecycleState
  | stopped
  | running
  | stopping
  | faulted
  deriving DecidableEq, Repr

inductive TransportHealth
  | awaitingTraffic
  | live
  | timedOut
  | faulted
  | stopped
  deriving DecidableEq, Repr

/-- A `ReceiveStatus`, with the frame that `receive` has written. -/
inductive Received
  | frame (frame : RawCanFrame)
  | timeout
  | fault
  | notStarted
  deriving DecidableEq

inductive ProcessStatus
  | ignored
  | processed
  | malformed
  | fault
  deriving DecidableEq, Repr

structure AcquisitionStatistics where
  framesReceived : BitVec 64 := 0
  framesDropped : BitVec 64 := 0
  queueOverflows : BitVec 64 := 0
  driverErrors : BitVec 64 := 0
  missedFrames : BitVec 64 := 0
  controllerResets : BitVec 64 := 0
  busOffEvents : BitVec 64 := 0
  deriving DecidableEq, Repr

structure TransportDiagnostics where
  lifecycle : LifecycleState := .stopped
  transport : TransportHealth := .stopped
  acquisition : AcquisitionStatistics := {}
  framesProcessed : BitVec 64 := 0
  framesIgnored : BitVec 64 := 0
  framesMalformed : BitVec 64 := 0
  processorFaults : BitVec 64 := 0
  hasLastFrame : Bool := false
  lastFrameUs : UInt64 := 0
  workBudgetPauses : BitVec 64 := 0
  deriving DecidableEq, Repr

/-! ## Configuration -/

structure RuntimeConfig where
  receiveTimeoutMs : UInt32 := 100
  transportSilenceTimeoutUs : UInt64 := 1000000
  maxFramesPerBatch : UInt32 := 16
  maxBatchTimeUs : UInt64 := 2000
  maxRunnableReceiveCalls : UInt32 := 512
  maxRunnableTimeUs : UInt64 := 20000
  budgetPauseMs : UInt32 := 1
  deriving DecidableEq, Repr

def kMaximumReceiveTimeoutMs : UInt32 := 60000

def kMaximumSilenceTimeoutUs : UInt64 := 300000000

def validConfig (config : RuntimeConfig) : Bool :=
  config.receiveTimeoutMs != 0 && config.receiveTimeoutMs ≤ kMaximumReceiveTimeoutMs &&
    config.transportSilenceTimeoutUs != 0 &&
    config.transportSilenceTimeoutUs ≤ kMaximumSilenceTimeoutUs &&
    config.maxFramesPerBatch != 0 && config.maxRunnableReceiveCalls ≤ 65535 &&
    config.maxFramesPerBatch ≤ config.maxRunnableReceiveCalls &&
    config.maxBatchTimeUs != 0 && config.maxRunnableTimeUs ≤ 1000000 &&
    config.maxBatchTimeUs ≤ config.maxRunnableTimeUs && config.budgetPauseMs != 0 &&
    config.budgetPauseMs ≤ 1000

example : validConfig {} = true := by decide

/-- Elapsed time is evaluated only for samples that do not go backwards. -/
def elapsed (now start limit : UInt64) : Bool := start ≤ now && limit ≤ now - start

theorem elapsed_iff {now start limit : UInt64} :
    elapsed now start limit = true ↔ start ≤ now ∧ limit ≤ now - start := by
  simp [elapsed]

theorem elapsed_iff_toNat {now start limit : UInt64} :
    elapsed now start limit = true ↔ start.toNat + limit.toNat ≤ now.toNat := by
  rw [elapsed_iff]
  constructor
  · rintro ⟨hstart, hlimit⟩
    rw [UInt64.le_iff_toNat_le, UInt64.toNat_sub_of_le _ _ hstart] at hlimit
    rw [UInt64.le_iff_toNat_le] at hstart
    omega
  · intro hle
    have hstart : start ≤ now := UInt64.le_iff_toNat_le.mpr (by omega)
    refine ⟨hstart, ?_⟩
    rw [UInt64.le_iff_toNat_le, UInt64.toNat_sub_of_le _ _ hstart]
    omega

theorem elapsed_mono {earlier now start limit : UInt64} (h : elapsed earlier start limit = true)
    (hle : earlier ≤ now) : elapsed now start limit = true := by
  rw [elapsed_iff_toNat] at h ⊢
  rw [UInt64.le_iff_toNat_le] at hle
  omega

inductive BudgetAction
  | continue
  | checkpoint
  | pause
  deriving DecidableEq, Repr

/-- Worker-owned counters. A checkpoint never clears total runnable work. -/
structure WorkBudget where
  receiveCalls : UInt32 := 0
  batchFrames : UInt32 := 0
  batchStarted : UInt64
  runnableStarted : UInt64
  deriving DecidableEq, Repr

namespace WorkBudget

def begin (now : UInt64) : WorkBudget := { batchStarted := now, runnableStarted := now }

def afterReceive (config : RuntimeConfig) (budget : WorkBudget) (frame : Bool) (now : UInt64) :
    WorkBudget × BudgetAction :=
  let receiveCalls := budget.receiveCalls + 1
  let batchFrames := if frame then budget.batchFrames + 1 else budget.batchFrames
  let counted := { budget with receiveCalls := receiveCalls, batchFrames := batchFrames }
  -- total limits first, so that coincident batch boundaries cannot defer them
  if config.maxRunnableReceiveCalls ≤ receiveCalls ||
      elapsed now budget.runnableStarted config.maxRunnableTimeUs then (counted, .pause)
  else if !frame || config.maxFramesPerBatch ≤ batchFrames ||
      elapsed now budget.batchStarted config.maxBatchTimeUs then
    ({ counted with batchFrames := 0, batchStarted := now }, .checkpoint)
  else (counted, .continue)

def afterPause (_ : WorkBudget) (now : UInt64) : WorkBudget := begin now

end WorkBudget
end Telemetry
end VehicleCanCore

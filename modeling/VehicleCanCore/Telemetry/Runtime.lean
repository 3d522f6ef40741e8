import VehicleCanCore.Automata.Machine
import VehicleCanCore.Telemetry.Boundary

/-!
# The telemetry runtime: lifecycle operations, worker and readers

One `Runtime` over an arbitrary source, processor, observer and clock. Lifecycle
operations exclude each other through `lifecycle_operation_active_`; the worker
runs beside them, and readers of the diagnostics come at any moment, from other
threads or from inside the callbacks. Each step is one atomic access, one
critical section or one call across a boundary, whose outcome the schedule
chooses. A call on the source is begun in one step and returns in another.
-/

namespace VehicleCanCore
namespace Telemetry

open VehicleCanCore.Core Automata

/-- The two backends differ in how `stop()` waits for the worker. -/
inductive Platform
  | host
  | esp
  deriving DecidableEq, Repr

def kAcquisitionStatisticsRefreshIntervalUs : UInt64 := 1000000

/-! ## Source ownership -/

inductive SourceOwnership
  | none
  | successfulStart
  | partialStart
  deriving DecidableEq, Repr

/-- The fields that only lifecycle operations touch. -/
structure SourceBooks where
  started : Bool := false
  ownership : SourceOwnership := .none
  stopCalled : Bool := false
  partialCleanupAttempts : UInt8 := 0
  stopResult : ResultCode := .ok
  stopRetrySupported : Bool := false
  deriving DecidableEq, Repr

/-- The two calls that clean a source up. -/
inductive StopCall
  | stop
  | retryStop
  deriving DecidableEq, Repr

namespace SourceBooks

/-- `attempt_source_stop` up to its call on the source; without a call it has
returned already. -/
def beginSourceStop (b : SourceBooks) : Except ResultCode (SourceBooks × StopCall) :=
  if b.ownership ≠ .successfulStart || !b.started then .error b.stopResult
  else if b.stopCalled then
    if !b.stopRetrySupported then .error b.stopResult else .ok (b, .retryStop)
  else .ok ({ b with stopCalled := true }, .stop)

/-- The rest of `attempt_source_stop`. -/
def endSourceStop (b : SourceBooks) (result : ResultCode) : SourceBooks × ResultCode :=
  if result = .ok || b.stopRetrySupported && result = .notRunning then
    ({ b with
      started := false
      ownership := .none
      stopCalled := false
      stopRetrySupported := false
      stopResult := .ok }, .ok)
  else if !b.stopRetrySupported then
    ({ b with
      started := false
      ownership := .none
      stopCalled := false
      stopResult := .ok }, result)
  else ({ b with stopResult := result }, result)

/-- `attempt_partial_start_cleanup` up to its call on the source. -/
def beginPartialCleanup (b : SourceBooks) : Except ResultCode (SourceBooks × StopCall) :=
  if b.ownership ≠ .partialStart || !b.started then .error .ok
  else if 2 ≤ b.partialCleanupAttempts && !b.stopRetrySupported then .error b.stopResult
  else
    let b := { b with partialCleanupAttempts := b.partialCleanupAttempts + 1 }
    if b.stopRetrySupported && b.stopCalled then .ok (b, .retryStop)
    else .ok ({ b with stopCalled := true }, .stop)

/-- The rest of `attempt_partial_start_cleanup`. -/
def endPartialCleanup (b : SourceBooks) (result : ResultCode) : SourceBooks × ResultCode :=
  if result = .ok || result = .notRunning then
    ({ b with
      started := false
      ownership := .none
      stopCalled := false
      stopRetrySupported := false
      stopResult := .ok }, .ok)
  else ({ b with stopResult := result }, result)

end SourceBooks

def startFailureMayOwnSource (status : ResultCode) : Bool :=
  status ≠ .alreadyRunning && status ≠ .invalidConfiguration

/-- The refusal of `start()` in a state other than stopped. -/
def lifecycleResult : LifecycleState → ResultCode
  | .running => .alreadyRunning
  | .stopping => .stopping
  | .faulted => .faulted
  | .stopped => .ok

/-! ## Program points -/

/-- `refresh_acquisition_statistics_if_due`, with its arguments. -/
inductive RefreshPc
  | acquire (now : UInt64) (force : Bool)
  | check (now : UInt64) (force : Bool)
  | query (now : UInt64)
  | store (now : UInt64) (statistics : AcquisitionStatistics)

/-- The callers of the two cleanup helpers. -/
inductive Cleaner
  | start (result : ResultCode)
  | stop
  | destroy (final : Bool)
  deriving DecidableEq, Repr

/-- How an operation ends that has tried to clean up. -/
structure Ending where
  cleaned : Bool
  resetsCache : Bool
  result : ResultCode
  deriving DecidableEq, Repr

/-- What follows `set_lifecycle_diagnostic`. -/
inductive AfterDiagnostic
  | cleanUp
  | requestStop
  | resetCache (result : ResultCode)
  | finish (result : ResultCode)
  deriving DecidableEq, Repr

/-- Program points of `start` up to `clearWorkerActive`, of `stop`, and of the
destructor from `joinWorker` on; those in between are shared. -/
inductive OperationPc
  | idle
  | resetCache
  | resetProcessor
  | askRetry
  | callStart
  | awaitStart
  | clearStopRequested
  | setWorkerActive
  | refresh (pc : RefreshPc)
  | resetDiagnostics
  | storeRunning
  | createWorker
  | clearWorkerActive
  | storeStopping (next : AfterDiagnostic)
  | awaitWorker (result : ResultCode)
  | requestStop (caller : Cleaner)
  | attemptStop (caller : Cleaner)
  | awaitStop (caller : Cleaner)
  | cleanUp (caller : Cleaner)
  | awaitCleanup (caller : Cleaner)
  | storeFinal (e : Ending)
  | beginDiagnostic (lifecycle : LifecycleState) (transport : TransportHealth)
    (next : AfterDiagnostic)
  | refreshDiagnostic (lifecycle : LifecycleState) (transport : TransportHealth)
    (next : AfterDiagnostic) (pc : RefreshPc)
  | writeDiagnostic (lifecycle : LifecycleState) (transport : TransportHealth)
    (next : AfterDiagnostic)
  | resetCacheAtEnd (result : ResultCode)
  | finish (result : ResultCode)
  | joinWorker
  | retryCleanup
  | destroyed

def OperationPc.isIdle : OperationPc → Bool
  | idle => true
  | _ => false

theorem OperationPc.isIdle_iff {pc : OperationPc} : pc.isIdle = true ↔ pc = .idle := by
  cases pc <;> simp [isIdle]

/-- A received frame with its processing result, or another receive status. -/
inductive Outcome
  | frame (frame : RawCanFrame) (result : ProcessStatus)
  | timeout
  | fault
  | notStarted
  deriving DecidableEq

inductive WorkerPc
  | begin
  | loopHead (budget : WorkBudget)
  | receive (budget : WorkBudget)
  | received (budget : WorkBudget) (received : Received) (time : UInt64)
  | process (budget : WorkBudget) (frame : RawCanFrame) (time : UInt64)
  | refresh (budget : WorkBudget) (outcome : Outcome) (time : UInt64) (pc : RefreshPc)
  | record (budget : WorkBudget) (outcome : Outcome) (time : UInt64)
  | onFrameProcessed (budget : WorkBudget) (frame : RawCanFrame) (result : ProcessStatus)
    (snapshot : TransportDiagnostics)
  | onDiagnostics (budget : WorkBudget) (outcome : Outcome) (snapshot : TransportDiagnostics)
  | storeFaulted (budget : WorkBudget) (outcome : Outcome)
  | requestStop (budget : WorkBudget) (outcome : Outcome)
  | completed (budget : WorkBudget) (outcome : Outcome)
  | afterReceive (budget : WorkBudget) (outcome : Outcome)
  | batchDone (budget : WorkBudget) (action : BudgetAction)
  | checkpoint (budget : WorkBudget) (action : BudgetAction)
  | beginPause (budget : WorkBudget)
  | recordPause (budget : WorkBudget)
  | pause (budget : WorkBudget)
  | exiting
  | finished

def WorkerPc.isFinished : WorkerPc → Bool
  | finished => true
  | _ => false

/-! ## The state -/

/-- `books` are the source ownership fields, `refreshing` tells whether
`acquisition_statistics_refresh_mutex_` is held. -/
structure Runtime where
  operationActive : Bool := false
  config : RuntimeConfig := {}
  diagnostics : TransportDiagnostics := {}
  acquisitionStatisticsCache : AcquisitionStatistics := {}
  acquisitionStatisticsSampleUs : UInt64 := 0
  acquisitionStatisticsCacheValid : Bool := false
  refreshing : Bool := false
  lifecycle : LifecycleState := .stopped
  stopRequested : Bool := false
  workerActive : Bool := false
  books : SourceBooks := {}
  operation : OperationPc := .idle
  worker : Option WorkerPc := none

/-- Lifecycle calls on the source, and their returns. -/
inductive SourceEvent
  | supportsStopRetry (supported : Bool)
  | start
  | startReturned (result : ResultCode)
  | cleanup (call : StopCall)
  | cleanupReturned (result : ResultCode)
  deriving DecidableEq, Repr

/-- Visible operations; `recorded` and `lifecycleRecorded` are the two ways in
which the diagnostics record changes its health. -/
inductive Event
  | called
  | returned (result : ResultCode)
  | source (e : SourceEvent)
  | stopRequested
  | workerCreated
  | received (received : Received)
  | processed (frame : RawCanFrame) (result : ProcessStatus)
  | recorded (outcome : Outcome)
  | lifecycleRecorded
  | frameProcessed (frame : RawCanFrame) (result : ProcessStatus)
  | diagnosed (snapshot : TransportDiagnostics)
  | budgetPause
  | read (diagnostics : TransportDiagnostics)
  deriving DecidableEq

def Outcome.isFrame : Outcome → Bool
  | frame _ _ => true
  | _ => false

/-- A processor fault, a receive fault or a source that is not started. -/
def Outcome.terminal : Outcome → Bool
  | frame _ .fault | fault | notStarted => true
  | _ => false

/-! ## The diagnostics record -/

def TransportDiagnostics.count (d : TransportDiagnostics) : ProcessStatus → TransportDiagnostics
  | .processed => { d with framesProcessed := d.framesProcessed + 1 }
  | .ignored => { d with framesIgnored := d.framesIgnored + 1 }
  | .malformed => { d with framesMalformed := d.framesMalformed + 1 }
  | .fault =>
    { d with
      processorFaults := d.processorFaults + 1
      lifecycle := .faulted
      transport := .faulted }

namespace Runtime

def resetAcquisitionStatisticsCacheState (r : Runtime) : Runtime :=
  { r with acquisitionStatisticsCacheValid := false, acquisitionStatisticsSampleUs := 0 }

def acquisitionStatisticsRefreshDue (r : Runtime) (now : UInt64) : Bool :=
  !r.acquisitionStatisticsCacheValid ||
    elapsed now r.acquisitionStatisticsSampleUs kAcquisitionStatisticsRefreshIntervalUs

/-- One step of a refresh; no program point left means that it has returned. -/
def refreshStep (r : Runtime) (statistics : AcquisitionStatistics) :
    RefreshPc → Option (Runtime × Option RefreshPc)
  | .acquire now force =>
    if r.refreshing then none else some ({ r with refreshing := true }, some (.check now force))
  | .check now force =>
    if !force && !r.acquisitionStatisticsRefreshDue now then
      some ({ r with refreshing := false }, none)
    else some (r, some (.query now))
  | .query now => some (r, some (.store now statistics))
  | .store now statistics =>
    some ({ r with
      acquisitionStatisticsCache := statistics
      acquisitionStatisticsSampleUs := now
      acquisitionStatisticsCacheValid := true
      refreshing := false }, none)

def silenceDue (r : Runtime) (now : UInt64) : Bool :=
  r.diagnostics.hasLastFrame &&
    elapsed now r.diagnostics.lastFrameUs r.config.transportSilenceTimeoutUs

/-- Silence is evaluated only while the lifecycle is running. -/
def updateSilenceDiagnostic (r : Runtime) (now : UInt64) : Runtime :=
  if r.lifecycle = .running && r.silenceDue now then
    { r with diagnostics := { r.diagnostics with transport := .timedOut } }
  else r

/-- The part of `snapshot_and_update` under the diagnostics mutex. -/
def recordOutcome (r : Runtime) (outcome : Outcome) (time : UInt64) : Runtime :=
  let d := { r.diagnostics with acquisition := r.acquisitionStatisticsCache }
  match outcome with
  | .frame _ result =>
    let d := { d with transport := .live, hasLastFrame := true, lastFrameUs := time }
    { r with diagnostics := d.count result }
  | .timeout =>
    if !d.hasLastFrame then { r with diagnostics := { d with transport := .awaitingTraffic } }
    else { r with diagnostics := d }.updateSilenceDiagnostic time
  | .fault | .notStarted =>
    { r with diagnostics := { d with lifecycle := .faulted, transport := .faulted } }

/-- The part of `set_lifecycle_diagnostic` under the diagnostics mutex. -/
def writeLifecycleDiagnostic (r : Runtime) (lifecycle : LifecycleState)
    (transport : TransportHealth) : Runtime :=
  { r with diagnostics := { r.diagnostics with
      lifecycle := lifecycle
      transport := transport
      acquisition := r.acquisitionStatisticsCache } }

end Runtime

/-! ## Lifecycle operations -/

structure OperationInput where
  result : ResultCode := .ok
  supportsRetry : Bool := true
  ok : Bool := true
  now : UInt64 := 0
  statistics : AcquisitionStatistics := {}

def Ending.lifecycle (e : Ending) : LifecycleState := if e.cleaned then .stopped else .faulted

def Ending.transport (e : Ending) : TransportHealth := if e.cleaned then .stopped else .faulted

/-- The ending of an operation whose cleanup of the source has returned `cleanup`. -/
def Ending.of (cleanup result : ResultCode) (alwaysResets : Bool) : Ending where
  cleaned := cleanup = .ok
  resetsCache := alwaysResets || cleanup = .ok
  result := result

/-- What `stop()` returns after a cleanup that is not to be continued. -/
def stopResultOf (cleanup : ResultCode) : ResultCode :=
  if cleanup = .ok then .ok
  else if cleanup = .timeout || cleanup = .stopping then .timeout
  else .faulted

def afterSourceStop (cleanup : ResultCode) : Cleaner → OperationPc
  | .start result => .storeFinal (.of cleanup result false)
  | .stop =>
    if cleanup = .timeout || cleanup = .stopping then .finish .timeout else .awaitWorker cleanup
  | .destroy false => .joinWorker
  | .destroy true => .destroyed

def afterPartialCleanup (cleanup : ResultCode) : Cleaner → OperationPc
  | .start result => .storeFinal (.of cleanup result false)
  | .stop => .storeFinal (.of cleanup (stopResultOf cleanup) false)
  | .destroy false => .joinWorker
  | .destroy true => .destroyed

/-- The destructor cleans up what is owned. -/
def destroyBy (final : Bool) (otherwise : OperationPc) : SourceOwnership → OperationPc
  | .successfulStart => .attemptStop (.destroy final)
  | .partialStart => .cleanUp (.destroy final)
  | .none => otherwise

def AfterDiagnostic.pc : AfterDiagnostic → OperationPc
  | cleanUp => .cleanUp .stop
  | requestStop => .requestStop .stop
  | resetCache result => .resetCacheAtEnd result
  | finish result => .finish result

namespace Runtime

/-- The worker thread has ended, or has published that it is about to. -/
def workerGone (platform : Platform) (r : Runtime) : Bool :=
  match platform with
  | .host => r.worker.all WorkerPc.isFinished
  | .esp => !r.workerActive

/-- Joining a host thread leaves no thread behind. -/
def join (platform : Platform) (r : Runtime) : Runtime :=
  match platform with
  | .host => { r with worker := none }
  | .esp => r

end Runtime

def operationStep (platform : Platform) (r : Runtime) (input : OperationInput) :
    OperationPc → Option (Runtime × OperationPc × List Event)
  | .idle => none
  | .resetCache => some (r.resetAcquisitionStatisticsCacheState, .resetProcessor, [])
  | .resetProcessor => some (r, .askRetry, [])
  | .askRetry =>
    some ({ r with books := { r.books with stopRetrySupported := input.supportsRetry } },
      .callStart, [.source (.supportsStopRetry input.supportsRetry)])
  | .callStart => some (r, .awaitStart, [.source .start])
  | .awaitStart =>
    let es := [.source (.startReturned input.result)]
    if input.result = .ok then
      some ({ r with books := { r.books with
          started := true
          ownership := .successfulStart
          stopCalled := false
          stopResult := .ok } }, .clearStopRequested, es)
    else if startFailureMayOwnSource input.result then
      some ({ r with books := { r.books with
          started := true
          ownership := .partialStart
          partialCleanupAttempts := 0 } }, .cleanUp (.start input.result), es)
    else
      some ({ r with books := { r.books with stopRetrySupported := false } },
        .beginDiagnostic .stopped (if input.result = .faulted then .faulted else .stopped)
          (.finish input.result), es)
  | .clearStopRequested => some ({ r with stopRequested := false }, .setWorkerActive, [])
  | .setWorkerActive =>
    some ({ r with workerActive := true }, .refresh (.acquire input.now true), [])
  | .refresh pc =>
    (r.refreshStep input.statistics pc).map fun (r, pc) =>
      (r, pc.elim .resetDiagnostics .refresh, [])
  | .resetDiagnostics =>
    some ({ r with diagnostics := {
        lifecycle := .running
        transport := .awaitingTraffic
        acquisition := r.acquisitionStatisticsCache } }, .storeRunning, [.lifecycleRecorded])
  | .storeRunning => some ({ r with lifecycle := .running }, .createWorker, [])
  | .createWorker =>
    if input.ok then some ({ r with worker := some .begin }, .finish .ok, [.workerCreated])
    else some (r, .clearWorkerActive, [])
  | .clearWorkerActive =>
    some ({ r with workerActive := false }, .requestStop (.start .faulted), [])
  | .storeStopping next =>
    some ({ r with lifecycle := .stopping }, .beginDiagnostic .stopping .stopped next, [])
  | .awaitWorker result =>
    if r.workerGone platform then
      some (r.join platform, .storeFinal (.of result (stopResultOf result) true), [])
    else if platform = .esp ∧ !input.ok then
      some (r, .finish .timeout, [])
    else none
  | .requestStop caller =>
    some ({ r with stopRequested := true },
      match caller with
      | .destroy final => destroyBy final .joinWorker r.books.ownership
      | _ => .attemptStop caller, [.stopRequested])
  | .attemptStop caller =>
    match r.books.beginSourceStop with
    | .error result => some (r, afterSourceStop result caller, [])
    | .ok (books, call) =>
      some ({ r with books := books }, .awaitStop caller, [.source (.cleanup call)])
  | .awaitStop caller =>
    let (books, cleanup) := r.books.endSourceStop input.result
    some ({ r with books := books }, afterSourceStop cleanup caller,
      [.source (.cleanupReturned input.result)])
  | .cleanUp caller =>
    match r.books.beginPartialCleanup with
    | .error result => some (r, afterPartialCleanup result caller, [])
    | .ok (books, call) =>
      some ({ r with books := books }, .awaitCleanup caller, [.source (.cleanup call)])
  | .awaitCleanup caller =>
    let (books, cleanup) := r.books.endPartialCleanup input.result
    some ({ r with books := books }, afterPartialCleanup cleanup caller,
      [.source (.cleanupReturned input.result)])
  | .storeFinal e =>
    some ({ r with lifecycle := e.lifecycle },
      .beginDiagnostic e.lifecycle e.transport
        (if e.resetsCache then .resetCache e.result else .finish e.result), [])
  | .beginDiagnostic lifecycle transport next =>
    some (r, .refreshDiagnostic lifecycle transport next (.acquire input.now true), [])
  | .refreshDiagnostic lifecycle transport next pc =>
    (r.refreshStep input.statistics pc).map fun (r, pc) =>
      (r, pc.elim (.writeDiagnostic lifecycle transport next)
        (.refreshDiagnostic lifecycle transport next), [])
  | .writeDiagnostic lifecycle transport next =>
    some (r.writeLifecycleDiagnostic lifecycle transport, next.pc, [.lifecycleRecorded])
  | .resetCacheAtEnd result =>
    some (r.resetAcquisitionStatisticsCacheState, .finish result, [])
  | .finish result => some ({ r with operationActive := false }, .idle, [.returned result])
  | .joinWorker =>
    if r.workerGone platform then some (r.join platform, .retryCleanup, []) else none
  | .retryCleanup =>
    some (r,
      if r.books.stopRetrySupported && r.books.started then
        destroyBy true .destroyed r.books.ownership
      else .destroyed, [])
  | .destroyed => none

/-! ## The worker -/

/-- What the environment answers to the step of the worker; `now` is the clock
that the step samples. -/
structure WorkerInput where
  received : Received := .timeout
  result : ProcessStatus := .processed
  now : UInt64 := 0
  statistics : AcquisitionStatistics := {}

/-- `run_loop`, with `snapshot_and_update` and `budget_pause`. -/
def workerStep (r : Runtime) (input : WorkerInput) :
    WorkerPc → Option (Runtime × WorkerPc × List Event)
  | .begin => some (r, .loopHead (.begin input.now), [])
  | .loopHead budget => some (r, if r.stopRequested then .exiting else .receive budget, [])
  | .receive budget =>
    some (r, .received budget input.received input.now, [.received input.received])
  | .received budget received time =>
    if r.stopRequested then some (r, .batchDone budget .continue, [])
    else
      match received with
      | .frame frame => some (r, .process budget frame time, [])
      | .timeout =>
        some (r, .refresh budget .timeout input.now (.acquire input.now false), [])
      | .fault => some (r, .refresh budget .fault time (.acquire time true), [])
      | .notStarted => some (r, .refresh budget .notStarted time (.acquire time true), [])
  | .process budget frame time =>
    some (r, .refresh budget (.frame frame input.result) time
      (.acquire time (input.result = .fault)), [.processed frame input.result])
  | .refresh budget outcome time pc =>
    (r.refreshStep input.statistics pc).map fun (r, pc) =>
      (r, pc.elim (.record budget outcome time) (.refresh budget outcome time), [])
  | .record budget outcome time =>
    let r := r.recordOutcome outcome time
    some (r,
      match outcome with
      | .frame frame result => .onFrameProcessed budget frame result r.diagnostics
      | _ => .onDiagnostics budget outcome r.diagnostics, [.recorded outcome])
  | .onFrameProcessed budget frame result snapshot =>
    some (r, .onDiagnostics budget (.frame frame result) snapshot, [.frameProcessed frame result])
  | .onDiagnostics budget outcome snapshot =>
    some (r, if outcome.terminal then .storeFaulted budget outcome else .completed budget outcome,
      [.diagnosed snapshot])
  | .storeFaulted budget outcome =>
    some ({ r with lifecycle := .faulted }, .requestStop budget outcome, [])
  | .requestStop budget outcome =>
    some ({ r with stopRequested := true }, .completed budget outcome, [.stopRequested])
  | .completed budget outcome =>
    some (r, if r.stopRequested then .batchDone budget .continue else .afterReceive budget outcome,
      [])
  | .afterReceive budget outcome =>
    match budget.afterReceive r.config outcome.isFrame input.now with
    | (budget, .continue) => some (r, .receive budget, [])
    | (budget, action) => some (r, .batchDone budget action, [])
  | .batchDone budget action =>
    some (r, if r.stopRequested then .exiting else .checkpoint budget action, [])
  | .checkpoint budget action =>
    some (r.updateSilenceDiagnostic input.now,
      if action = .pause then .beginPause budget else .loopHead budget, [])
  | .beginPause budget =>
    some (r, if r.stopRequested then .exiting else .recordPause budget, [])
  | .recordPause budget =>
    some ({ r with diagnostics := { r.diagnostics with
        workBudgetPauses := r.diagnostics.workBudgetPauses + 1 } }, .pause budget, [.budgetPause])
  | .pause budget =>
    -- a stop request ends the pause early, otherwise the pause runs to its end
    some (r, if r.stopRequested then .exiting else .loopHead (budget.afterPause input.now), [])
  | .exiting => some ({ r with workerActive := false }, .finished, [])
  | .finished => none

/-! ## All threads together -/

inductive Action
  | configure (config : RuntimeConfig)
  | start
  | stop (byWorker : Bool)
  | destroy
  | operation (input : OperationInput)
  | worker (input : WorkerInput)
  | diagnostics (now : UInt64)

/-- Inside the destructor; the object must not be used any more. -/
def OperationPc.destroying : OperationPc → Bool
  | requestStop (.destroy _) | attemptStop (.destroy _) | awaitStop (.destroy _)
  | cleanUp (.destroy _) | awaitCleanup (.destroy _) | joinWorker | retryCleanup | destroyed => true
  | _ => false

namespace Runtime

/-- The lifecycle mutex excludes all operations but one; a rejected call returns at once. -/
def start (r : Runtime) : Runtime × List Event :=
  if !validConfig r.config then (r, [.called, .returned .invalidConfiguration])
  else if r.operationActive then (r, [.called, .returned .stopping])
  else if r.lifecycle ≠ .stopped then (r, [.called, .returned (lifecycleResult r.lifecycle)])
  else ({ r with operationActive := true, operation := .resetCache }, [.called])

def stop (r : Runtime) : Runtime × List Event :=
  if r.operationActive then (r, [.called, .returned .stopping])
  else if r.lifecycle = .stopped && !r.books.started then (r, [.called, .returned .notRunning])
  else if r.books.ownership = .partialStart then
    ({ r with operationActive := true, operation := .storeStopping .cleanUp }, [.called])
  else
    ({ r with
      operationActive := true
      operation := if r.lifecycle = .stopping then .beginDiagnostic .stopping .stopped .requestStop
        else .storeStopping .requestStop }, [.called])

def configure (r : Runtime) (config : RuntimeConfig) : Runtime × List Event :=
  if !validConfig config then (r, [.returned .invalidConfiguration])
  else if r.operationActive || r.lifecycle ≠ .stopped then (r, [.returned .invalidState])
  else ({ r with config := config }, [.returned .ok])

end Runtime

def step (platform : Platform) (r : Runtime) : Action → Option (Runtime × List Event)
  | .configure config => if r.operation.destroying then none else some (r.configure config)
  | .start => if r.operation.destroying then none else some r.start
  | .stop false => if r.operation.destroying then none else some r.stop
  | .stop true =>
    -- the worker may call from inside a callback, and is refused
    if !r.operation.destroying && r.worker.any (!·.isFinished) then
      some (r, [.called, .returned .invalidState])
    else none
  | .destroy =>
    match r.operation with
    | .idle => some ({ r with operation := .requestStop (.destroy false) }, [])
    | _ => none
  | .operation input =>
    (operationStep platform r input r.operation).map fun (r, pc, es) =>
      ({ r with operation := pc }, es)
  | .worker input =>
    r.worker.bind fun pc =>
      (workerStep r input pc).map fun (r, pc, es) => ({ r with worker := some pc }, es)
  | .diagnostics now =>
    if r.operation.destroying then none
    else
      let r := r.updateSilenceDiagnostic now
      some (r, [.read r.diagnostics])

theorem step_operation {platform : Platform} {r t : Runtime} {input : OperationInput}
    {es : List Event} (h : step platform r (.operation input) = some (t, es)) :
    ∃ r' pc, operationStep platform r input r.operation = some (r', pc, es) ∧
      t = { r' with operation := pc } := by
  simp only [step, Option.map_eq_some_iff, Prod.exists] at h
  obtain ⟨r', pc, es', hstep, heq⟩ := h
  cases heq
  exact ⟨r', pc, hstep, rfl⟩

theorem step_worker {platform : Platform} {r t : Runtime} {input : WorkerInput}
    {es : List Event} (h : step platform r (.worker input) = some (t, es)) :
    ∃ pc r' pc', r.worker = some pc ∧ workerStep r input pc = some (r', pc', es) ∧
      t = { r' with worker := some pc' } := by
  simp only [step, Option.bind_eq_some_iff, Option.map_eq_some_iff, Prod.exists] at h
  obtain ⟨pc, hpc, r', pc', es', hstep, heq⟩ := h
  cases heq
  exact ⟨pc, r', pc', hpc, hstep, rfl⟩

theorem step_diagnostics {platform : Platform} {r t : Runtime} {now : UInt64} {es : List Event}
    (h : step platform r (.diagnostics now) = some (t, es)) :
    r.operation.destroying = false ∧ t = r.updateSilenceDiagnostic now ∧
      es = [.read (r.updateSilenceDiagnostic now).diagnostics] := by
  simp only [step] at h
  split_ifs at h with husable
  cases h
  exact ⟨Bool.eq_false_iff.mpr husable, rfl, rfl⟩

inductive Stepped (platform : Platform) (r : Runtime) : Action → Runtime → List Event → Prop
  | configure {config config' : RuntimeConfig} {result : ResultCode}
    (usable : r.operation.destroying = false) (kept : r.lifecycle ≠ .stopped → config' = r.config) :
    Stepped platform r (.configure config) { r with config := config' } [.returned result]
  | refused {a : Action} {result : ResultCode} (usable : r.operation.destroying = false) :
    Stepped platform r a r [.called, .returned result]
  | start (free : r.operationActive = false) (stopped : r.lifecycle = .stopped)
    (usable : r.operation.destroying = false) (valid : validConfig r.config = true) :
    Stepped platform r .start { r with operationActive := true, operation := .resetCache } [.called]
  | stop {pc : OperationPc} (free : r.operationActive = false)
    (owned : r.lifecycle = .stopped → r.books.started = true)
    (usable : r.operation.destroying = false)
    (begins : (r.books.ownership = .partialStart ∧ pc = .storeStopping .cleanUp) ∨
      (r.books.ownership ≠ .partialStart ∧
        ((r.lifecycle = .stopping ∧ pc = .beginDiagnostic .stopping .stopped .requestStop) ∨
          (r.lifecycle ≠ .stopping ∧ pc = .storeStopping .requestStop)))) :
    Stepped platform r (.stop false) { r with operationActive := true, operation := pc } [.called]
  | destroy (idle : r.operation = .idle) :
    Stepped platform r .destroy { r with operation := .requestStop (.destroy false) } []
  | operation {input : OperationInput} {r' : Runtime} {pc : OperationPc} {es : List Event}
    (hstep : operationStep platform r input r.operation = some (r', pc, es)) :
    Stepped platform r (.operation input) { r' with operation := pc } es
  | worker {input : WorkerInput} {r' : Runtime} {pc pc' : WorkerPc} {es : List Event}
    (active : r.worker = some pc) (hstep : workerStep r input pc = some (r', pc', es)) :
    Stepped platform r (.worker input) { r' with worker := some pc' } es
  | read {now : UInt64} (usable : r.operation.destroying = false) :
    Stepped platform r (.diagnostics now) (r.updateSilenceDiagnostic now)
      [.read (r.updateSilenceDiagnostic now).diagnostics]

theorem step_cases {platform : Platform} {r t : Runtime} {a : Action} {es : List Event}
    (h : step platform r a = some (t, es)) : Stepped platform r a t es := by
  cases a with
  | configure config =>
    simp only [step, Runtime.configure] at h
    split_ifs at h with husable hvalid hbusy <;> cases h
    · exact .configure (Bool.eq_false_iff.mpr husable) fun _ => rfl
    · exact .configure (Bool.eq_false_iff.mpr husable) fun _ => rfl
    · refine .configure (Bool.eq_false_iff.mpr husable) fun hactive => ?_
      simp [hactive] at hbusy
  | start =>
    simp only [step, Runtime.start] at h
    split_ifs at h with husable hvalid hbusy hstate <;> cases h
    · exact .refused (Bool.eq_false_iff.mpr husable)
    · exact .refused (Bool.eq_false_iff.mpr husable)
    · exact .refused (Bool.eq_false_iff.mpr husable)
    · exact .start (Bool.eq_false_iff.mpr hbusy) (not_not.mp hstate)
        (Bool.eq_false_iff.mpr husable) (by simpa using hvalid)
  | stop byWorker =>
    cases byWorker with
    | false =>
      simp only [step, Runtime.stop] at h
      split_ifs at h with husable hbusy hidle hpartialStart hstopping <;> cases h
      · exact .refused (Bool.eq_false_iff.mpr husable)
      · exact .refused (Bool.eq_false_iff.mpr husable)
      · exact .stop (Bool.eq_false_iff.mpr hbusy) (by simpa using hidle)
          (Bool.eq_false_iff.mpr husable) (.inl ⟨hpartialStart, rfl⟩)
      · exact .stop (Bool.eq_false_iff.mpr hbusy) (by simpa using hidle)
          (Bool.eq_false_iff.mpr husable) (.inr ⟨hpartialStart, .inl ⟨hstopping, rfl⟩⟩)
      · exact .stop (Bool.eq_false_iff.mpr hbusy) (by simpa using hidle)
          (Bool.eq_false_iff.mpr husable) (.inr ⟨hpartialStart, .inr ⟨hstopping, rfl⟩⟩)
    | true =>
      simp only [step] at h
      split_ifs at h with hworker
      cases h
      simp only [Bool.and_eq_true, Bool.not_eq_true'] at hworker
      exact .refused hworker.1
  | destroy =>
    simp only [step] at h
    split at h <;> cases h
    exact .destroy ‹_›
  | operation input =>
    obtain ⟨r', pc, hstep, rfl⟩ := step_operation h
    exact .operation hstep
  | worker input =>
    obtain ⟨pc, r', pc', hpc, hstep, rfl⟩ := step_worker h
    exact .worker hpc hstep
  | diagnostics now =>
    obtain ⟨husable, rfl, rfl⟩ := step_diagnostics h
    exact .read husable

def machine (platform : Platform) : Machine Runtime Action Event := ⟨step platform⟩

end Telemetry
end VehicleCanCore

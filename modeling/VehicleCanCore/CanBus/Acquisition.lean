import VehicleCanCore.Automata.Semaphore
import VehicleCanCore.CanBus.FrameRing
import VehicleCanCore.CanBus.Lifecycle

/-!
# The process-wide acquisition: driver, receive tasks, lifecycle calls, consumer

The globals of the component and the condition of the TWAI driver are shared by
four kinds of parties: the serialized lifecycle calls `start` and `stop`, every
receive task created so far, the consumer's `receive` calls and statistics
observers. Each step is one atomic access, driver call or semaphore operation
of one party. Driver results, task creation, expired waits and spurious
compare-exchange failures are chosen by the schedule.
-/

namespace VehicleCanCore
namespace CanBus

open VehicleCanCore.Core Automata

def kQueueCapacity : ℕ := 64

/-- The production ring: `size_t` has 32 bits on the target. -/
def queueCapacity : FrameRing.Capacity 32 := ⟨kQueueCapacity, by decide, by decide⟩

inductive Result
  | ok
  | invalidConfiguration
  | alreadyStarted
  | notStarted
  | stopping
  | faulted
  | timeout
  | driverFailure
  | taskFailure
  deriving DecidableEq, Repr

structure Configuration where
  bitrateBps : UInt32 := 500000
  busId : UInt8 := 0
  deriving DecidableEq, Repr

def isConfigurationValid (configuration : Configuration) : Bool :=
  configuration.bitrateBps ∈ [125000, 250000, 500000, 1000000]

inductive Timing
  | kbits125
  | kbits250
  | kbits500
  | mbits1
  deriving DecidableEq, Repr

def timingFor (bitrateBps : UInt32) : Timing :=
  if bitrateBps = 125000 then .kbits125
  else if bitrateBps = 250000 then .kbits250
  else if bitrateBps = 500000 then .kbits500
  else if bitrateBps = 1000000 then .mbits1
  else .kbits500

/-- Ownership belongs to this startup attempt, not to a later lifecycle sample. -/
structure StartOutcome where
  result : Result
  cleanupRequired : Bool
  deriving DecidableEq, Repr

def counterDelta (current previous : BitVec 32) : BitVec 64 := (current - previous).setWidth 64

/-! ## The TWAI driver -/

inductive DriverState
  | notInstalled
  | stopped
  | running
  | busOff
  deriving DecidableEq, Repr

namespace DriverState

def installed (d : DriverState) : Bool := d ≠ notInstalled

/-- Started and not stopped since; a driver in bus-off has not been stopped. -/
def started (d : DriverState) : Bool := d = running ∨ d = busOff

end DriverState

inductive DriverCall
  | install (timing : Timing)
  | start
  | stop
  | uninstall
  deriving DecidableEq, Repr

namespace DriverCall

def target : DriverCall → DriverState
  | install _ => .stopped
  | start => .running
  | stop => .stopped
  | uninstall => .notInstalled

/-- The conditions in which ESP-IDF lets the call succeed. -/
def permitted : DriverCall → DriverState → Bool
  | install _, d => d = .notInstalled
  | start, d => d = .stopped
  | stop, d => d = .running
  | uninstall, d => d = .stopped ∨ d = .busOff

end DriverCall

structure TwaiMessage where
  identifier : UInt32 := 0
  extd : Bool := false
  rtr : Bool := false
  dataLengthCode : UInt8 := 0
  data : Vector UInt8 kCanClassicPayloadBytes := Vector.replicate kCanClassicPayloadBytes 0

structure DriverStatus where
  busErrorCount : BitVec 32 := 0
  rxMissedCount : BitVec 32 := 0
  rxOverrunCount : BitVec 32 := 0

inductive TwaiReceived
  | message (message : TwaiMessage) (time : UInt64)
  | timeout
  | error

/-- The outcome of the nonblocking alert poll; an alert word matters only
through its bus-off bit. -/
inductive TwaiAlerts
  | timeout
  | error
  | alerts (busOff : Bool)
  deriving DecidableEq, Repr

/-! ## Shared state -/

structure Shared where
  lifecycle : LifecycleController := {}
  driver : DriverState := .notInstalled
  frames : FrameRing.Memory queueCapacity := {}
  available : Option (Semaphore kQueueCapacity) := none
  taskStopped : Option (Semaphore 1) := none
  receiveRequested : Bool := false
  busId : UInt8 := 0
  hasStartedBefore : Bool := false
  lastDriverRxMissed : BitVec 32 := 0
  lastDriverRxOverrun : BitVec 32 := 0
  lastDriverBusErrors : BitVec 32 := 0

/-- Visible operations. A driver call records the condition it was made in. -/
inductive Event
  | driver (call : DriverCall) (before : DriverState) (ok : Bool)
  | twaiReceive (before : DriverState)
  | started (outcome : StartOutcome)
  | stopped (result : Result)
  | taskCreated
  | frameSignalled (ok : Bool)
  | faultSignalled (ok : Bool)
  | received (result : Result) (frame : Option RawCanFrame)
  | ring (e : FrameRing.Event)

namespace Shared

/-- A driver call whose outcome the schedule decides. -/
def drive (g : Shared) (call : DriverCall) (ok : Bool) : Shared :=
  if ok then { g with driver := call.target } else g

def takeAvailable (g : Shared) : Option Shared :=
  (g.available.bind Semaphore.take).map fun s => { g with available := some s }

def giveAvailable (g : Shared) : Shared :=
  { g with available := g.available.map fun s => s.give.1 }

def canSignal (g : Shared) : Bool := g.available.any fun s => s.give.2

def takeTaskStopped (g : Shared) : Option Shared :=
  (g.taskStopped.bind Semaphore.take).map fun s => { g with taskStopped := some s }

def giveTaskStopped (g : Shared) : Shared :=
  { g with taskStopped := g.taskStopped.map fun s => s.give.1 }

end Shared

/-! ## Lifecycle calls -/

/-- What follows `reconcile()` in the three places that call it. -/
inductive AfterReconcile
  | startFailed (driverUninstalled : Bool)
  | taskFailed (cleanupRequired : Bool)
  | stop (driverStopped taskStopped driverUninstalled : Bool)
  deriving DecidableEq, Repr

open LifecycleController in
/-- Program points of `start_with_ownership` up to `reconcile`, and of `stop` from
`beginStop` on. -/
inductive ControlPc
  | idle
  | beginStart (configuration : Configuration)
  | rejected
  | createAvailable (configuration : Configuration)
  | createTaskStopped (configuration : Configuration)
  | abortStart (result : Result) (pc : AbortPc)
  | drainAvailable (configuration : Configuration)
  | drainTaskStopped (configuration : Configuration)
  | install (configuration : Configuration)
  | markInstalled (configuration : Configuration)
  | twaiStart (configuration : Configuration)
  | uninstallAfterStart
  | markUninstalledAfterStart
  | markStarted (configuration : Configuration)
  | clearFrames (configuration : Configuration) (pc : FrameRing.ClearPc 32)
  | setBusId (configuration : Configuration)
  | recordControllerReset
  | resetBaselines
  | setRequested
  | markTaskCreated
  | createTask
  | startSucceeded
  | clearRequestedAfterTask
  | acknowledgeAfterTask
  | beginStopAfterTask (pc : CasPc stopSettled)
  | twaiStopAfterTask
  | markStoppedAfterTask
  | uninstallAfterTask
  | markUninstalledAfterTask
  | reconcile (next : AfterReconcile) (pc : ReconcilePc)
  | beginStop (pc : CasPc stopSettled)
  | clearRequested
  | readStarted
  | twaiStop
  | markStopped
  | readOwned (driverStopped : Bool)
  | waitTask (driverStopped : Bool)
  | acknowledgeTask (driverStopped : Bool)
  | tryTakeTask (driverStopped : Bool)
  | readInstalled (driverStopped taskStopped : Bool)
  | uninstall
  | markUninstalled
  | drain

def ControlPc.isIdle : ControlPc → Bool
  | idle => true
  | _ => false

theorem ControlPc.isIdle_iff {pc : ControlPc} : pc.isIdle = true ↔ pc = .idle := by
  cases pc <;> simp [isIdle]

/-- The refusal of `start_with_ownership` while another run owns the boundary. -/
def rejectedResult : LifecycleState → Result
  | .running => .alreadyStarted
  | .stopping => .stopping
  | .faulted => .faulted
  | .stopped => .notStarted

/-- What the caller of `reconcile()` does once it has returned. -/
def afterReconcile : AfterReconcile → ControlPc × List Event
  | .startFailed uninstalled => (.idle, [.started ⟨.driverFailure, !uninstalled⟩])
  | .taskFailed cleanupRequired => (.idle, [.started ⟨.taskFailure, cleanupRequired⟩])
  | .stop driverStopped taskStopped driverUninstalled =>
    if driverStopped && taskStopped && driverUninstalled then (.drain, [])
    else if !taskStopped then (.idle, [.stopped .taskFailure])
    else (.idle, [.stopped .driverFailure])

/-- The wait for the receive task ends with its token, or expires while there is
none. -/
def controlStep (g : Shared) (ok : Bool) : ControlPc → Option (Shared × ControlPc × List Event)
  | .idle => none
  | .beginStart configuration =>
    match g.lifecycle.beginStart with
    | some c => some ({ g with lifecycle := c }, .createAvailable configuration, [])
    | none => some (g, .rejected, [])
  | .rejected => some (g, .idle, [.started ⟨rejectedResult g.lifecycle.state, false⟩])
  | .createAvailable configuration =>
    let created := if ok then some Semaphore.empty else none
    some ({ g with available := g.available.or created }, .createTaskStopped configuration, [])
  | .createTaskStopped configuration =>
    let created := if ok then some Semaphore.empty else none
    let taskStopped := g.taskStopped.or created
    if g.available.isNone || taskStopped.isNone then
      some ({ g with taskStopped := taskStopped }, .abortStart .taskFailure .readInstalled, [])
    else some ({ g with taskStopped := taskStopped }, .drainAvailable configuration, [])
  | .abortStart result pc =>
    match g.lifecycle.abortStep pc with
    | (c, some pc) => some ({ g with lifecycle := c }, .abortStart result pc, [])
    | (c, none) => some ({ g with lifecycle := c }, .idle, [.started ⟨result, false⟩])
  | .drainAvailable configuration =>
    match g.takeAvailable with
    | some g => some (g, .drainAvailable configuration, [])
    | none => some (g, .drainTaskStopped configuration, [])
  | .drainTaskStopped configuration =>
    match g.takeTaskStopped with
    | some g => some (g, .drainTaskStopped configuration, [])
    | none => some (g, .install configuration, [])
  | .install configuration =>
    let call := .install (timingFor configuration.bitrateBps)
    some (g.drive call ok,
      if ok then .markInstalled configuration else .abortStart .driverFailure .readInstalled,
      [.driver call g.driver ok])
  | .markInstalled configuration =>
    some ({ g with lifecycle := g.lifecycle.markDriverInstalled }, .twaiStart configuration, [])
  | .twaiStart configuration =>
    some (g.drive .start ok, if ok then .markStarted configuration else .uninstallAfterStart,
      [.driver .start g.driver ok])
  | .uninstallAfterStart =>
    some (g.drive .uninstall ok,
      if ok then .markUninstalledAfterStart else .reconcile (.startFailed false) .readOwned,
      [.driver .uninstall g.driver ok])
  | .markUninstalledAfterStart =>
    some ({ g with lifecycle := g.lifecycle.markDriverUninstalled },
      .reconcile (.startFailed true) .readOwned, [])
  | .markStarted configuration =>
    some ({ g with lifecycle := g.lifecycle.markDriverStarted },
      .clearFrames configuration .loadHead, [])
  | .clearFrames configuration .done => some (g, .setBusId configuration, [])
  | .clearFrames configuration pc =>
    (FrameRing.clearStep g.frames (!ok) pc).map fun (m, pc, es) =>
      ({ g with frames := m }, .clearFrames configuration pc, es.map .ring)
  | .setBusId configuration =>
    some ({ g with busId := configuration.busId },
      if g.hasStartedBefore then .recordControllerReset else .resetBaselines, [])
  | .recordControllerReset =>
    some ({ g with frames := g.frames.fetchAdd .controllerResets 1 }, .resetBaselines,
      [.ring (.counted .controllerResets 1)])
  | .resetBaselines =>
    some ({ g with lastDriverBusErrors := 0, lastDriverRxMissed := 0, lastDriverRxOverrun := 0 },
      .setRequested, [])
  | .setRequested => some ({ g with receiveRequested := true }, .markTaskCreated, [])
  | .markTaskCreated =>
    some ({ g with lifecycle := g.lifecycle.markTaskCreated }, .createTask, [])
  | .createTask =>
    if ok then some (g, .startSucceeded, [.taskCreated])
    else some (g, .clearRequestedAfterTask, [])
  | .startSucceeded => some ({ g with hasStartedBefore := true }, .idle, [.started ⟨.ok, true⟩])
  | .clearRequestedAfterTask =>
    some ({ g with receiveRequested := false }, .acknowledgeAfterTask, [])
  | .acknowledgeAfterTask =>
    some ({ g with lifecycle := g.lifecycle.acknowledgeTask }, .beginStopAfterTask .load, [])
  | .beginStopAfterTask pc =>
    match g.lifecycle.beginStopStep (!ok) pc with
    | (c, .inl pc) => some ({ g with lifecycle := c }, .beginStopAfterTask pc, [])
    | (c, .inr _) => some ({ g with lifecycle := c }, .twaiStopAfterTask, [])
  | .twaiStopAfterTask =>
    some (g.drive .stop ok,
      if ok then .markStoppedAfterTask else .reconcile (.taskFailed true) .readOwned,
      [.driver .stop g.driver ok])
  | .markStoppedAfterTask =>
    some ({ g with lifecycle := g.lifecycle.markDriverStopped }, .uninstallAfterTask, [])
  | .uninstallAfterTask =>
    some (g.drive .uninstall ok,
      if ok then .markUninstalledAfterTask else .reconcile (.taskFailed true) .readOwned,
      [.driver .uninstall g.driver ok])
  | .markUninstalledAfterTask =>
    some ({ g with lifecycle := g.lifecycle.markDriverUninstalled },
      .reconcile (.taskFailed false) .readOwned, [])
  | .reconcile next pc =>
    match g.lifecycle.reconcileStep pc with
    | (c, some pc) => some ({ g with lifecycle := c }, .reconcile next pc, [])
    | (c, none) =>
      some ({ g with lifecycle := c }, (afterReconcile next).1, (afterReconcile next).2)
  | .beginStop pc =>
    match g.lifecycle.beginStopStep (!ok) pc with
    | (c, .inl pc) => some ({ g with lifecycle := c }, .beginStop pc, [])
    | (c, .inr true) => some ({ g with lifecycle := c }, .clearRequested, [])
    | (c, .inr false) => some ({ g with lifecycle := c }, .idle, [.stopped .notStarted])
  | .clearRequested => some ({ g with receiveRequested := false }, .readStarted, [])
  | .readStarted => some (g, if g.lifecycle.driverStarted then .twaiStop else .readOwned true, [])
  | .twaiStop =>
    some (g.drive .stop ok, if ok then .markStopped else .readOwned false,
      [.driver .stop g.driver ok])
  | .markStopped =>
    some ({ g with lifecycle := g.lifecycle.markDriverStopped }, .readOwned true, [])
  | .readOwned driverStopped =>
    some (g, if g.lifecycle.taskOwned then .waitTask driverStopped else .tryTakeTask driverStopped,
      [])
  | .waitTask driverStopped =>
    match g.takeTaskStopped with
    | some g => if ok then some (g, .acknowledgeTask driverStopped, []) else none
    | none => if ok then none else some (g, .readInstalled driverStopped false, [])
  | .acknowledgeTask driverStopped =>
    some ({ g with lifecycle := g.lifecycle.acknowledgeTask }, .readInstalled driverStopped true,
      [])
  | .tryTakeTask driverStopped =>
    some (g.takeTaskStopped.getD g, .readInstalled driverStopped true, [])
  | .readInstalled driverStopped taskStopped =>
    if driverStopped && taskStopped && g.lifecycle.driverInstalled then some (g, .uninstall, [])
    else
      some (g, .reconcile (.stop driverStopped taskStopped (!g.lifecycle.driverInstalled))
        .readOwned, [])
  | .uninstall =>
    some (g.drive .uninstall ok,
      if ok then .markUninstalled else .reconcile (.stop true true false) .readOwned,
      [.driver .uninstall g.driver ok])
  | .markUninstalled =>
    some ({ g with lifecycle := g.lifecycle.markDriverUninstalled },
      .reconcile (.stop true true true) .readOwned, [])
  | .drain =>
    match g.takeAvailable with
    | some g => some (g, .drain, [])
    | none => some (g, .idle, [.stopped .ok])

/-! ## The receive task -/

open LifecycleController in
inductive TaskPc
  | loopHead
  | receive
  | push (pc : FrameRing.PushPc 32)
  | giveAvailable
  | recordInvalid
  | readStatus
  | recordBusErrors (status : DriverStatus)
  | recordRxMissed (status : DriverStatus)
  | saveBaselines (status : DriverStatus)
  | readAlerts
  | recordBusOff
  | clearRequested
  | latchFault (pc : CasPc faultSettled)
  | giveFault
  | acknowledge
  | giveStopped
  | delete
  | deleted

structure TaskInput where
  received : TwaiReceived := .timeout
  status : Option DriverStatus := some {}
  alerts : TwaiAlerts := .timeout
  spurious : Bool := false

def frameOf (busId : UInt8) (time : UInt64) (message : TwaiMessage) : RawCanFrame where
  timestampUs := time
  busId := busId
  identifier := message.identifier
  identifierFormat := if message.extd then .extended else .standard
  remoteRequest := message.rtr
  dlc := message.dataLengthCode
  data := message.data

def taskStep (g : Shared) (input : TaskInput) : TaskPc → Option (Shared × TaskPc × List Event)
  | .loopHead => some (g, if g.receiveRequested then .receive else .acknowledge, [])
  | .receive =>
    match input.received with
    | .message message time =>
      let frame := frameOf g.busId time message
      some (g, if frame.isValid then .push (.countReceived frame) else .recordInvalid,
        [.twaiReceive g.driver])
    | .timeout => some (g, .readStatus, [.twaiReceive g.driver])
    | .error => some (g, .clearRequested, [.twaiReceive g.driver])
  | .push (.done accepted) => some (g, if accepted then .giveAvailable else .readStatus, [])
  | .push pc =>
    (FrameRing.pushStep g.frames input.spurious pc).map fun (m, pc, es) =>
      ({ g with frames := m }, .push pc, es.map .ring)
  | .giveAvailable => some (g.giveAvailable, .readStatus, [.frameSignalled g.canSignal])
  | .recordInvalid =>
    some ({ g with frames := g.frames.fetchAdd .driverRxMissed 1 }, .readStatus,
      [.ring (.counted .driverRxMissed 1)])
  | .readStatus =>
    match input.status with
    | some status => some (g, .recordBusErrors status, [])
    | none => some (g, .clearRequested, [])
  | .recordBusErrors status =>
    let count := counterDelta status.busErrorCount g.lastDriverBusErrors
    some ({ g with frames := g.frames.fetchAdd .busErrors count }, .recordRxMissed status,
      [.ring (.counted .busErrors count)])
  | .recordRxMissed status =>
    let count := counterDelta status.rxMissedCount g.lastDriverRxMissed +
      counterDelta status.rxOverrunCount g.lastDriverRxOverrun
    some ({ g with frames := g.frames.fetchAdd .driverRxMissed count }, .saveBaselines status,
      [.ring (.counted .driverRxMissed count)])
  | .saveBaselines status =>
    some ({ g with
      lastDriverBusErrors := status.busErrorCount
      lastDriverRxMissed := status.rxMissedCount
      lastDriverRxOverrun := status.rxOverrunCount }, .readAlerts, [])
  | .readAlerts =>
    match input.alerts with
    | .timeout | .alerts false => some (g, .loopHead, [])
    | .error => some (g, .clearRequested, [])
    | .alerts true => some (g, .recordBusOff, [])
  | .recordBusOff =>
    some ({ g with frames := g.frames.fetchAdd .busOffEvents 1 }, .clearRequested,
      [.ring (.counted .busOffEvents 1)])
  | .clearRequested => some ({ g with receiveRequested := false }, .latchFault .load, [])
  | .latchFault pc =>
    match g.lifecycle.latchFaultStep input.spurious pc with
    | (c, .inl pc) => some ({ g with lifecycle := c }, .latchFault pc, [])
    | (c, .inr latched) =>
      some ({ g with lifecycle := c },
        if latched && g.available.isSome then .giveFault else .acknowledge, [])
  | .giveFault => some (g.giveAvailable, .acknowledge, [.faultSignalled g.canSignal])
  | .acknowledge =>
    some ({ g with lifecycle := g.lifecycle.acknowledgeTask }, .giveStopped, [])
  | .giveStopped => some (g.giveTaskStopped, .delete, [])
  | .delete => some (g, .deleted, [])
  | .deleted => none

namespace TaskPc

/-- Still inside `while (g_receive_requested...)`, the fault latch included. -/
def InLoop : TaskPc → Prop
  | acknowledge | giveStopped | delete | deleted => False
  | _ => True

instance : DecidablePred InLoop := fun pc => by
  cases pc <;> simp only [InLoop] <;> infer_instance

end TaskPc

/-! ## The consumer -/

inductive ReceivePc
  | idle
  | enter (timeoutMs : UInt32)
  | wait (timeoutMs : UInt32)
  | expired
  | woken
  | pop (pc : FrameRing.PopPc 32)

def notRunningResult : LifecycleState → Option Result
  | .stopped => some .notStarted
  | .stopping => some .stopping
  | .faulted => some .faulted
  | .running => none

/-- A wait of any length ends with a token, or expires while there is none. -/
def receiveStep (g : Shared) (ok : Bool) : ReceivePc → Option (Shared × ReceivePc × List Event)
  | .idle => none
  | .enter timeoutMs =>
    match notRunningResult g.lifecycle.state with
    | some result => some (g, .idle, [.received result none])
    | none => some (g, .wait timeoutMs, [])
  | .wait _ =>
    match g.takeAvailable with
    | some g => if ok then some (g, .woken, []) else none
    | none => if g.available.isSome && !ok then some (g, .expired, []) else none
  | .expired =>
    some (g, .idle, [.received ((notRunningResult g.lifecycle.state).getD .timeout) none])
  | .woken =>
    match notRunningResult g.lifecycle.state with
    | some result => some (g, .idle, [.received result none])
    | none => some (g, .pop .loadTail, [])
  | .pop (.done (some frame)) => some (g, .idle, [.received .ok (some frame)])
  | .pop (.done none) => some (g, .idle, [.received .driverFailure none])
  | .pop pc =>
    (FrameRing.popStep g.frames pc).map fun (m, pc, es) =>
      ({ g with frames := m }, .pop pc, es.map .ring)

/-! ## All parties together -/

structure State where
  shared : Shared := {}
  control : ControlPc := .idle
  tasks : List TaskPc := []
  consumer : ReceivePc := .idle
  observers : ℕ → Option (FrameRing.SnapshotPc 32) := fun _ => none

inductive Action
  | start (configuration : Configuration)
  | stop
  | control (ok : Bool)
  | task (i : ℕ) (input : TaskInput)
  | receive (timeoutMs : UInt32)
  | consumer (ok : Bool)
  | beginSnapshot (i : ℕ) (operation : StatisticsOperation)
  | observer (i : ℕ) (spurious : Bool)
  | enterBusOff

/-- Calls are serialized: a new one begins only when none is in progress. -/
def Action.beginsCall : Action → Bool
  | start _ | stop => true
  | _ => false

namespace State

def setShared (s : State) (g : Shared) : State := { s with shared := g }

def setObserver (s : State) (i : ℕ) (pc : Option (FrameRing.SnapshotPc 32)) : State :=
  { s with observers := Function.update s.observers i pc }

variable (s : State)

@[simp] theorem setShared_shared (g : Shared) : (s.setShared g).shared = g := rfl
@[simp] theorem setShared_control (g : Shared) : (s.setShared g).control = s.control := rfl
@[simp] theorem setShared_tasks (g : Shared) : (s.setShared g).tasks = s.tasks := rfl
@[simp] theorem setShared_consumer (g : Shared) : (s.setShared g).consumer = s.consumer := rfl

@[simp] theorem setObserver_shared (i : ℕ) (pc : Option (FrameRing.SnapshotPc 32)) :
    (s.setObserver i pc).shared = s.shared := rfl
@[simp] theorem setObserver_control (i : ℕ) (pc : Option (FrameRing.SnapshotPc 32)) :
    (s.setObserver i pc).control = s.control := rfl
@[simp] theorem setObserver_tasks (i : ℕ) (pc : Option (FrameRing.SnapshotPc 32)) :
    (s.setObserver i pc).tasks = s.tasks := rfl
@[simp] theorem setObserver_consumer (i : ℕ) (pc : Option (FrameRing.SnapshotPc 32)) :
    (s.setObserver i pc).consumer = s.consumer := rfl

end State

/-- A successful `xTaskCreate` adds a task at the head of its loop. -/
def spawned (ok : Bool) : ControlPc → List TaskPc
  | .createTask => if ok then [.loopHead] else []
  | _ => []

def step (s : State) : Action → Option (State × List Event)
  | .start configuration =>
    match s.control with
    | .idle =>
      if isConfigurationValid configuration then
        some ({ s with control := .beginStart configuration }, [])
      else some (s, [.started ⟨.invalidConfiguration, false⟩])
    | _ => none
  | .stop =>
    match s.control with
    | .idle => some ({ s with control := .beginStop .load }, [])
    | _ => none
  | .control ok =>
    (controlStep s.shared ok s.control).map fun (g, pc, es) =>
      ({ s with shared := g, control := pc, tasks := s.tasks ++ spawned ok s.control }, es)
  | .task i input =>
    s.tasks[i]?.bind fun pc =>
      (taskStep s.shared input pc).map fun (g, pc, es) =>
        ({ s with shared := g, tasks := s.tasks.set i pc }, es)
  | .receive timeoutMs =>
    match s.consumer with
    | .idle => some ({ s with consumer := .enter timeoutMs }, [])
    | _ => none
  | .consumer ok =>
    (receiveStep s.shared ok s.consumer).map fun (g, pc, es) =>
      ({ s with shared := g, consumer := pc }, es)
  | .beginSnapshot i operation =>
    match s.observers i with
    | none => some (s.setObserver i (some (.depth operation .tailBefore)), [])
    | some _ => none
  | .observer i spurious =>
    match s.observers i with
    | none => none
    | some (.done operation result) =>
      some (s.setObserver i none, [.ring (.snapshotReturned operation result)])
    | some pc =>
      (FrameRing.snapshotStep s.shared.frames spurious pc).map fun (m, pc, es) =>
        ((s.setShared { s.shared with frames := m }).setObserver i (some pc), es.map .ring)
  | .enterBusOff =>
    if s.shared.driver = .running then some (s.setShared { s.shared with driver := .busOff }, [])
    else none

/-- The shapes of a step: which party moved, and what it did. -/
inductive Stepped (s : State) : Action → State → List Event → Prop
  | start {configuration : Configuration} (idle : s.control = .idle) :
    Stepped s (.start configuration) { s with control := .beginStart configuration } []
  | startInvalid {configuration : Configuration} (idle : s.control = .idle) :
    Stepped s (.start configuration) s [.started ⟨.invalidConfiguration, false⟩]
  | stop (idle : s.control = .idle) : Stepped s .stop { s with control := .beginStop .load } []
  | control {ok : Bool} {g : Shared} {pc : ControlPc} {es : List Event}
    (hstep : controlStep s.shared ok s.control = some (g, pc, es)) :
    Stepped s (.control ok)
      { s with shared := g, control := pc, tasks := s.tasks ++ spawned ok s.control } es
  | task {i : ℕ} {input : TaskInput} {pc pc' : TaskPc} {g : Shared} {es : List Event}
    (active : s.tasks[i]? = some pc) (hstep : taskStep s.shared input pc = some (g, pc', es)) :
    Stepped s (.task i input) { s with shared := g, tasks := s.tasks.set i pc' } es
  | receive {timeoutMs : UInt32} (idle : s.consumer = .idle) :
    Stepped s (.receive timeoutMs) { s with consumer := .enter timeoutMs } []
  | consumer {ok : Bool} {g : Shared} {pc : ReceivePc} {es : List Event}
    (hstep : receiveStep s.shared ok s.consumer = some (g, pc, es)) :
    Stepped s (.consumer ok) { s with shared := g, consumer := pc } es
  | beginSnapshot {i : ℕ} {operation : StatisticsOperation} (idle : s.observers i = none) :
    Stepped s (.beginSnapshot i operation)
      (s.setObserver i (some (.depth operation .tailBefore))) []
  | snapshot {i : ℕ} {spurious : Bool} {pc pc' : FrameRing.SnapshotPc 32}
    {m : FrameRing.Memory queueCapacity} {es : List FrameRing.Event}
    (active : s.observers i = some pc)
    (hstep : FrameRing.snapshotStep s.shared.frames spurious pc = some (m, pc', es)) :
    Stepped s (.observer i spurious)
      ((s.setShared { s.shared with frames := m }).setObserver i (some pc')) (es.map .ring)
  | returnSnapshot {i : ℕ} {spurious : Bool} {operation : StatisticsOperation}
    {result : Statistics} (active : s.observers i = some (.done operation result)) :
    Stepped s (.observer i spurious) (s.setObserver i none)
      [.ring (.snapshotReturned operation result)]
  | enterBusOff (running : s.shared.driver = .running) :
    Stepped s .enterBusOff (s.setShared { s.shared with driver := .busOff }) []

theorem step_cases {s t : State} {a : Action} {es : List Event} (h : step s a = some (t, es)) :
    Stepped s a t es := by
  cases a with
  | start configuration =>
    simp only [step] at h
    split at h
    · split_ifs at h <;> cases h
      · exact .start ‹_›
      · exact .startInvalid ‹_›
    · cases h
  | stop =>
    simp only [step] at h
    split at h <;> cases h
    exact .stop ‹_›
  | control ok =>
    simp only [step, Option.map_eq_some_iff, Prod.exists] at h
    obtain ⟨g, pc, es', hstep, heq⟩ := h
    cases heq
    exact .control hstep
  | task i input =>
    simp only [step, Option.bind_eq_some_iff, Option.map_eq_some_iff, Prod.exists] at h
    obtain ⟨pc, hpc, g, pc', es', hstep, heq⟩ := h
    cases heq
    exact .task hpc hstep
  | receive timeoutMs =>
    simp only [step] at h
    split at h <;> cases h
    exact .receive ‹_›
  | consumer ok =>
    simp only [step, Option.map_eq_some_iff, Prod.exists] at h
    obtain ⟨g, pc, es', hstep, heq⟩ := h
    cases heq
    exact .consumer hstep
  | beginSnapshot i operation =>
    simp only [step] at h
    split at h <;> cases h
    exact .beginSnapshot ‹_›
  | observer i spurious =>
    simp only [step] at h
    split at h
    · cases h
    · cases h
      exact .returnSnapshot ‹_›
    · simp only [Option.map_eq_some_iff, Prod.exists] at h
      obtain ⟨m, pc', es', hsnap, heq⟩ := h
      cases heq
      exact .snapshot ‹_› hsnap
  | enterBusOff =>
    simp only [step] at h
    split_ifs at h with hrunning
    cases h
    exact .enterBusOff hrunning

def machine : Machine State Action Event := ⟨step⟩

def boot : State := {}

end CanBus
end VehicleCanCore

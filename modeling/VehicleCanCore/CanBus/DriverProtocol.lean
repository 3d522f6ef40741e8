import VehicleCanCore.CanBus.Parties

/-!
# The driver call protocol and the ownership flags

Only the lifecycle calls touch the driver, so their program point determines
which part of it is owned. `ControlPc.Owned` says so point by point; receive
tasks, consumers and observers can at most release the task flag, latch a fault
in a lifecycle that is not stopped, and see the driver enter bus-off.
-/

namespace VehicleCanCore
namespace CanBus

open Automata LifecycleController Shared

/-! ## What the lifecycle calls own at each program point -/

namespace DriverState

@[simp] theorem installed_eq_true (d : DriverState) : d.installed = true ↔ d ≠ .notInstalled := by
  simp [installed]

@[simp] theorem started_eq_true (d : DriverState) :
    d.started = true ↔ d = .running ∨ d = .busOff := by
  simp [started]

end DriverState

namespace Shared

/-- The flags tell the driver's condition, and the controller is stopped exactly
when nothing is owned. -/
structure Settled (g : Shared) : Prop where
  installed : g.lifecycle.driverInstalled = g.driver.installed
  started : g.lifecycle.driverStarted = g.driver.started
  owned : g.lifecycle.taskOwned = true → g.driver ≠ .notInstalled
  stopped : g.lifecycle.state = .stopped ↔ g.driver = .notInstalled

/-- A point inside a call that has left the stopped state. -/
structure Stage (g : Shared) (condition : DriverState → Prop) (installed started : Bool) :
    Prop where
  driver : condition g.driver
  installed : g.lifecycle.driverInstalled = installed
  started : g.lifecycle.driverStarted = started
  active : g.lifecycle.state ≠ .stopped

def Unowned (g : Shared) : Prop := g.lifecycle.taskOwned = false

end Shared

/-- What is known when `reconcile()` runs, from the place it was called at. -/
def AfterReconcile.released : AfterReconcile → Bool
  | startFailed driverUninstalled => driverUninstalled
  | taskFailed cleanupRequired => !cleanupRequired
  | stop _ _ driverUninstalled => driverUninstalled

structure Reconciling (g : Shared) (next : AfterReconcile) : Prop where
  installed : g.lifecycle.driverInstalled = g.driver.installed
  started : g.lifecycle.driverStarted = g.driver.started
  owned : g.lifecycle.taskOwned = true → g.driver ≠ .notInstalled
  active : g.lifecycle.state ≠ .stopped
  released : next.released = true ↔ g.driver = .notInstalled

def ControlPc.Owned (g : Shared) : ControlPc → Prop
  | .idle | .beginStart _ | .rejected | .beginStop _ => g.Settled
  | .createAvailable _ | .createTaskStopped _ | .abortStart _ _ | .drainAvailable _
  | .drainTaskStopped _ | .install _ => Stage g (· = .notInstalled) false false ∧ Unowned g
  | .markInstalled _ => Stage g (· = .stopped) false false ∧ Unowned g
  | .twaiStart _ | .uninstallAfterStart | .uninstallAfterTask | .uninstall =>
    Stage g (· = .stopped) true false ∧ Unowned g
  | .markUninstalledAfterStart | .markUninstalledAfterTask | .markUninstalled =>
    Stage g (· = .notInstalled) true false ∧ Unowned g
  | .markStarted _ => Stage g (·.started) true false ∧ Unowned g
  | .clearFrames _ _ | .setBusId _ | .recordControllerReset | .resetBaselines | .setRequested
  | .markTaskCreated | .beginStopAfterTask _ | .twaiStopAfterTask =>
    Stage g (·.started) true true ∧ Unowned g
  | .createTask | .startSucceeded | .clearRequestedAfterTask | .acknowledgeAfterTask =>
    Stage g (·.started) true true
  | .markStoppedAfterTask => Stage g (· = .stopped) true true ∧ Unowned g
  | .reconcile next (.store target) =>
    Reconciling g next ∧ (target = .stopped ↔ g.driver = .notInstalled)
  | .reconcile next _ => Reconciling g next
  | .clearRequested | .readStarted => g.Settled ∧ g.lifecycle.state ≠ .stopped
  | .twaiStop => Stage g (·.started) true true
  | .markStopped => Stage g (· = .stopped) true true
  | .readOwned driverStopped | .waitTask driverStopped | .acknowledgeTask driverStopped =>
    g.Settled ∧ g.lifecycle.state ≠ .stopped ∧ (driverStopped = true → g.driver = .stopped)
  | .tryTakeTask driverStopped =>
    g.Settled ∧ g.lifecycle.state ≠ .stopped ∧ (driverStopped = true → g.driver = .stopped) ∧
      Unowned g
  | .readInstalled driverStopped taskStopped =>
    g.Settled ∧ g.lifecycle.state ≠ .stopped ∧ (driverStopped = true → g.driver = .stopped) ∧
      (taskStopped = true → Unowned g)
  | .drain => g.Settled ∧ g.lifecycle.state = .stopped

namespace Shared.Background

variable {g g' : Shared} (hb : g.Background g')
include hb

theorem notInstalled : g'.driver = .notInstalled ↔ g.driver = .notInstalled := by
  rcases hb.driver with h | ⟨h, h'⟩ <;> simp_all

theorem driver_stopped (h : g.driver = .stopped) : g'.driver = .stopped := by
  rcases hb.driver with h' | ⟨h', -⟩ <;> simp_all

theorem driver_started : g'.driver.started = g.driver.started := by
  rcases hb.driver with h | ⟨h, h'⟩ <;> simp_all [DriverState.started]

theorem driver_installed : g'.driver.installed = g.driver.installed := by
  rcases hb.driver with h | ⟨h, h'⟩ <;> simp_all [DriverState.installed]

theorem unowned (h : g.Unowned) : g'.Unowned := by
  rw [Unowned, Bool.eq_false_iff] at h ⊢
  exact fun howned => h (hb.owned howned)

theorem active (h : g.lifecycle.state ≠ .stopped) : g'.lifecycle.state ≠ .stopped :=
  fun hstopped => h (hb.stopped.mp hstopped)

theorem settled (h : g.Settled) : g'.Settled where
  installed := by rw [hb.installed, h.installed, hb.driver_installed]
  started := by rw [hb.started, h.started, hb.driver_started]
  owned howned := fun hnone => h.owned (hb.owned howned) (hb.notInstalled.mp hnone)
  stopped := by rw [hb.stopped, h.stopped, hb.notInstalled]

theorem reconciling {next : AfterReconcile} (h : Reconciling g next) : Reconciling g' next where
  installed := by rw [hb.installed, h.installed, hb.driver_installed]
  started := by rw [hb.started, h.started, hb.driver_started]
  owned howned := fun hnone => h.owned (hb.owned howned) (hb.notInstalled.mp hnone)
  active := hb.active h.active
  released := by rw [h.released, hb.notInstalled]

theorem stage {condition : DriverState → Prop} {installed started : Bool}
    (hcondition : condition g.driver → condition g'.driver)
    (h : Stage g condition installed started) : Stage g' condition installed started :=
  ⟨hcondition h.driver, hb.installed.trans h.installed, hb.started.trans h.started,
    hb.active h.active⟩

theorem owned_preserved {pc : ControlPc} (h : pc.Owned g) : pc.Owned g' := by
  have hnone : g.driver = .notInstalled → g'.driver = .notInstalled := hb.notInstalled.mpr
  have hstarted : g.driver.started → g'.driver.started := by rw [hb.driver_started]; exact id
  cases pc with
  | idle | beginStart | rejected | beginStop => exact hb.settled h
  | createAvailable | createTaskStopped | abortStart | drainAvailable | drainTaskStopped | install
  | markUninstalledAfterStart | markUninstalledAfterTask | markUninstalled =>
    exact ⟨hb.stage hnone h.1, hb.unowned h.2⟩
  | markInstalled | twaiStart | uninstallAfterStart | uninstallAfterTask | uninstall
  | markStoppedAfterTask => exact ⟨hb.stage hb.driver_stopped h.1, hb.unowned h.2⟩
  | markStarted | clearFrames | setBusId | recordControllerReset | resetBaselines | setRequested
  | markTaskCreated | beginStopAfterTask | twaiStopAfterTask =>
    exact ⟨hb.stage hstarted h.1, hb.unowned h.2⟩
  | createTask | startSucceeded | clearRequestedAfterTask | acknowledgeAfterTask | twaiStop =>
    exact hb.stage hstarted h
  | reconcile next pc =>
    cases pc with
    | store target => exact ⟨hb.reconciling h.1, by rw [h.2, hb.notInstalled]⟩
    | _ => exact hb.reconciling h
  | clearRequested | readStarted => exact ⟨hb.settled h.1, hb.active h.2⟩
  | markStopped => exact hb.stage hb.driver_stopped h
  | readOwned | waitTask | acknowledgeTask =>
    exact ⟨hb.settled h.1, hb.active h.2.1, fun hds => hb.driver_stopped (h.2.2 hds)⟩
  | tryTakeTask =>
    exact ⟨hb.settled h.1, hb.active h.2.1, fun hds => hb.driver_stopped (h.2.2.1 hds),
      hb.unowned h.2.2.2⟩
  | readInstalled =>
    exact ⟨hb.settled h.1, hb.active h.2.1, fun hds => hb.driver_stopped (h.2.2.1 hds),
      fun hts => hb.unowned (h.2.2.2 hts)⟩
  | drain => exact ⟨hb.settled h.1, hb.stopped.mpr h.2⟩

end Shared.Background

/-- The driver condition that the protocol prescribes for each call. -/
def DriverCall.InOrder : DriverCall → DriverState → Prop
  | install _, d => d.installed = false
  | start, d => d.installed = true ∧ d.started = false
  | stop, d => d.started = true
  | uninstall, d => d.installed = true ∧ d.started = false

def Event.InOrder : Event → Prop
  | .driver call before _ => call.InOrder before
  | _ => True

theorem Shared.Unowned.not_owned {g : Shared} (h : g.Unowned) : g.lifecycle.taskOwned ≠ true :=
  Bool.eq_false_iff.mp h

theorem Shared.Settled.reconciling {g : Shared} {next : AfterReconcile} (h : g.Settled)
    (hactive : g.lifecycle.state ≠ .stopped)
    (hreleased : next.released = true ↔ g.driver = .notInstalled) : Reconciling g next :=
  ⟨h.installed, h.started, h.owned, hactive, hreleased⟩

theorem Shared.Stage.reconciling {g : Shared} {next : AfterReconcile}
    (h : g.Stage (· = .stopped) true false) (hnext : next.released = false) :
    Reconciling g next := by
  have hstopped : g.driver = .stopped := h.driver
  refine ⟨h.installed.trans ?_, h.started.trans ?_, fun _ => ?_, h.active, ?_⟩
  · simp [hstopped]
  · simp [hstopped, DriverState.started]
  · simp [hstopped]
  · simp [hnext, hstopped]

theorem Shared.Stage.reconciling_uninstalled {g : Shared} {next : AfterReconcile}
    (h : g.Stage (· = .notInstalled) true false) (hunowned : g.Unowned)
    (hnext : next.released = true) :
    Reconciling { g with lifecycle := g.lifecycle.markDriverUninstalled } next := by
  have hnone : g.driver = .notInstalled := h.driver
  refine ⟨?_, h.started.trans ?_, fun howned => absurd howned hunowned.not_owned, h.active, ?_⟩
  · simp [markDriverUninstalled, hnone, DriverState.installed]
  · simp [hnone, DriverState.started]
  · simp [hnext, hnone]

theorem reconcile_owned {g g' : Shared} {next : AfterReconcile} {pc : ReconcilePc}
    {pc' : ControlPc} {es : List Event} {ok : Bool} (h : (ControlPc.reconcile next pc).Owned g)
    (hstep : controlStep g ok (.reconcile next pc) = some (g', pc', es)) :
    pc'.Owned g' ∧ ∀ e ∈ es, e.InOrder := by
  cases pc with
  | readOwned =>
    have hr : Reconciling g next := h
    cases hstep
    split
    · rename_i howned
      exact ⟨⟨hr, by simp [hr.owned howned]⟩, by simp⟩
    · exact ⟨hr, by simp⟩
  | readInstalled =>
    have hr : Reconciling g next := h
    cases hstep
    refine ⟨⟨hr, ?_⟩, by simp⟩
    cases hinstalled : g.driver.installed <;> simp_all [hr.installed, DriverState.installed]
  | store target =>
    obtain ⟨hr, htarget⟩ := h
    have hsettled :
        ({ g with lifecycle := { g.lifecycle with state := target } } : Shared).Settled :=
      ⟨hr.installed, hr.started, hr.owned, htarget⟩
    cases hstep
    cases next with
    | startFailed | taskFailed => exact ⟨hsettled, by simp [afterReconcile, Event.InOrder]⟩
    | stop driverStopped taskStopped driverUninstalled =>
      simp only [afterReconcile]
      split_ifs with hdone
      · simp only [Bool.and_eq_true] at hdone
        exact ⟨⟨hsettled, htarget.mpr (hr.released.mp hdone.2)⟩, by simp⟩
      all_goals exact ⟨hsettled, by simp [Event.InOrder]⟩

/-- Calls that have taken the driver out of the stopped state own the result. -/
theorem Shared.Stage.drive {g : Shared} {condition : DriverState → Prop}
    {installed started : Bool} (h : g.Stage condition installed started) (call : DriverCall) :
    (g.drive call true).Stage (· = call.target) installed started :=
  ⟨rfl, h.installed, h.started, h.active⟩

theorem Shared.Stage.congr {g g' : Shared} {condition : DriverState → Prop}
    {installed started : Bool} (h : g.Stage condition installed started)
    (hdriver : g'.driver = g.driver) (hlifecycle : g'.lifecycle = g.lifecycle) :
    g'.Stage condition installed started :=
  ⟨hdriver ▸ h.driver, hlifecycle ▸ h.installed, hlifecycle ▸ h.started, hlifecycle ▸ h.active⟩

theorem Shared.Settled.congr {g g' : Shared} (h : g.Settled) (hdriver : g'.driver = g.driver)
    (hlifecycle : g'.lifecycle = g.lifecycle) : g'.Settled := by
  obtain ⟨h1, h2, h3, h4⟩ := h
  rw [← hlifecycle, ← hdriver] at h1 h2 h3 h4
  exact ⟨h1, h2, h3, h4⟩

theorem Shared.Stage.settled {g : Shared} (h : g.Stage (·.started) true true) : g.Settled := by
  have hstarted := h.driver
  have hinstalled : g.driver ≠ .notInstalled := by
    rintro hnone
    simp [hnone] at hstarted
  exact ⟨by simp [h.installed, hinstalled], h.started.trans hstarted.symm, fun _ => hinstalled,
    by simp [h.active, hinstalled]⟩

theorem abortStart_owned {g g' : Shared} {result : Result} {pc : AbortPc} {pc' : ControlPc}
    {es : List Event} {ok : Bool} (h : (ControlPc.abortStart result pc).Owned g)
    (hstep : controlStep g ok (.abortStart result pc) = some (g', pc', es)) :
    pc'.Owned g' ∧ ∀ e ∈ es, e.InOrder := by
  obtain ⟨hstage, hunowned⟩ := h
  have hnone : g.driver = .notInstalled := hstage.driver
  cases pc with
  | readInstalled =>
    simp only [controlStep, abortStep, hstage.installed] at hstep
    cases hstep
    exact ⟨⟨hstage, hunowned⟩, by simp⟩
  | readOwned =>
    simp only [controlStep, abortStep, show g.lifecycle.taskOwned = false from hunowned] at hstep
    cases hstep
    exact ⟨⟨hstage, hunowned⟩, by simp⟩
  | store =>
    cases hstep
    refine ⟨⟨?_, ?_, fun howned => absurd howned hunowned.not_owned, by simp [hnone]⟩,
      by simp [Event.InOrder]⟩
    · exact hstage.installed.trans (by simp [hnone, DriverState.installed])
    · exact hstage.started.trans (by simp [hnone, DriverState.started])

/-- One step of a lifecycle call keeps what its program point owns, and calls
the driver only in the condition that the protocol prescribes. -/
theorem controlStep_owned {g g' : Shared} {ok : Bool} {pc pc' : ControlPc} {es : List Event}
    (h : pc.Owned g) (hstep : controlStep g ok pc = some (g', pc', es)) :
    pc'.Owned g' ∧ ∀ e ∈ es, e.InOrder := by
  cases pc with
  | idle => cases hstep
  | abortStart => exact abortStart_owned h hstep
  | reconcile => exact reconcile_owned h hstep
  | beginStart configuration =>
    simp only [controlStep] at hstep
    split at hstep <;> cases hstep
    · rename_i hbegin
      unfold beginStart at hbegin
      split_ifs at hbegin with hstopped
      cases hbegin
      have hnone := h.stopped.mp hstopped
      refine ⟨⟨⟨hnone, ?_, ?_, by simp⟩,
        Bool.eq_false_iff.mpr fun howned => h.owned howned hnone⟩, by simp⟩
      · exact h.installed.trans (by simp [hnone, DriverState.installed])
      · exact h.started.trans (by simp [hnone, DriverState.started])
    · exact ⟨h, by simp⟩
  | rejected =>
    cases hstep
    exact ⟨h, by simp [Event.InOrder]⟩
  | createAvailable =>
    cases hstep
    exact ⟨⟨h.1.congr rfl rfl, h.2⟩, by simp⟩
  | createTaskStopped =>
    simp only [controlStep] at hstep
    split_ifs at hstep <;> cases hstep <;> exact ⟨⟨h.1.congr rfl rfl, h.2⟩, by simp⟩
  | drainAvailable =>
    simp only [controlStep] at hstep
    split at hstep <;> cases hstep
    · obtain ⟨hdriver, hlifecycle, -⟩ := takeAvailable_eq_some ‹_›
      exact ⟨⟨h.1.congr hdriver hlifecycle, by rw [Unowned, hlifecycle]; exact h.2⟩, by simp⟩
    · exact ⟨h, by simp⟩
  | drainTaskStopped =>
    simp only [controlStep] at hstep
    split at hstep <;> cases hstep
    · obtain ⟨hdriver, hlifecycle, -⟩ := takeTaskStopped_eq_some ‹_›
      exact ⟨⟨h.1.congr hdriver hlifecycle, by rw [Unowned, hlifecycle]; exact h.2⟩, by simp⟩
    · exact ⟨h, by simp⟩
  | install configuration =>
    have hnone : g.driver = .notInstalled := h.1.driver
    cases ok <;> cases hstep
    · exact ⟨h, by simp [Event.InOrder, DriverCall.InOrder, DriverState.installed, hnone]⟩
    · exact ⟨⟨h.1.drive _, h.2⟩,
        by simp [Event.InOrder, DriverCall.InOrder, DriverState.installed, hnone]⟩
  | markInstalled =>
    cases hstep
    exact ⟨⟨⟨h.1.driver, rfl, h.1.started, h.1.active⟩, h.2⟩, by simp⟩
  | twaiStart =>
    have hstopped : g.driver = .stopped := h.1.driver
    cases ok <;> cases hstep
    · exact ⟨h, by simp [Event.InOrder, DriverCall.InOrder, hstopped, DriverState.started]⟩
    · refine ⟨⟨⟨?_, h.1.installed, h.1.started, h.1.active⟩, h.2⟩, ?_⟩
      · simp [Shared.drive, DriverCall.target]
      · simp [Event.InOrder, DriverCall.InOrder, hstopped, DriverState.started]
  | uninstallAfterStart | uninstallAfterTask | uninstall =>
    have hstopped : g.driver = .stopped := h.1.driver
    cases ok <;> cases hstep
    · exact ⟨h.1.reconciling rfl,
        by simp [Event.InOrder, DriverCall.InOrder, hstopped, DriverState.started]⟩
    · exact ⟨⟨h.1.drive .uninstall, h.2⟩,
        by simp [Event.InOrder, DriverCall.InOrder, hstopped, DriverState.started]⟩
  | markUninstalledAfterStart | markUninstalledAfterTask | markUninstalled =>
    cases hstep
    exact ⟨h.1.reconciling_uninstalled h.2 rfl, by simp⟩
  | markStarted =>
    cases hstep
    exact ⟨⟨⟨h.1.driver, h.1.installed, rfl, h.1.active⟩, h.2⟩, by simp⟩
  | clearFrames configuration pc =>
    cases pc with
    | done =>
      cases hstep
      exact ⟨h, by simp⟩
    | _ =>
      simp only [controlStep, Option.map_eq_some_iff, Prod.exists] at hstep
      obtain ⟨m, pc'', es', -, heq⟩ := hstep
      cases heq
      exact ⟨⟨h.1.congr rfl rfl, h.2⟩, by simp [Event.InOrder]⟩
  | setBusId =>
    simp only [controlStep] at hstep
    split_ifs at hstep <;> cases hstep <;> exact ⟨⟨h.1.congr rfl rfl, h.2⟩, by simp⟩
  | recordControllerReset | resetBaselines | setRequested =>
    cases hstep
    exact ⟨⟨h.1.congr rfl rfl, h.2⟩, by simp [Event.InOrder]⟩
  | markTaskCreated =>
    cases hstep
    exact ⟨⟨h.1.driver, h.1.installed, h.1.started, h.1.active⟩, by simp⟩
  | createTask =>
    cases ok <;> cases hstep <;> exact ⟨h.congr rfl rfl, by simp [Event.InOrder]⟩
  | startSucceeded =>
    cases hstep
    exact ⟨Settled.congr h.settled rfl rfl, by simp [Event.InOrder]⟩
  | clearRequestedAfterTask =>
    cases hstep
    exact ⟨h.congr rfl rfl, by simp⟩
  | acknowledgeAfterTask =>
    cases hstep
    exact ⟨⟨⟨h.driver, h.installed, h.started, h.active⟩, rfl⟩, by simp⟩
  | beginStopAfterTask pc =>
    simp only [controlStep] at hstep
    split at hstep <;> cases hstep <;>
    exact ⟨(beginStopStep_background ‹_›).owned_preserved h, by simp⟩
  | twaiStopAfterTask =>
    have hstarted := h.1.driver
    have hsettled := h.1.settled
    cases ok <;> cases hstep
    · refine ⟨hsettled.reconciling h.1.active ?_,
        by simpa [Event.InOrder, DriverCall.InOrder] using hstarted⟩
      simp [AfterReconcile.released, ← hsettled.stopped, h.1.active]
    · exact ⟨⟨h.1.drive .stop, h.2⟩, by simpa [Event.InOrder, DriverCall.InOrder] using hstarted⟩
  | markStoppedAfterTask =>
    cases hstep
    exact ⟨⟨⟨h.1.driver, h.1.installed, rfl, h.1.active⟩, h.2⟩, by simp⟩
  | beginStop pc =>
    simp only [controlStep] at hstep
    split at hstep <;> cases hstep
    · exact ⟨(beginStopStep_background ‹_›).settled h, by simp⟩
    · rename_i hbegin
      exact ⟨⟨(beginStopStep_background hbegin).settled h,
        by simp [(beginStopStep_spec hbegin).2.1 rfl]⟩, by simp⟩
    · exact ⟨(beginStopStep_background ‹_›).settled h, by simp [Event.InOrder]⟩
  | clearRequested =>
    cases hstep
    exact ⟨⟨⟨h.1.installed, h.1.started, h.1.owned, h.1.stopped⟩, h.2⟩, by simp⟩
  | readStarted =>
    obtain ⟨hsettled, hactive⟩ := h
    have hinstalled : g.driver ≠ .notInstalled := fun hnone => hactive (hsettled.stopped.mpr hnone)
    cases hstep
    refine ⟨?_, by simp⟩
    split
    · rename_i hstarted
      exact ⟨by rw [← hsettled.started, hstarted], by simp [hsettled.installed, hinstalled],
        hstarted, hactive⟩
    · rename_i hstarted
      refine ⟨hsettled, hactive, fun _ => ?_⟩
      rw [hsettled.started, DriverState.started_eq_true] at hstarted
      cases hdriver : g.driver <;> simp_all
  | twaiStop =>
    have hstarted := h.driver
    cases ok <;> cases hstep
    · exact ⟨⟨h.settled, h.active, by simp⟩,
        by simpa [Event.InOrder, DriverCall.InOrder] using hstarted⟩
    · exact ⟨h.drive .stop, by simpa [Event.InOrder, DriverCall.InOrder] using hstarted⟩
  | markStopped =>
    have hstopped : g.driver = .stopped := h.driver
    cases hstep
    refine ⟨⟨⟨?_, ?_, fun _ => ?_, ?_⟩, h.active, fun _ => hstopped⟩, by simp⟩
    · exact h.installed.trans (by simp [hstopped, DriverState.installed])
    · simp [markDriverStopped, hstopped, DriverState.started]
    · simp [hstopped]
    · simp [markDriverStopped, h.active, hstopped]
  | readOwned driverStopped =>
    cases hstep
    refine ⟨?_, by simp⟩
    split
    · exact h
    · exact ⟨h.1, h.2.1, h.2.2, Bool.eq_false_iff.mpr ‹_›⟩
  | waitTask =>
    simp only [controlStep] at hstep
    split at hstep <;> split_ifs at hstep <;> cases hstep
    · obtain ⟨hdriver, hlifecycle, -⟩ := takeTaskStopped_eq_some ‹_›
      exact ⟨⟨Settled.congr h.1 hdriver hlifecycle, by rw [hlifecycle]; exact h.2.1,
        by rw [hdriver]; exact h.2.2⟩, by simp⟩
    · exact ⟨⟨h.1, h.2.1, h.2.2, by simp⟩, by simp⟩
  | acknowledgeTask =>
    cases hstep
    refine ⟨⟨⟨h.1.installed, h.1.started, ?_, h.1.stopped⟩, h.2.1, h.2.2, fun _ => rfl⟩, by simp⟩
    simp [LifecycleController.acknowledgeTask]
  | tryTakeTask =>
    cases hstep
    refine ⟨?_, by simp⟩
    cases htake : g.takeTaskStopped with
    | none => exact ⟨h.1, h.2.1, h.2.2.1, fun _ => h.2.2.2⟩
    | some g' =>
      obtain ⟨hdriver, hlifecycle, -⟩ := takeTaskStopped_eq_some htake
      simp only [Option.getD_some]
      refine ⟨Settled.congr h.1 hdriver hlifecycle, ?_, ?_, fun _ => ?_⟩
      · rw [hlifecycle]
        exact h.2.1
      · rw [hdriver]
        exact h.2.2.1
      · rw [Unowned, hlifecycle]
        exact h.2.2.2
  | readInstalled driverStopped taskStopped =>
    simp only [controlStep] at hstep
    obtain ⟨hsettled, hactive, hds, hts⟩ := h
    split_ifs at hstep with hall <;> cases hstep
    · simp only [Bool.and_eq_true] at hall
      have hstopped := hds hall.1.1
      refine ⟨⟨⟨hstopped, hall.2, ?_, hactive⟩, hts hall.1.2⟩, by simp⟩
      simp [hsettled.started, hstopped, DriverState.started]
    · refine ⟨hsettled.reconciling hactive ?_, by simp⟩
      simp [AfterReconcile.released, hsettled.installed, DriverState.installed]
  | drain =>
    simp only [controlStep] at hstep
    split at hstep <;> cases hstep
    · obtain ⟨hdriver, hlifecycle, -⟩ := takeAvailable_eq_some ‹_›
      exact ⟨⟨Settled.congr h.1 hdriver hlifecycle, by rw [hlifecycle]; exact h.2⟩, by simp⟩
    · exact ⟨h.1, by simp [Event.InOrder]⟩

/-! ## Runs -/

theorem step_owned {s t : State} {a : Action} {es : List Event} (h : s.control.Owned s.shared)
    (hstep : step s a = some (t, es)) : t.control.Owned t.shared ∧ ∀ e ∈ es, e.InOrder := by
  rcases (step_cases hstep).control_cases with
    ⟨-, hidle, hshared, hbegin⟩ | ⟨ok, -, hcontrol⟩ | ⟨hcontrol, hbackground, hevents⟩
  · rw [hidle] at h
    rw [hshared]
    rcases hbegin with ⟨configuration, hpc, rfl⟩ | ⟨hpc, rfl⟩ | ⟨hpc, rfl⟩ <;>
      exact ⟨by rw [hpc]; exact h, by simp [Event.InOrder]⟩
  · exact controlStep_owned h hcontrol
  · refine ⟨by rw [hcontrol]; exact hbackground.owned_preserved h, fun e he => ?_⟩
    have hcontrol := hevents e he
    cases e with
    | driver => simp [Event.ofControl] at hcontrol
    | _ => trivial

theorem boot_owned : boot.control.Owned boot.shared :=
  ⟨by decide, by decide, by decide, by decide⟩

theorem reachable_owned {s : State} (h : machine.Reachable boot s) : s.control.Owned s.shared :=
  machine.reachable_invariant boot_owned (fun _ _ _ _ hs hstep => (step_owned hs hstep).1) h

theorem reachable_settled {s : State} (h : machine.Reachable boot s) (hidle : s.control = .idle) :
    s.shared.Settled := by
  have howned := reachable_owned h
  rwa [hidle] at howned

/-! ## One call of `start_with_ownership` -/

def Event.installedDriver : Event → Bool
  | .driver (.install _) _ true => true
  | _ => false

def ControlPc.startInstalled : ControlPc → Option Bool
  | beginStart _ | rejected | createAvailable _ | createTaskStopped _ | abortStart _ _
  | drainAvailable _ | drainTaskStopped _ | install _ => some false
  | markInstalled _ | twaiStart _ | uninstallAfterStart | markUninstalledAfterStart
  | markStarted _ | clearFrames _ _ | setBusId _ | recordControllerReset | resetBaselines
  | setRequested | markTaskCreated | createTask | startSucceeded | clearRequestedAfterTask
  | acknowledgeAfterTask | beginStopAfterTask _ | twaiStopAfterTask | markStoppedAfterTask
  | uninstallAfterTask | markUninstalledAfterTask | reconcile (.startFailed _) _
  | reconcile (.taskFailed _) _ => some true
  | _ => none

theorem controlStep_start {g g' : Shared} {ok b : Bool} {pc pc' : ControlPc} {es : List Event}
    (howned : pc.Owned g) (hb : pc.startInstalled = some b)
    (hstep : controlStep g ok pc = some (g', pc', es)) :
    (pc'.startInstalled = some (b || es.any Event.installedDriver) ∧ ∀ o, .started o ∉ es) ∨
      (pc' = .idle ∧ ∃ o, es = [.started o] ∧
        (o.cleanupRequired = true ↔ b = true ∧ g'.driver ≠ .notInstalled)) := by
  cases pc with
  | rejected =>
    cases hb
    cases hstep
    exact .inr ⟨rfl, _, rfl, by simp⟩
  | abortStart result pc =>
    cases hb
    simp only [controlStep] at hstep
    split at hstep <;> cases hstep
    · exact .inl ⟨rfl, by simp⟩
    · exact .inr ⟨rfl, _, rfl, by simp⟩
  | startSucceeded =>
    cases hb
    cases hstep
    exact .inr ⟨rfl, _, rfl, by simpa [← howned.settled.stopped] using howned.active⟩
  | reconcile next pc =>
    cases pc with
    | store target =>
      have hreleased := howned.1.released.not
      cases hstep
      cases next <;> cases hb <;>
        exact .inr ⟨rfl, _, rfl, by simpa [AfterReconcile.released] using hreleased⟩
    | _ =>
      cases hstep
      cases next <;> cases hb <;> exact .inl ⟨rfl, by simp⟩
  | beginStart | drainAvailable | drainTaskStopped | beginStopAfterTask =>
    cases hb
    simp only [controlStep] at hstep
    split at hstep <;> cases hstep <;> exact .inl ⟨rfl, by simp⟩
  | createTaskStopped | setBusId =>
    cases hb
    simp only [controlStep] at hstep
    split_ifs at hstep <;> cases hstep <;> exact .inl ⟨rfl, by simp⟩
  | clearFrames configuration pc =>
    cases hb
    cases pc with
    | done =>
      cases hstep
      exact .inl ⟨rfl, by simp⟩
    | _ =>
      simp only [controlStep, Option.map_eq_some_iff, Prod.exists] at hstep
      obtain ⟨m, pc'', es', -, heq⟩ := hstep
      cases heq
      exact .inl ⟨rfl, by simp⟩
  | createAvailable | markInstalled | markUninstalledAfterStart | markStarted
  | recordControllerReset | resetBaselines | setRequested | markTaskCreated
  | clearRequestedAfterTask | acknowledgeAfterTask | markStoppedAfterTask
  | markUninstalledAfterTask =>
    cases hb
    cases hstep
    exact .inl ⟨rfl, by simp⟩
  | install | twaiStart | uninstallAfterStart | createTask | twaiStopAfterTask
  | uninstallAfterTask =>
    cases hb
    cases ok <;> cases hstep <;> exact .inl ⟨rfl, by simp⟩
  | _ => cases hb

/-- The account of one `start` call: it is under way and has not returned, or it
has returned with a verdict about what it installed. -/
def StartAccount (h : List Event) (s : State) : Prop :=
  (s.control.startInstalled = some (h.any Event.installedDriver) ∧ ∀ o, .started o ∉ h) ∨
    (s.control = .idle ∧ ∀ o, .started o ∈ h →
      (o.cleanupRequired = true ↔ h.any Event.installedDriver ∧ s.shared.driver ≠ .notInstalled))

theorem step_startAccount {h es : List Event} {s t : State} {a : Action}
    (howned : s.control.Owned s.shared) (hacc : StartAccount h s) (ha : a.beginsCall = false)
    (hstep : step s a = some (t, es)) : StartAccount (h ++ es) t := by
  rcases (step_cases hstep).control_cases with
    ⟨hbegins, -⟩ | ⟨ok, -, hcontrol⟩ | ⟨hpc, hback, hevents⟩
  · simp [ha] at hbegins
  · rcases hacc with ⟨hb, hno⟩ | ⟨hidle, -⟩
    · rcases controlStep_start howned hb hcontrol with ⟨hb', hno'⟩ | ⟨hidle, o, rfl, hverdict⟩
      · refine .inl ⟨by simpa using hb', fun o ho => ?_⟩
        rcases List.mem_append.mp ho with ho | ho
        · exact hno o ho
        · exact hno' o ho
      · refine .inr ⟨hidle, fun o' ho' => ?_⟩
        obtain rfl : o' = o := by simpa [hno] using ho'
        simpa [Event.installedDriver] using hverdict
    · simp [hidle, controlStep] at hcontrol
  · have hnone : es.any Event.installedDriver = false := by
      refine List.any_eq_false.mpr fun e he => ?_
      have := hevents e he
      cases e <;> simp_all [Event.ofControl, Event.installedDriver]
    have hquiet : ∀ o, Event.started o ∉ es := by
      intro o ho
      simpa [Event.ofControl] using hevents _ ho
    simpa [StartAccount, hnone, hquiet, hpc, hback.notInstalled] using hacc

theorem run_startAccount {s t : State} {configuration : Configuration} {as : List Action}
    {es : List Event} (hs : machine.Reachable boot s) (hidle : s.control = .idle)
    (has : ∀ a ∈ as, a.beginsCall = false)
    (hrun : machine.run s (.start configuration :: as) = some (t, es)) : StartAccount es t := by
  obtain ⟨u, fs, gs, hu, htail, rfl⟩ := machine.run_cons.mp hrun
  replace hu : step s (.start configuration) = some (u, fs) := hu
  have howned := reachable_owned hs
  have hbegun : StartAccount fs u := by
    cases step_cases hu with
    | start => exact .inl ⟨rfl, by simp⟩
    | startInvalid => exact .inr ⟨hidle, by simp [Event.installedDriver]⟩
  refine (machine.run_invariant_along (C := fun _ a => a.beginsCall = false)
    (I := fun h s => s.control.Owned s.shared ∧ StartAccount h s)
    (fun h s a t es hI ha hstep => ?_) ⟨(step_owned howned hu).1, hbegun⟩
    (Machine.along_of_forall has) htail).2
  exact ⟨(step_owned hI.1 hstep).1, step_startAccount hI.1 hI.2 ha hstep⟩

/-! ### Starts while the boundary is not stopped -/

def Event.ofDriver : Event → Bool
  | .driver .. => true
  | _ => false

theorem rejectedResult_mem {state : LifecycleState} (h : state ≠ .stopped) :
    rejectedResult state ∈
      [Result.invalidConfiguration, .alreadyStarted, .stopping, .faulted] := by
  cases state <;> simp_all [rejectedResult]

/-- The account of a `start` call made while the boundary is owned. -/
def RefusalAccount (h : List Event) (s : State) : Prop :=
  s.shared.lifecycle.state ≠ .stopped ∧
    (s.control = .idle ∨ s.control = .rejected ∨
      ∃ configuration, s.control = .beginStart configuration) ∧
    ∀ e ∈ h, e.ofDriver = false ∧ ∀ o, e = .started o → o.cleanupRequired = false ∧
      o.result ∈ [Result.invalidConfiguration, .alreadyStarted, .stopping, .faulted]

theorem step_refusalAccount {h es : List Event} {s t : State} {a : Action}
    (hacc : RefusalAccount h s) (ha : a.beginsCall = false)
    (hstep : step s a = some (t, es)) : RefusalAccount (h ++ es) t := by
  obtain ⟨hactive, hpc, hevents⟩ := hacc
  rcases (step_cases hstep).control_cases with
    ⟨hbegins, -⟩ | ⟨ok, -, hcontrol⟩ | ⟨hsame, hback, hquiet⟩
  · simp [ha] at hbegins
  · rcases hpc with hpc | hpc | ⟨configuration, hpc⟩ <;> rw [hpc] at hcontrol
    · cases hcontrol
    · simp only [controlStep, Option.some.injEq, Prod.mk.injEq] at hcontrol
      obtain ⟨hshared, hidle, rfl⟩ := hcontrol
      refine ⟨hshared ▸ hactive, .inl hidle.symm, fun e he => ?_⟩
      rcases List.mem_append.mp he with he | he
      · exact hevents e he
      · obtain rfl := List.mem_singleton.mp he
        refine ⟨rfl, fun o ho => ?_⟩
        cases ho
        exact ⟨rfl, rejectedResult_mem hactive⟩
    · simp only [controlStep, beginStart, hactive, if_false, Option.some.injEq,
        Prod.mk.injEq] at hcontrol
      obtain ⟨hshared, hrejected, rfl⟩ := hcontrol
      exact ⟨hshared ▸ hactive, .inr (.inl hrejected.symm), by simpa using hevents⟩
  · refine ⟨hback.active hactive, by rwa [hsame], fun e he => ?_⟩
    rcases List.mem_append.mp he with he | he
    · exact hevents e he
    · have hcontrol := hquiet e he
      cases e <;> simp_all [Event.ofControl, Event.ofDriver]

theorem run_refusalAccount {s t : State} {configuration : Configuration} {as : List Action}
    {es : List Event} (hactive : s.shared.lifecycle.state ≠ .stopped)
    (has : ∀ a ∈ as, a.beginsCall = false)
    (hrun : machine.run s (.start configuration :: as) = some (t, es)) : RefusalAccount es t := by
  obtain ⟨u, fs, gs, hu, htail, rfl⟩ := machine.run_cons.mp hrun
  replace hu : step s (.start configuration) = some (u, fs) := hu
  have hbegun : RefusalAccount fs u := by
    cases step_cases hu with
    | start => exact ⟨hactive, .inr (.inr ⟨_, rfl⟩), by simp⟩
    | startInvalid idle => exact ⟨hactive, .inl idle, by simp [Event.ofDriver]⟩
  exact machine.run_invariant_along (C := fun _ a => a.beginsCall = false)
    (fun h s a t es => step_refusalAccount) hbegun (Machine.along_of_forall has) htail

/-- A valid start request on an owned boundary returns after two accesses. -/
theorem run_refused {s : State} {configuration : Configuration} (hidle : s.control = .idle)
    (hactive : s.shared.lifecycle.state ≠ .stopped) (hvalid : isConfigurationValid configuration)
    (ok ok' : Bool) :
    machine.run s [.start configuration, .control ok, .control ok'] =
      some (s, [.started ⟨rejectedResult s.shared.lifecycle.state, false⟩]) := by
  obtain ⟨g, pc, tasks, consumer, observers⟩ := s
  obtain rfl : pc = .idle := hidle
  simp [Machine.run, machine, step, controlStep, beginStart, hactive, hvalid, spawned]

/-- The verdict of a `start` call on what it leaves to clean up, as seen from
the state `t` in which its events `es` end. -/
def ReportsOwnership (es : List Event) (t : State) : Prop :=
  ∀ o, .started o ∈ es → (o.cleanupRequired = true ↔
    es.any Event.installedDriver ∧ t.shared.driver.installed = true)

/-- No driver call, and no outcome but a refusal that leaves nothing to clean up. -/
def RefusesStart (es : List Event) : Prop :=
  ∀ e ∈ es, e.ofDriver = false ∧ ∀ o, e = .started o → o.cleanupRequired = false ∧
    o.result ∈ [Result.invalidConfiguration, .alreadyStarted, .stopping, .faulted]

/-- The driver call protocol and the agreement of the ownership flags with the
driver, over every run of lifecycle calls, receive tasks, consumer and observers. -/
theorem driver_protocol {s : State} {as : List Action} {es : List Event}
    (hrun : machine.run boot as = some (s, es)) :
    (∀ e ∈ es, e.InOrder) ∧
      (s.control = .idle →
        s.shared.lifecycle.driverInstalled = s.shared.driver.installed ∧
        s.shared.lifecycle.driverStarted = s.shared.driver.started ∧
        (s.shared.lifecycle.state = .stopped ↔
          s.shared.driver.installed = false ∧ s.shared.lifecycle.taskOwned = false) ∧
        ∀ configuration,
          (∀ bs t fs, (∀ a ∈ bs, a.beginsCall = false) →
            machine.run s (.start configuration :: bs) = some (t, fs) →
            ReportsOwnership fs t ∧
              (s.shared.lifecycle.state ≠ .stopped → RefusesStart fs)) ∧
          (s.shared.lifecycle.state ≠ .stopped → isConfigurationValid configuration →
            ∀ ok ok', machine.run s [.start configuration, .control ok, .control ok'] =
              some (s, [.started ⟨rejectedResult s.shared.lifecycle.state, false⟩]))) := by
  have hs : machine.Reachable boot s := ⟨as, es, hrun⟩
  refine ⟨machine.run_events (fun _ _ _ _ hI hstep => step_owned hI hstep) boot_owned hrun,
    fun hidle => ?_⟩
  have hsettled := reachable_settled hs hidle
  refine ⟨hsettled.installed, hsettled.started, ?_, fun configuration =>
    ⟨fun bs t fs hbs hstart => ⟨?_, ?_⟩, fun hactive hvalid ok ok' =>
      run_refused hidle hactive hvalid ok ok'⟩⟩
  · have howned := hsettled.owned
    rw [hsettled.stopped]
    cases hdriver : s.shared.driver <;> simp_all [DriverState.installed]
  · rcases run_startAccount hs hidle hbs hstart with ⟨-, hno⟩ | ⟨-, hverdict⟩
    · exact fun o ho => absurd ho (hno o)
    · intro o ho
      simpa using hverdict o ho
  · intro hactive
    exact (run_refusalAccount hactive hbs hstart).2.2

def failedStartSchedule : List Action :=
  .start {} :: (List.replicate 7 true ++ [false, false] ++ List.replicate 3 true).map .control

theorem driver_protocol_failed_start : ∃ s es,
    machine.run boot failedStartSchedule = some (s, es) ∧ s.shared.driver = .stopped ∧
      s.shared.lifecycle.driverInstalled = s.shared.driver.installed ∧ ∀ e ∈ es, e.InOrder := by
  have hobserved : (machine.run boot failedStartSchedule).map (fun p =>
      (p.1.control.isIdle, p.1.shared.driver)) = some (true, .stopped) := by decide
  obtain ⟨⟨s, es⟩, hrun, heq⟩ := Option.map_eq_some_iff.mp hobserved
  simp only [Prod.mk.injEq] at heq
  obtain ⟨horder, hagree⟩ := driver_protocol hrun
  exact ⟨s, es, hrun, heq.2, (hagree (ControlPc.isIdle_iff.mp heq.1)).1, horder⟩

end CanBus
end VehicleCanCore

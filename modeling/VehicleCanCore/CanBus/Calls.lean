import VehicleCanCore.CanBus.DriverProtocol

/-!
# Lifecycle calls as their callers see them

A caller only sees whether its call has returned, what it returned, and whether
the controller is stopped. The program points of the lifecycle calls are sorted
by what they still owe the caller, and every step either keeps a call in its
phase or returns from it with a result that tells the controller's state.
-/

namespace VehicleCanCore
namespace CanBus

open Automata LifecycleController

/-- A `start` call is entering until `begin_start()` has decided about it. -/
inductive CallPhase
  | idle
  | entering
  | starting
  | stopping
  deriving DecidableEq, Repr

def CallPhase.undecided : CallPhase → Bool
  | idle | entering => true
  | _ => false

def ControlPc.phase : ControlPc → CallPhase
  | idle => .idle
  | beginStart _ | rejected => .entering
  | beginStop _ | clearRequested | readStarted | twaiStop | markStopped | readOwned _
  | waitTask _ | acknowledgeTask _ | tryTakeTask _ | readInstalled _ _ | uninstall
  | markUninstalled | drain | reconcile (.stop _ _ _) _ => .stopping
  | _ => .starting

theorem ControlPc.idle_of_phase {pc : ControlPc} (h : pc.phase = .idle) : pc = .idle := by
  cases pc with
  | reconcile next pc => cases next <;> cases h
  | _ => first | rfl | cases h

/-- A rejection stands as long as it is not reported, an aborted start is a
failure, and an uninstalled driver means that the earlier parts of `stop`
succeeded. -/
def ControlPc.Coherent (g : Shared) : ControlPc → Prop
  | rejected => g.lifecycle.state ≠ .stopped
  | abortStart result _ => result ≠ .ok
  | reconcile (.stop driverStopped taskStopped driverUninstalled) _ =>
    driverUninstalled = true → driverStopped = true ∧ taskStopped = true
  | _ => True

def Event.returns : Event → Bool
  | .started _ | .stopped _ => true
  | _ => false

theorem Event.not_returns_of_quiet {e : Event} (h : e.ofControl = false) : e.returns = false := by
  cases e <;> simp_all [ofControl, returns]

/-- What a `start` call reports, against the condition it leaves behind. -/
structure StartOutcome.Reports (o : StartOutcome) (g : Shared) : Prop where
  owned : o.cleanupRequired = true ↔ g.lifecycle.state ≠ .stopped
  accepted : o.result = .ok → o.cleanupRequired = true
  retained : o.cleanupRequired = true → o.result ≠ .alreadyStarted ∧
    o.result ≠ .invalidConfiguration

/-- A failed `stop` leaves the controller owned; the two other results leave it
stopped. -/
def Result.ReportsStop (r : Result) (g : Shared) : Prop :=
  r = .ok ∨ r = .notStarted ↔ g.lifecycle.state = .stopped

/-- A step of the call in progress, as its caller sees it. -/
inductive Progress (g g' : Shared) : CallPhase → CallPhase → List Event → Prop
  | within {phase : CallPhase} {es : List Event} (quiet : ∀ e ∈ es, e.returns = false)
    (undecided : phase.undecided = true →
      (g'.lifecycle.state = .stopped ↔ g.lifecycle.state = .stopped)) :
    Progress g g' phase phase es
  | accepted (free : g.lifecycle.state = .stopped) : Progress g g' .entering .starting []
  | refused {o : StartOutcome} (same : g' = g) (active : g.lifecycle.state ≠ .stopped)
    (result : o = ⟨rejectedResult g.lifecycle.state, false⟩) :
    Progress g g' .entering .idle [.started o]
  | started {o : StartOutcome} (reports : o.Reports g') : Progress g g' .starting .idle [.started o]
  | stopped {r : Result} (reports : r.ReportsStop g') : Progress g g' .stopping .idle [.stopped r]

theorem Progress.busy {g g' : Shared} {phase : CallPhase} {es : List Event}
    (hbusy : phase.undecided = false) (quiet : ∀ e ∈ es, e.returns = false) :
    Progress g g' phase phase es := by
  refine .within quiet ?_
  intro hundecided
  simp [hbusy] at hundecided

theorem reconcile_progress {g g' : Shared} {ok : Bool} {next : AfterReconcile} {pc : ReconcilePc}
    {pc' : ControlPc} {es : List Event} (howned : (ControlPc.reconcile next pc).Owned g)
    (hcoherent : (ControlPc.reconcile next pc).Coherent g)
    (h : controlStep g ok (.reconcile next pc) = some (g', pc', es)) :
    pc'.Coherent g' ∧ Progress g g' (ControlPc.reconcile next pc).phase pc'.phase es := by
  cases pc with
  | readOwned | readInstalled =>
    cases h
    cases next with
    | stop => exact ⟨hcoherent, .busy rfl (by simp)⟩
    | _ => exact ⟨trivial, .busy rfl (by simp)⟩
  | store target =>
    obtain ⟨hr, htarget⟩ := howned
    have hreleased := hr.released
    cases h
    cases next with
    | startFailed uninstalled =>
      refine ⟨trivial, .started ⟨?_, by simp, by simp⟩⟩
      simpa [AfterReconcile.released, htarget] using hreleased.not
    | taskFailed cleanupRequired =>
      refine ⟨trivial, .started ⟨?_, by simp, by simp⟩⟩
      simpa [AfterReconcile.released, htarget] using hreleased.not
    | stop driverStopped taskStopped driverUninstalled =>
      have hkept : driverUninstalled = false → target ≠ .stopped := fun hfalse => by
        rw [Ne, htarget, ← hreleased]
        simp [AfterReconcile.released, hfalse]
      simp only [afterReconcile]
      split_ifs with hdone htask
      · exact ⟨trivial, .busy rfl (by simp)⟩
      · refine ⟨trivial, .stopped ?_⟩
        have := hcoherent
        cases driverUninstalled <;> simp_all [Result.ReportsStop, ControlPc.Coherent]
      · refine ⟨trivial, .stopped ?_⟩
        have := hcoherent
        cases driverUninstalled <;> simp_all [Result.ReportsStop, ControlPc.Coherent]

theorem controlStep_phase {g g' : Shared} {ok : Bool} {pc pc' : ControlPc} {es : List Event}
    (howned : pc.Owned g) (hcoherent : pc.Coherent g)
    (h : controlStep g ok pc = some (g', pc', es)) :
    pc'.Coherent g' ∧ Progress g g' pc.phase pc'.phase es := by
  cases pc with
  | idle => cases h
  | reconcile next pc => exact reconcile_progress howned hcoherent h
  | beginStart configuration =>
    simp only [controlStep] at h
    split at h <;> rename_i hbegin <;> cases h
    · refine ⟨trivial, .accepted ?_⟩
      unfold beginStart at hbegin
      split_ifs at hbegin with hfree
      exact hfree
    · refine ⟨?_, .within (by simp) fun _ => Iff.rfl⟩
      unfold beginStart at hbegin
      split_ifs at hbegin with hfree
      exact hfree
  | rejected =>
    cases h
    exact ⟨trivial, .refused rfl hcoherent rfl⟩
  | abortStart result pc =>
    obtain ⟨hstage, hunowned⟩ := howned
    simp only [controlStep] at h
    cases pc with
    | readInstalled =>
      simp only [abortStep, hstage.installed, Bool.false_eq_true, if_false] at h
      cases h
      exact ⟨hcoherent, .busy rfl (by simp)⟩
    | readOwned =>
      simp only [abortStep, Bool.eq_false_iff.mpr hunowned.not_owned, Bool.false_eq_true,
        if_false] at h
      cases h
      exact ⟨hcoherent, .busy rfl (by simp)⟩
    | store =>
      cases h
      exact ⟨trivial, .started ⟨by simp, fun hok => absurd hok hcoherent, by simp⟩⟩
  | startSucceeded =>
    cases h
    exact ⟨trivial, .started ⟨by simpa using howned.active, fun _ => rfl, by simp⟩⟩
  | drain =>
    simp only [controlStep] at h
    split at h <;> cases h
    · exact ⟨trivial, .busy rfl (by simp)⟩
    · exact ⟨trivial, .stopped (by simpa [Result.ReportsStop] using howned.2)⟩
  | beginStop pc =>
    simp only [controlStep] at h
    split at h <;> rename_i hbegin <;> cases h
    · exact ⟨trivial, .busy rfl (by simp)⟩
    · exact ⟨trivial, .busy rfl (by simp)⟩
    · exact ⟨trivial, .stopped (by
        simpa [Result.ReportsStop] using (beginStopStep_spec hbegin).2.2 rfl)⟩
  | createTaskStopped | setBusId | readStarted | readOwned =>
    simp only [controlStep] at h
    split_ifs at h <;> cases h <;> exact ⟨by simp [ControlPc.Coherent], .busy rfl (by simp)⟩
  | drainAvailable | drainTaskStopped | beginStopAfterTask =>
    simp only [controlStep] at h
    split at h <;> cases h <;> exact ⟨trivial, .busy rfl (by simp)⟩
  | waitTask =>
    simp only [controlStep] at h
    split at h <;> split_ifs at h <;> cases h <;> exact ⟨trivial, .busy rfl (by simp)⟩
  | clearFrames configuration pc =>
    cases pc with
    | done =>
      cases h
      exact ⟨trivial, .busy rfl (by simp)⟩
    | _ =>
      simp only [controlStep, Option.map_eq_some_iff, Prod.exists] at h
      obtain ⟨m, pc'', es', -, heq⟩ := h
      cases heq
      exact ⟨trivial, .busy rfl (by simp [Event.returns])⟩
  | readInstalled driverStopped taskStopped =>
    obtain ⟨hsettled, hactive, -⟩ := howned
    have hinstalled : g.lifecycle.driverInstalled = true := by
      rw [hsettled.installed, DriverState.installed_eq_true]
      exact fun hnone => hactive (hsettled.stopped.mpr hnone)
    simp only [controlStep, hinstalled] at h
    split_ifs at h <;> cases h
    · exact ⟨trivial, .busy rfl (by simp)⟩
    · exact ⟨by simp [ControlPc.Coherent], .busy rfl (by simp)⟩
  | install | twaiStart | uninstallAfterStart | createTask | twaiStopAfterTask
  | uninstallAfterTask | twaiStop | uninstall =>
    cases ok <;> cases h <;>
      exact ⟨by simp [ControlPc.Coherent], .busy rfl (by simp [Event.returns])⟩
  | _ =>
    cases h
    exact ⟨by simp [ControlPc.Coherent], .busy rfl (by simp [Event.returns])⟩

theorem Shared.Background.coherent {g g' : Shared} (hb : g.Background g') {pc : ControlPc}
    (h : pc.Coherent g) : pc.Coherent g' := by
  cases pc with
  | rejected => exact hb.active h
  | reconcile next pc => cases next <;> exact h
  | _ => exact h

/-- What a caller may rely on while it has no other way to look. -/
structure State.Sound (s : State) : Prop where
  owned : s.control.Owned s.shared
  coherent : s.control.Coherent s.shared

theorem boot_sound : boot.Sound := ⟨boot_owned, trivial⟩

theorem step_progress {s t : State} {a : Action} {es : List Event} (hs : s.Sound)
    (ha : a.beginsCall = false) (h : step s a = some (t, es)) :
    t.Sound ∧ Progress s.shared t.shared s.control.phase t.control.phase es := by
  have howned := (step_owned hs.owned h).1
  rcases (step_cases h).control_cases with
    ⟨hbegins, -⟩ | ⟨ok, -, hcontrol⟩ | ⟨hpc, hback, hquiet⟩
  · simp [ha] at hbegins
  · obtain ⟨hcoherent, hprogress⟩ := controlStep_phase hs.owned hs.coherent hcontrol
    exact ⟨⟨howned, hcoherent⟩, hprogress⟩
  · rw [hpc]
    refine ⟨⟨howned, hpc ▸ hback.coherent hs.coherent⟩, .within ?_ fun _ => hback.stopped⟩
    exact fun e he => Event.not_returns_of_quiet (hquiet e he)

theorem step_start {s t : State} {configuration : Configuration} {es : List Event} (hs : s.Sound)
    (h : step s (.start configuration) = some (t, es)) :
    t.Sound ∧ s.control = .idle ∧ t.shared = s.shared ∧
      ((t.control.phase = .entering ∧ es = []) ∨
        (t.control = .idle ∧ es = [.started ⟨.invalidConfiguration, false⟩])) := by
  have howned := (step_owned hs.owned h).1
  cases step_cases h with
  | start idle => exact ⟨⟨howned, trivial⟩, idle, rfl, .inl ⟨rfl, rfl⟩⟩
  | startInvalid idle => exact ⟨hs, idle, rfl, .inr ⟨idle, rfl⟩⟩

theorem step_stopCall {s t : State} {es : List Event} (hs : s.Sound)
    (h : step s .stop = some (t, es)) :
    t.Sound ∧ s.control = .idle ∧ t.shared = s.shared ∧ t.control.phase = .stopping ∧ es = [] := by
  have howned := (step_owned hs.owned h).1
  cases step_cases h with
  | stop idle => exact ⟨⟨howned, trivial⟩, idle, rfl, rfl, rfl⟩

theorem step_sound {s t : State} {a : Action} {es : List Event} (hs : s.Sound)
    (hstep : step s a = some (t, es)) : t.Sound := by
  cases hbegins : a.beginsCall with
  | false => exact (step_progress hs hbegins hstep).1
  | true =>
    cases a with
    | start => exact (step_start hs hstep).1
    | stop => exact (step_stopCall hs hstep).1
    | _ => cases hbegins

theorem reachable_sound {s : State} (h : machine.Reachable boot s) : s.Sound :=
  machine.reachable_invariant boot_sound (fun _ _ _ _ hs hstep => step_sound hs hstep) h

/-- Between calls nothing is returned, and the controller neither stops nor leaves
the stopped state. -/
theorem Progress.of_idle {g g' : Shared} {phase : CallPhase} {es : List Event}
    (h : Progress g g' .idle phase es) :
    phase = .idle ∧ (g'.lifecycle.state = .stopped ↔ g.lifecycle.state = .stopped) := by
  cases h with
  | within quiet undecided => exact ⟨rfl, undecided rfl⟩

end CanBus
end VehicleCanCore

import VehicleCanCore.CanBus.FrameQueue
import VehicleCanCore.CanBus.Wakeup

/-!
# When an acquisition runs

Only an accepted start makes the acquisition running, and inside an interval only
its receive task ends that, by latching a fault.
-/

namespace VehicleCanCore
namespace CanBus

open LifecycleController

def State.latches (s : State) (a : Action) : Bool :=
  match a with
  | .task _ _ => s.shared.lifecycle.state ≠ .faulted &&
      (step s a).any fun p => p.1.shared.lifecycle.state = .faulted
  | _ => false

/-- `reconcile()` never makes the controller running. -/
def ControlPc.Reconciles : ControlPc → Prop
  | reconcile _ (.store target) => target ≠ .running
  | _ => True

theorem controlStep_running {g g' : Shared} {ok : Bool} {pc pc' : ControlPc} {es : List Event}
    (hpc : pc.Reconciles) (h : controlStep g ok pc = some (g', pc', es)) :
    pc'.Reconciles ∧ (g'.lifecycle.state = .running → g.lifecycle.state = .running ∨
      ((∃ configuration, pc = .beginStart configuration) ∧ g.lifecycle.state = .stopped)) := by
  cases pc with
  | idle => cases h
  | beginStart configuration =>
    simp only [controlStep, beginStart] at h
    split at h <;> cases h
    · rename_i hbegin
      split_ifs at hbegin with hstopped
      exact ⟨trivial, fun _ => .inr ⟨⟨_, rfl⟩, hstopped⟩⟩
    · exact ⟨trivial, .inl⟩
  | abortStart result pc =>
    cases pc with
    | store =>
      cases h
      exact ⟨trivial, fun hrunning => by cases hrunning⟩
    | readInstalled | readOwned =>
      simp only [controlStep, abortStep] at h
      split at h <;> rename_i hread <;> cases h <;> simp only [Prod.mk.injEq] at hread <;>
        obtain ⟨rfl, -⟩ := hread <;> exact ⟨trivial, .inl⟩
  | reconcile next pc =>
    cases pc with
    | readOwned | readInstalled =>
      cases h
      refine ⟨?_, .inl⟩
      simp only [ControlPc.Reconciles]
      split_ifs <;> simp
    | store target =>
      cases h
      refine ⟨?_, fun hrunning => absurd hrunning hpc⟩
      cases next with
      | stop =>
        simp only [afterReconcile]
        split_ifs <;> trivial
      | _ => trivial
  | beginStopAfterTask | beginStop =>
    simp only [controlStep, beginStopStep] at h
    split at h <;> rename_i hcas <;> cases h <;> refine ⟨trivial, fun hrunning => ?_⟩ <;>
      rcases casStep_cases hcas with ⟨rfl, -⟩ | ⟨-, rfl, -⟩ <;>
      first | exact .inl hrunning | cases hrunning
  | drainAvailable | drain =>
    simp only [controlStep] at h
    split at h <;> cases h
    · obtain ⟨-, hlifecycle, -⟩ := Shared.takeAvailable_eq_some ‹_›
      exact ⟨trivial, fun hrunning => .inl (by rwa [hlifecycle] at hrunning)⟩
    · exact ⟨trivial, .inl⟩
  | drainTaskStopped =>
    simp only [controlStep] at h
    split at h <;> cases h
    · have hsame := (takeTaskStopped_sameTraffic ‹_›).state
      exact ⟨trivial, fun hrunning => .inl (hsame ▸ hrunning)⟩
    · exact ⟨trivial, .inl⟩
  | createTaskStopped | createTask =>
    simp only [controlStep] at h
    split_ifs at h <;> cases h <;> exact ⟨trivial, .inl⟩
  | clearFrames configuration pc =>
    cases pc with
    | done =>
      cases h
      exact ⟨trivial, .inl⟩
    | _ =>
      simp only [controlStep, Option.map_eq_some_iff, Prod.exists] at h
      obtain ⟨_, _, _, -, heq⟩ := h
      cases heq
      exact ⟨trivial, .inl⟩
  | waitTask =>
    simp only [controlStep] at h
    split at h <;> split_ifs at h <;> cases h
    · have hsame := (takeTaskStopped_sameTraffic ‹_›).state
      exact ⟨trivial, fun hrunning => .inl (hsame ▸ hrunning)⟩
    · exact ⟨trivial, .inl⟩
  | tryTakeTask =>
    cases h
    refine ⟨trivial, fun hrunning => .inl ?_⟩
    cases htake : g.takeTaskStopped with
    | none => simpa [htake] using hrunning
    | some g' =>
      have hsame := (takeTaskStopped_sameTraffic htake).state
      simpa [htake, hsame] using hrunning
  | install | twaiStart | uninstallAfterStart | twaiStopAfterTask | uninstallAfterTask | twaiStop
  | uninstall =>
    cases ok <;> cases h <;> exact ⟨trivial, .inl⟩
  | setBusId | readStarted | readOwned | readInstalled =>
    simp only [controlStep] at h
    split_ifs at h <;> cases h <;> exact ⟨trivial, .inl⟩
  | _ =>
    cases h
    exact ⟨trivial, .inl⟩

theorem taskStep_running {g g' : Shared} {input : TaskInput} {pc pc' : TaskPc} {es : List Event}
    (h : taskStep g input pc = some (g', pc', es)) (hrunning : g'.lifecycle.state = .running) :
    g.lifecycle.state = .running := by
  cases pc with
  | latchFault pc =>
    simp only [taskStep, latchFaultStep] at h
    split at h <;> rename_i hcas <;> cases h <;>
      rcases casStep_cases hcas with ⟨rfl, -⟩ | ⟨-, rfl, -⟩ <;>
      first | exact hrunning | cases hrunning
  | push pc =>
    cases pc with
    | done =>
      cases h
      exact hrunning
    | _ =>
      simp only [taskStep, Option.map_eq_some_iff, Prod.exists] at h
      obtain ⟨_, _, _, -, heq⟩ := h
      cases heq
      exact hrunning
  | receive | readStatus | readAlerts =>
    simp only [taskStep] at h
    split at h <;> cases h <;> exact hrunning
  | deleted => cases h
  | _ =>
    cases h
    exact hrunning

theorem step_running {s t : State} {a : Action} {es : List Event} (hs : s.control.Reconciles)
    (h : step s a = some (t, es)) :
    t.control.Reconciles ∧ (t.shared.lifecycle.state = .running →
      s.shared.lifecycle.state = .running ∨ s.accepts a = true) := by
  cases step_cases h with
  | start | stop => exact ⟨trivial, .inl⟩
  | control hcontrol =>
    obtain ⟨hreconciles, hrunning⟩ := controlStep_running hs hcontrol
    refine ⟨hreconciles, fun hstate => (hrunning hstate).imp_right ?_⟩
    rintro ⟨⟨configuration, hbegin⟩, hstopped⟩
    simp [State.accepts, hbegin, hstopped]
  | task active htask => exact ⟨hs, fun hstate => .inl (taskStep_running htask hstate)⟩
  | consumer hconsumer =>
    have hlifecycle := (receiveStep_effect hconsumer).lifecycle
    exact ⟨hs, fun hstate => .inl (by rwa [hlifecycle] at hstate)⟩
  | _ => exact ⟨hs, .inl⟩

theorem step_opens {s t : State} {a : Action} {es : List Event} (ha : s.accepts a = true)
    (h : step s a = some (t, es)) : t.shared.lifecycle.state = .running := by
  cases step_cases h with
  | control hcontrol =>
    simp only [State.accepts] at ha
    split at ha
    · rename_i hbegin
      have hstopped := of_decide_eq_true ha
      simp only [hbegin, controlStep, LifecycleController.beginStart, hstopped, if_true] at hcontrol
      cases hcontrol
      rfl
    · cases ha
  | _ => cases ha

/-- Inside an interval only a receive task changes the state, and it latches a fault. -/
theorem step_interval_state {n : ℕ} {s t : State} {a : Action} {es : List Event}
    (h : s.InInterval n) (ha : a ≠ .stop) (hstep : step s a = some (t, es)) :
    t.shared.lifecycle.state = s.shared.lifecycle.state ∨
      (s.latches a = true ∧ t.shared.lifecycle.state = .faulted) := by
  obtain ⟨pc, hpc, hinterval⟩ := h.task
  have hafter := (step_inInterval h ha hstep).1.wakeupsAgree.state
  cases step_cases hstep with
  | stop => exact absurd rfl ha
  | control hcontrol =>
    exact .inl (controlStep_inInterval hinterval.active h.control hcontrol).1.state
  | @task i input q q' g es active htask =>
    by_cases hsame : g.lifecycle.state = s.shared.lifecycle.state
    · exact .inl hsame
    · have hfaulted : g.lifecycle.state = .faulted := by
        rcases hafter with hrunning | hfaulted
        · rw [hrunning, taskStep_running htask hrunning] at hsame
          exact absurd rfl hsame
        · exact hfaulted
      have hbefore : s.shared.lifecycle.state ≠ .faulted :=
        fun heq => hsame (hfaulted.trans heq.symm)
      exact .inr ⟨by simp [State.latches, hbefore, hstep, hfaulted], hfaulted⟩
  | consumer hconsumer =>
    exact .inl (congrArg LifecycleController.state (receiveStep_effect hconsumer).lifecycle)
  | _ => exact .inl rfl

/-- A start that creates its task has found nothing wrong. -/
theorem step_succeeded {n : ℕ} {h es : List Event} {s t : State} {a : Action}
    (hacc : OpeningAccount n h s) (hbefore : s.control ≠ .startSucceeded)
    (hstep : step s a = some (t, es)) (hsucceeded : t.control = .startSucceeded) :
    s.shared.lifecycle.state = .running ∧ t.shared.lifecycle.state = .running := by
  cases step_cases hstep with
  | start | stop => cases hsucceeded
  | @control ok g pc es hcontrol =>
    obtain rfl : pc = .startSucceeded := hsucceeded
    cases hacc with
    | starting starting =>
      obtain ⟨-, ⟨hpoint, -⟩ | ⟨hcreate, -, -, rfl⟩ | ⟨hfailing, -⟩⟩ :=
        controlStep_starting starting.point hcontrol
      · exact hpoint.elim
      · have hpoint := starting.point
        rw [hcreate] at hpoint
        exact ⟨hpoint.1.state, hpoint.1.state⟩
      · exact hfailing.elim
    | opened interval =>
      obtain ⟨pc, -, hinterval⟩ := interval.task
      obtain ⟨-, -, hnext | hnext⟩ :=
        controlStep_inInterval hinterval.active interval.control hcontrol
      all_goals cases hnext
    | failed failing => exact (controlStep_failing failing hcontrol).1.elim
  | _ => exact absurd hsucceeded hbefore

end CanBus
end VehicleCanCore

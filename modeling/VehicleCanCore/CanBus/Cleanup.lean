import VehicleCanCore.CanBus.Progress
import VehicleCanCore.CanBus.TaskExclusivity

/-!
# Cleanup of an owned boundary

What `stop` achieves is decided by a single question: whether `twai_stop` is
called while the driver is in bus-off, where ESP-IDF refuses it. The call never
gets stuck except in its wait for the acknowledgement of a receive task, and
then some task has indeed not given it yet.
-/

namespace VehicleCanCore
namespace CanBus

open Automata LifecycleController Shared

/-! ## Acknowledgements that are still to come -/

/-- Has not given `g_task_stopped` yet. -/
def TaskPc.Pending : TaskPc → Prop
  | delete | deleted => False
  | _ => True

theorem TaskPc.Live.pending {pc : TaskPc} (h : pc.Live) : pc.Pending := by
  cases pc <;> trivial

theorem exists_mem_set {P : TaskPc → Prop} {l : List TaskPc} {i : ℕ} {a b : TaskPc}
    (hi : l[i]? = some a) (ha : ¬ P a) (h : ∃ x ∈ l, P x) : ∃ x ∈ l.set i b, P x := by
  obtain ⟨x, hx, hP⟩ := h
  obtain ⟨j, hj⟩ := List.getElem?_of_mem hx
  refine ⟨x, List.mem_of_getElem? (i := j) ?_, hP⟩
  rw [List.getElem?_set_ne, hj]
  rintro rfl
  rw [hi] at hj
  cases hj
  exact ha hP

namespace State

/-- Tasks only exist after both semaphores do. -/
def Signalling (s : State) : Prop :=
  s.control.hasSemaphores = true ∨ s.tasks ≠ [] →
    s.shared.available.isSome = true ∧ s.shared.taskStopped.isSome = true

/-- A set ownership flag belongs to a task that will clear it, and `stop` waits
only for an acknowledgement that is there or still to come. -/
structure Awaited (s : State) : Prop where
  owned : s.shared.lifecycle.taskOwned = true → s.control.TaskGone ∨ ∃ pc ∈ s.tasks, pc.Live
  waiting : (∃ driverStopped, s.control = .waitTask driverStopped) →
    0 < s.shared.acknowledgements ∨ ∃ pc ∈ s.tasks, pc.Pending

theorem Signalling.step {s t : State} {a : Action} {es : List Event} (h : s.Signalling)
    (hstep : CanBus.step s a = some (t, es)) : t.Signalling := by
  rcases step_parties hstep with ⟨i, input, pc, pc', hi, htask, hset, hcontrol⟩ |
    ⟨ok, -, hcontrol, htasks⟩ | helsewhere
  · have hkeeps := (taskStep_effect htask).semaphores
    obtain ⟨ha, hs⟩ := h (.inr (by rintro hnil; simp [hnil] at hi))
    exact fun _ => ⟨hkeeps.available ha, hkeeps.taskStopped hs⟩
  · have heffect := controlStep_effect hcontrol
    intro ht
    have hnow : t.shared.available.isSome = true ∧ t.shared.taskStopped.isSome = true ∨
        (s.control.hasSemaphores = true ∨ s.tasks ≠ []) := by
      rcases ht with ht | ht
      · rcases heffect.created ht with hpc | hsome
        · exact .inr (.inl hpc)
        · exact .inl hsome
      · rw [htasks] at ht
        by_cases hspawn : spawned ok s.control = []
        · exact .inr (.inr (by simpa [hspawn] using ht))
        · exact .inr (.inl (by rw [(spawned_ne_nil hspawn).1]; rfl))
    rcases hnow with hnow | hbefore
    · exact hnow
    · obtain ⟨ha, hs⟩ := h hbefore
      exact ⟨heffect.semaphores.available ha, heffect.semaphores.taskStopped hs⟩
  · intro ht
    obtain ⟨ha, hs⟩ := h (by
      rcases ht with ht | ht
      · rcases helsewhere.control with hpc | ⟨-, ⟨configuration, hpc⟩ | hpc⟩
        · exact .inl (hpc ▸ ht)
        all_goals simp [hpc, ControlPc.hasSemaphores] at ht
      · exact .inr (helsewhere.tasks ▸ ht))
    exact ⟨helsewhere.semaphores.available ha, helsewhere.semaphores.taskStopped hs⟩

theorem Awaited.step {s t : State} {a : Action} {es : List Event} (h : s.Awaited)
    (hsignal : s.Signalling) (hstep : CanBus.step s a = some (t, es)) : t.Awaited := by
  rcases step_parties hstep with ⟨i, input, pc, pc', hi, htask, hset, hcontrol⟩ |
    ⟨ok, -, hcontrol, htasks⟩ | helsewhere
  · have hmem : pc' ∈ t.tasks := by
      rw [hset]
      exact List.mem_set (List.getElem?_eq_some_iff.mp hi).1 _
    cases (taskStep_effect htask).phase with
    | live hloop hlive howned hstopped =>
      exact ⟨fun _ => .inr ⟨pc', hmem, hlive⟩, fun _ => .inr ⟨pc', hmem, hlive.pending⟩⟩
    | acknowledge howned hstopped =>
      exact ⟨fun htrue => by simp [howned] at htrue, fun _ => .inr ⟨_, hmem, trivial⟩⟩
    | give given =>
      obtain ⟨-, hsome⟩ := hsignal (.inr (by rintro hnil; simp [hnil] at hi))
      obtain ⟨token, htoken⟩ := Option.isSome_iff_exists.mp hsome
      refine ⟨fun howned => ?_, fun _ => .inl ?_⟩
      · rw [given] at howned
        rw [hset, hcontrol]
        exact (h.owned howned).imp_right (exists_mem_set hi id)
      rw [given]
      simpa [Shared.acknowledgements, giveTaskStopped, htoken] using
        token.count_give_pos Nat.one_pos
    | delete hsame =>
      refine ⟨fun howned => ?_, fun hwait => ?_⟩
      · rw [hsame] at howned
        rw [hset, hcontrol]
        exact (h.owned howned).imp_right (exists_mem_set hi id)
      · rw [hcontrol] at hwait
        rw [hsame, hset]
        exact (h.waiting hwait).imp_right (exists_mem_set hi id)
  · have heffect := controlStep_effect hcontrol
    have hgrow (hs : ∃ pc ∈ s.tasks, pc.Live) : ∃ pc ∈ t.tasks, pc.Live := by
      obtain ⟨pc, hpc, hlive⟩ := hs
      exact ⟨pc, by rw [htasks]; exact List.mem_append_left _ hpc, hlive⟩
    refine ⟨fun howned => ?_, fun hwait => ?_⟩
    · rcases heffect.claimed howned with howned' | hmark
      · rcases h.owned howned' with hgone | hs
        · rcases heffect.leavesGone hgone with hgone | hcleared | hspawn
          · exact .inl hgone
          · simp [howned] at hcleared
          · obtain ⟨hcreate, rfl⟩ := spawned_ne_nil hspawn
            exact .inr ⟨.loopHead, by simp [htasks, hcreate, spawned], trivial⟩
        · exact .inr (hgrow hs)
      · rw [hmark] at hcontrol
        simp only [controlStep, Option.some.injEq, Prod.mk.injEq] at hcontrol
        exact .inl (by rw [← hcontrol.2.1]; trivial)
    · obtain ⟨hnotGone, howned⟩ := heffect.waits hwait
      obtain ⟨pc, hpc, hlive⟩ := hgrow ((h.owned howned).resolve_left hnotGone)
      exact .inr ⟨pc, hpc, hlive.pending⟩
  · refine ⟨fun howned => ?_, fun hwait => ?_⟩
    · rw [helsewhere.lifecycle] at howned
      rw [helsewhere.tasks]
      refine (h.owned howned).imp_left fun hgone => ?_
      rcases helsewhere.control with hpc | ⟨hidle, -⟩
      · rwa [hpc]
      · rw [hidle] at hgone
        exact hgone.elim
    · rw [Shared.acknowledgements, helsewhere.taskStopped, helsewhere.tasks]
      refine h.waiting ?_
      rcases helsewhere.control with hpc | ⟨-, ⟨configuration, hpc⟩ | hpc⟩
      · exact hpc ▸ hwait
      all_goals
        obtain ⟨driverStopped, hwait⟩ := hwait
        simp [hpc] at hwait

theorem boot_signalling : boot.Signalling := fun h => by simp [boot, ControlPc.hasSemaphores] at h

theorem boot_awaited : boot.Awaited := by
  refine ⟨?_, ?_⟩
  · simp [boot]
  · rintro ⟨driverStopped, hwait⟩
    simp [boot] at hwait

theorem reachable_awaited {s : State} (h : machine.Reachable boot s) : s.Signalling ∧ s.Awaited :=
  machine.reachable_invariant (I := fun s => s.Signalling ∧ s.Awaited)
    ⟨boot_signalling, boot_awaited⟩
    (fun _ _ _ _ hs hstep => ⟨hs.1.step hstep, hs.2.step hs.1 hstep⟩) h

end State

/-! ## One call of `stop` -/

/-- ESP-IDF grants exactly the calls its rules permit, and the receive task
acknowledges within the wait. -/
def ControlPc.Cooperative (g : Shared) (ok : Bool) (pc : ControlPc) : Prop :=
  match pc.driverCall, pc with
  | some call, _ => ok = call.permitted g.driver
  | none, .waitTask _ => ok = true
  | none, _ => True

instance (g : Shared) (ok : Bool) (pc : ControlPc) : Decidable (pc.Cooperative g ok) := by
  unfold ControlPc.Cooperative
  split <;> infer_instance

/-- A cooperative environment during a call: no other call begins. -/
def Cooperates (s : State) : Action → Prop
  | .control ok => s.control.Cooperative s.shared ok
  | a => a.beginsCall = false

instance (s : State) : DecidablePred (Cooperates s) := fun a => by
  cases a <;> simp only [Cooperates] <;> infer_instance

def Event.stopsBusOff : Event → Bool
  | .driver .stop .busOff _ => true
  | _ => false

/-- Inside `stop`, whether every driver call so far has been granted. -/
def ControlPc.stopGranted : ControlPc → Option Bool
  | beginStop _ | clearRequested | readStarted | twaiStop | markStopped | uninstall
  | markUninstalled | drain => some true
  | readOwned driverStopped | waitTask driverStopped | acknowledgeTask driverStopped
  | tryTakeTask driverStopped | readInstalled driverStopped true => some driverStopped
  | reconcile (.stop driverStopped true driverUninstalled) _ =>
    some (driverStopped && driverUninstalled)
  | _ => none

theorem controlStep_stop {g g' : Shared} {ok granted : Bool} {pc pc' : ControlPc}
    {es : List Event} (howned : pc.Owned g) (hgranted : pc.stopGranted = some granted)
    (hactive : ∀ q, pc = .beginStop q → g.lifecycle.state ≠ .stopped) (hC : pc.Cooperative g ok)
    (hstep : controlStep g ok pc = some (g', pc', es)) :
    (pc'.stopGranted = some (granted && !es.any Event.stopsBusOff) ∧ (∀ r, .stopped r ∉ es) ∧
        ∀ q, pc' = .beginStop q → g'.lifecycle.state ≠ .stopped) ∨
      (pc' = .idle ∧ ∃ r, es = [.stopped r] ∧ (r = .ok ↔ granted = true) ∧
        (r = .ok → g'.lifecycle.state = .stopped)) := by
  cases pc with
  | beginStop pc =>
    cases hgranted
    have hactive := hactive pc rfl
    simp only [controlStep] at hstep
    split at hstep <;> cases hstep
    · exact .inl ⟨rfl, by simp, fun _ _ => (beginStopStep_background ‹_›).active hactive⟩
    · exact .inl ⟨rfl, by simp, by simp⟩
    · have hbegin := ‹g.lifecycle.beginStopStep _ _ = _›
      exact absurd ((beginStopStep_spec hbegin).2.2 rfl)
        ((beginStopStep_background hbegin).active hactive)
  | clearRequested | markStopped | markUninstalled =>
    cases hgranted
    cases hstep
    exact .inl ⟨rfl, by simp, by simp⟩
  | readStarted =>
    cases hgranted
    simp only [controlStep] at hstep
    split_ifs at hstep <;> cases hstep <;> exact .inl ⟨rfl, by simp, by simp⟩
  | twaiStop =>
    cases hgranted
    have hstarted := howned.driver
    rw [DriverState.started_eq_true] at hstarted
    rcases hstarted with hdriver | hdriver
    · obtain rfl : ok = true := by
        simpa [ControlPc.Cooperative, ControlPc.driverCall, DriverCall.permitted, hdriver] using hC
      cases hstep
      exact .inl ⟨by simp [ControlPc.stopGranted, Event.stopsBusOff, hdriver], by simp, by simp⟩
    · obtain rfl : ok = false := by
        simpa [ControlPc.Cooperative, ControlPc.driverCall, DriverCall.permitted, hdriver] using hC
      cases hstep
      exact .inl ⟨by simp [ControlPc.stopGranted, Event.stopsBusOff, hdriver], by simp, by simp⟩
  | readOwned =>
    cases hgranted
    simp only [controlStep] at hstep
    split_ifs at hstep <;> cases hstep <;>
      exact .inl ⟨by simp [ControlPc.stopGranted], by simp, by simp⟩
  | waitTask =>
    cases hgranted
    obtain rfl : ok = true := hC
    simp only [controlStep] at hstep
    split at hstep <;> cases hstep
    exact .inl ⟨by simp [ControlPc.stopGranted], by simp, by simp⟩
  | acknowledgeTask | tryTakeTask =>
    cases hgranted
    cases hstep
    exact .inl ⟨by simp [ControlPc.stopGranted], by simp, by simp⟩
  | readInstalled driverStopped taskStopped =>
    cases taskStopped
    · cases hgranted
    obtain rfl : driverStopped = granted := by simpa [ControlPc.stopGranted] using hgranted
    simp only [controlStep] at hstep
    split_ifs at hstep with hall <;> cases hstep
    · simp only [Bool.and_true, Bool.and_eq_true] at hall
      exact .inl ⟨by simp [ControlPc.stopGranted, hall.1], by simp, by simp⟩
    · refine .inl ⟨?_, by simp, by simp⟩
      cases driverStopped <;> simp_all [ControlPc.stopGranted]
  | uninstall =>
    cases hgranted
    have hstopped : g.driver = .stopped := howned.1.driver
    obtain rfl : ok = true := by
      simpa [ControlPc.Cooperative, ControlPc.driverCall, DriverCall.permitted, hstopped] using hC
    cases hstep
    exact .inl ⟨rfl, by simp, by simp⟩
  | reconcile next pc =>
    rcases next with uninstalled | cleanupRequired | ⟨driverStopped, taskStopped, uninstalled⟩
    · cases hgranted
    · cases hgranted
    cases taskStopped
    · cases hgranted
    obtain rfl : (driverStopped && uninstalled) = granted := by
      simpa [ControlPc.stopGranted] using hgranted
    cases pc with
    | store target =>
      simp only [controlStep, reconcileStep, afterReconcile, Bool.and_true, Bool.not_true,
        Bool.false_eq_true, if_false] at hstep
      split_ifs at hstep with hdone <;> cases hstep
      · exact .inl ⟨by simp [ControlPc.stopGranted, hdone], by simp, by simp⟩
      · exact .inr ⟨rfl, _, rfl, by simpa using hdone, by simp⟩
    | _ =>
      cases hstep
      exact .inl ⟨by simp [ControlPc.stopGranted], by simp, by simp⟩
  | drain =>
    cases hgranted
    simp only [controlStep] at hstep
    split at hstep <;> cases hstep
    · exact .inl ⟨rfl, by simp, by simp⟩
    · exact .inr ⟨rfl, _, rfl, by simp, fun _ => howned.2⟩
  | _ => cases hgranted

/-- The account of one `stop` call: it is under way, or it has returned, and
its result tells whether every driver call was granted. -/
def StopAccount (h : List Event) (s : State) : Prop :=
  (s.control.stopGranted = some (!h.any Event.stopsBusOff) ∧ (∀ r, .stopped r ∉ h) ∧
      ∀ q, s.control = .beginStop q → s.shared.lifecycle.state ≠ .stopped) ∨
    (s.control = .idle ∧ ∃ r, (∀ r', .stopped r' ∈ h ↔ r' = r) ∧
      (r = .ok ↔ h.any Event.stopsBusOff = false) ∧
      (r = .ok → s.shared.lifecycle.state = .stopped))

theorem step_stopAccount {h es : List Event} {s t : State} {a : Action}
    (howned : s.control.Owned s.shared) (hacc : StopAccount h s) (ha : Cooperates s a)
    (hstep : step s a = some (t, es)) : StopAccount (h ++ es) t := by
  rcases (step_cases hstep).control_cases with
    ⟨hbegins, -⟩ | ⟨ok, rfl, hcontrol⟩ | ⟨hpc, hback, hevents⟩
  · cases a <;> simp_all [Cooperates, Action.beginsCall]
  · rcases hacc with ⟨hgranted, hno, hactive⟩ | ⟨hidle, -⟩
    · rcases controlStep_stop howned hgranted hactive ha hcontrol with
        ⟨hgranted', hno', hactive'⟩ | ⟨hidle, r, rfl, hok, hstopped⟩
      · refine .inl ⟨by simpa using hgranted', fun r hr => ?_, hactive'⟩
        rcases List.mem_append.mp hr with hr | hr
        · exact hno r hr
        · exact hno' r hr
      · refine .inr ⟨hidle, r, fun r' => by simp [hno], ?_, hstopped⟩
        simpa [Event.stopsBusOff] using hok
    · simp [hidle, controlStep] at hcontrol
  · have hnone : es.any Event.stopsBusOff = false := by
      refine List.any_eq_false.mpr fun e he => ?_
      have := hevents e he
      cases e <;> simp_all [Event.ofControl, Event.stopsBusOff]
    have hquiet : ∀ r, Event.stopped r ∉ es := fun r hr => by
      simpa [Event.ofControl] using hevents _ hr
    simpa [StopAccount, hnone, hquiet, hpc, hback.stopped] using hacc

/-! ### The call returns -/

def State.WaitsForTask (s : State) : Prop :=
  (∃ driverStopped, s.control = .waitTask driverStopped) ∧ s.shared.acknowledgements = 0 ∧
    ∃ pc ∈ s.tasks, pc.Pending

/-- A step of the call itself in a cooperative environment. -/
def Continues (s : State) (a : Action) : Prop := (∃ ok, a = .control ok) ∧ Cooperates s a

/-- A step of `stop` that does not wait for a missing acknowledgement, with the answer
of a cooperative environment. -/
theorem controlStep_cooperative {g : Shared} {pc : ControlPc} (hstop : pc.phase = .stopping)
    (hwait : (∃ driverStopped, pc = .waitTask driverStopped) → 0 < g.acknowledgements) :
    ∃ ok g' pc' es, pc.Cooperative g ok ∧ controlStep g ok pc = some (g', pc', es) ∧
      pc'.distance g' < pc.distance g := by
  cases hcall : pc.driverCall with
  | some call =>
    have hasks : pc.asks = true := by
      cases pc <;> first | rfl | cases hcall
    obtain ⟨g', pc', es, hstep, hlt⟩ := controlStep_answered hasks (call.permitted g.driver)
    exact ⟨_, g', pc', es, by simp [ControlPc.Cooperative, hcall], hstep, hlt⟩
  | none =>
    have hasks : pc.asks = false := by
      cases pc with
      | createAvailable | createTaskStopped | createTask => cases hstop
      | _ => first | rfl | cases hcall
    have hidle : pc ≠ .idle := by
      rintro rfl
      cases hstop
    obtain ⟨ok, g', pc', es, hstep, hlt⟩ := controlStep_unasked (by simp [hstop]) hidle hasks
    refine ⟨ok, g', pc', es, ?_, hstep, hlt⟩
    cases pc with
    | waitTask driverStopped =>
      have hpos := hwait ⟨driverStopped, rfl⟩
      simp only [controlStep] at hstep
      split at hstep
      · split_ifs at hstep with hok
        exact hok
      · rename_i htake
        simp [takeTaskStopped_eq_none.mp htake] at hpos
    | _ => trivial

def State.InStop (s : State) : Prop := s.control.phase = .stopping ∨ s.control = .idle

theorem controlStep_inStop {g g' : Shared} {ok : Bool} {pc pc' : ControlPc} {es : List Event}
    (howned : pc.Owned g) (hcoherent : pc.Coherent g) (hstop : pc.phase = .stopping)
    (h : controlStep g ok pc = some (g', pc', es)) : pc'.phase = .stopping ∨ pc' = .idle := by
  have hprogress := (controlStep_phase howned hcoherent h).2
  rw [hstop] at hprogress
  generalize hphase : pc'.phase = phase at hprogress
  cases hprogress with
  | within => exact .inl rfl
  | stopped => exact .inr (ControlPc.idle_of_phase hphase)

theorem step_stop_progress {s : State} (hs : machine.Reachable boot s) (hstop : s.InStop) :
    (s.control = .idle ∨ s.WaitsForTask) ∨ ∃ a t es, Continues s a ∧
      machine.step s a = some (t, es) ∧ t.InStop ∧
        t.control.distance t.shared < s.control.distance s.shared := by
  rcases hstop with hstop | hidle
  · by_cases hwaits : s.WaitsForTask
    · exact .inl (.inr hwaits)
    · obtain ⟨ok, g', pc', es, hcoop, hcontrol, hlt⟩ :=
        controlStep_cooperative hstop fun hwait => by
          by_contra hzero
          have hpending := (State.reachable_awaited hs).2.waiting hwait
          exact hwaits ⟨hwait, by omega, hpending.resolve_left hzero⟩
      have hsound := reachable_sound hs
      have hnext := controlStep_inStop hsound.owned hsound.coherent hstop hcontrol
      refine .inr ⟨.control ok, { s with
        shared := g', control := pc', tasks := s.tasks ++ spawned ok s.control }, es,
        ⟨⟨ok, rfl⟩, hcoop⟩, ?_, hnext, hlt⟩
      simp [machine, step, hcontrol]
  · exact .inl (.inl hidle)

theorem run_stop_progress {s : State} (hs : machine.Reachable boot s) (hstop : s.InStop) :
    ∃ as t es, machine.Along Continues s as ∧ machine.run s as = some (t, es) ∧
      (t.control = .idle ∨ t.WaitsForTask) := by
  have hrank := machine.exists_run_of_rank (C := Continues)
    (P := fun s => machine.Reachable boot s ∧ s.InStop)
    (Q := fun s => s.control = .idle ∨ s.WaitsForTask)
    (fun s => s.control.distance s.shared) (fun s hP => ?_) ⟨hs, hstop⟩
  · obtain ⟨as, t, es, hC, hrun, -, hgoal⟩ := hrank
    exact ⟨as, t, es, hC, hrun, hgoal⟩
  · refine (step_stop_progress hP.1 hP.2).imp_right ?_
    rintro ⟨a, t, es, hC, hstep, hnext, hlt⟩
    exact ⟨a, t, es, hC, hstep, ⟨hP.1.run (by rwa [Machine.run_singleton]), hnext⟩, hlt⟩

/-! ## Recovery -/

def State.callStop (s : State) : State := { s with control := .beginStop .load }

theorem step_stop {s : State} (hidle : s.control = .idle) :
    machine.step s .stop = some (s.callStop, []) := by
  simp [machine, step, hidle, State.callStop]

theorem run_stopAccount {s t : State} {as : List Action} {es : List Event}
    (hs : machine.Reachable boot s) (hidle : s.control = .idle)
    (hactive : s.shared.lifecycle.state ≠ .stopped) (hC : machine.Along Cooperates s.callStop as)
    (hrun : machine.run s.callStop as = some (t, es)) : StopAccount es t := by
  have hsettled := reachable_settled hs hidle
  have howned : s.callStop.control.Owned s.callStop.shared := hsettled
  refine (machine.run_invariant_along (C := Cooperates) (h := [])
    (I := fun h s => s.control.Owned s.shared ∧ StopAccount h s)
    (fun h s a t es hI ha hstep => ?_) ⟨howned, ?_⟩ hC hrun).2
  · exact ⟨(step_owned hI.1 hstep).1, step_stopAccount hI.1 hI.2 ha hstep⟩
  · exact .inl ⟨rfl, by simp, fun _ _ => hactive⟩

theorem StopAccount.inStop {h : List Event} {s : State} (hacc : StopAccount h s) : s.InStop := by
  rcases hacc with ⟨hgranted, -⟩ | ⟨hidle, -⟩
  · left
    cases hpc : s.control with
    | reconcile next pc =>
      rw [hpc] at hgranted
      cases next <;> first | rfl | cases hgranted
    | _ =>
      rw [hpc] at hgranted
      first | rfl | cases hgranted
  · exact .inr hidle

/-- Cleanup of an owned boundary in a cooperative environment. Once returned, the
call reports success and leaves the controller stopped if and only if
`twai_stop` was not called in bus-off; and it does return, unless it waits for a
receive task that has yet to acknowledge. -/
theorem stop_recovers {s t : State} {as : List Action} {es : List Event}
    (hs : machine.Reachable boot s) (hidle : s.control = .idle)
    (hactive : s.shared.lifecycle.state ≠ .stopped) (hC : machine.Along Cooperates s.callStop as)
    (hrun : machine.run s.callStop as = some (t, es)) :
    (t.control = .idle →
      ((.stopped .ok ∈ es ∧ t.shared.lifecycle.state = .stopped) ↔
        es.any Event.stopsBusOff = false)) ∧
      ∃ bs u fs, machine.Along Continues t bs ∧ machine.run t bs = some (u, fs) ∧
        (u.control = .idle ∨ u.WaitsForTask) := by
  have hacc := run_stopAccount hs hidle hactive hC hrun
  have ht : machine.Reachable boot t :=
    (hs.run (by rw [Machine.run_singleton]; exact step_stop hidle)).run hrun
  refine ⟨fun hreturned => ?_, run_stop_progress ht hacc.inStop⟩
  rcases hacc with ⟨hgranted, -⟩ | ⟨-, r, hr, hok, hstopped⟩
  · simp [hreturned, ControlPc.stopGranted] at hgranted
  · rw [hr, ← hok]
    exact ⟨fun h => h.1.symm, fun h => ⟨h.symm, hstopped h⟩⟩

/-- A `stop` with every call permitted and granted. -/
def grantedStop : List Action := List.replicate 16 (.control true)

theorem stop_recovers_from_fault : ∃ s t es,
    machine.Reachable boot s ∧ s.shared.lifecycle.state = .faulted ∧
      machine.run s.callStop grantedStop = some (t, es) ∧ .stopped .ok ∈ es ∧
      t.shared.lifecycle.state = .stopped := by
  have hobserved : (machine.run boot (startSchedule 37 ++ faultSchedule 0 9)).map (fun p =>
      (p.1.control.isIdle, p.1.shared.lifecycle.state,
        decide (machine.Along Cooperates p.1.callStop grantedStop),
        (machine.run p.1.callStop grantedStop).map fun q =>
          (q.1.control.isIdle, q.2.any Event.stopsBusOff))) =
      some (true, .faulted, true, some (true, false)) := by decide +kernel
  obtain ⟨⟨s, es⟩, hrun, heq⟩ := Option.map_eq_some_iff.mp hobserved
  simp only [Prod.mk.injEq, decide_eq_true_eq, Option.map_eq_some_iff] at heq
  obtain ⟨hidle, hfaulted, hC, ⟨t, fs⟩, hstop, hreturned, hgranted⟩ := heq
  have hs : machine.Reachable boot s := ⟨_, _, hrun⟩
  have hrecovered := (stop_recovers hs (ControlPc.isIdle_iff.mp hidle) (by simp [hfaulted]) hC
    hstop).1 (ControlPc.isIdle_iff.mp hreturned)
  exact ⟨s, t, fs, hs, hfaulted, hstop, hrecovered.mpr hgranted⟩

/-- Before the call: ESP-IDF only grants what its rules permit. -/
def Lawful (s : State) : Action → Prop
  | .control true => ∀ call ∈ s.control.driverCall, call.permitted s.shared.driver = true
  | _ => True

instance (s : State) : DecidablePred (Lawful s)
  | .control true => inferInstanceAs (Decidable (∀ call ∈ s.control.driverCall, _))
  | .control false | .start _ | .stop | .task _ _ | .receive _ | .consumer _
  | .beginSnapshot _ _ | .observer _ _ | .enterBusOff => isTrue trivial

/-- The driver enters bus-off and the receive task ends with the fault. -/
def busOffSchedule : List Action :=
  startSchedule 37 ++ .enterBusOff :: List.replicate 15 (.task 0 { alerts := .alerts true })

/-- The cleanup that follows: `twai_stop` is refused and everything else granted. -/
def refusedStop : List Action :=
  (List.replicate 4 true ++ false :: List.replicate 6 true).map .control

/-- After bus-off a cooperative `stop` returns without success and leaves the
controller faulted. -/
theorem stop_stuck_in_bus_off : ∃ s es t fs,
    machine.Along Lawful boot busOffSchedule ∧ machine.run boot busOffSchedule = some (s, es) ∧
      s.control = .idle ∧ s.shared.lifecycle.state ≠ .stopped ∧
      machine.Along Cooperates s.callStop refusedStop ∧
      machine.run s.callStop refusedStop = some (t, fs) ∧ t.control = .idle ∧
      .stopped .ok ∉ fs ∧ t.shared.lifecycle.state = .faulted := by
  have hlawful : machine.Along Lawful boot busOffSchedule := by decide +kernel
  have hobserved : (machine.run boot busOffSchedule).map (fun p =>
      (p.1.control.isIdle, p.1.shared.lifecycle.state,
        decide (machine.Along Cooperates p.1.callStop refusedStop),
        (machine.run p.1.callStop refusedStop).map fun q =>
          (q.1.control.isIdle && !q.2.any Event.releases, q.1.shared.lifecycle.state))) =
      some (true, .faulted, true, some (true, .faulted)) := by decide +kernel
  obtain ⟨⟨s, es⟩, hrun, heq⟩ := Option.map_eq_some_iff.mp hobserved
  simp only [Prod.mk.injEq, decide_eq_true_eq, Option.map_eq_some_iff] at heq
  obtain ⟨hidle, hfaulted, hC, ⟨t, fs⟩, hstop, hreturned, hstate⟩ := heq
  simp only [Bool.and_eq_true, Bool.not_eq_true'] at hreturned
  refine ⟨s, es, t, fs, hlawful, hrun, ControlPc.isIdle_iff.mp hidle, by simp [hfaulted], hC,
    hstop, ControlPc.isIdle_iff.mp hreturned.1, fun hok => ?_, hstate⟩
  exact (List.any_eq_false.mp hreturned.2) _ hok rfl

end CanBus
end VehicleCanCore

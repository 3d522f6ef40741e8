import VehicleCanCore.CanBus.DriverProtocol

/-!
# At most one receive task

A task publishes its exit twice: it clears the ownership flag, and then it
gives `g_task_stopped`. `stop` looks at the flag first and waits for the token
only while the flag is set, so that a token given late can outlive its run. As
long as no task is created over such an outstanding token, at most one task is
in its receive loop, and the driver is released only after it has left.
-/

namespace VehicleCanCore
namespace CanBus
open Automata LifecycleController Shared

namespace State

def LiveAt (s : State) (i : ℕ) : Prop := ∃ pc, s.tasks[i]? = some pc ∧ pc.Live

/-- At most one task has not yet cleared the ownership flag, the flag is set
while there is one, and no acknowledgement of an earlier task is left then. -/
structure TaskExclusive (s : State) : Prop where
  owned : ∀ i, s.LiveAt i → s.shared.lifecycle.taskOwned = true
  unique : ∀ i j, s.LiveAt i → s.LiveAt j → i = j
  acknowledged : ∀ i, s.LiveAt i →
    s.shared.acknowledgements = 0 ∧ ∀ pc ∈ s.tasks, pc ≠ .giveStopped
  gone : s.control.TaskGone → ∀ i, ¬ s.LiveAt i
  reserved : s.control = .createTask → s.shared.lifecycle.taskOwned = true

def creates (s : State) : Action → Bool
  | .control true => match s.control with
    | .createTask => true
    | _ => false
  | _ => false

end State

/-- A receive task is only created once every earlier one has given its
acknowledgement and that acknowledgement has been taken. -/
def CreatesAcknowledged (s : State) (a : Action) : Prop :=
  s.creates a = true →
    s.shared.acknowledgements = 0 ∧ ∀ pc ∈ s.tasks, pc.isGiving = false

instance (s : State) (a : Action) : Decidable (CreatesAcknowledged s a) :=
  inferInstanceAs (Decidable (_ → _))

namespace State

theorem liveAt_set {s t : State} {i j : ℕ} {pc pc' : TaskPc} (hi : s.tasks[i]? = some pc)
    (hset : t.tasks = s.tasks.set i pc') :
    t.LiveAt j ↔ if i = j then pc'.Live else s.LiveAt j := by
  have hlt : i < s.tasks.length := (List.getElem?_eq_some_iff.mp hi).1
  simp only [LiveAt, hset, List.getElem?_set]
  split_ifs with hij
  · subst hij
    simp
  · rfl

theorem TaskExclusive.task_step {s t : State} {i : ℕ} {input : TaskInput} {pc pc' : TaskPc}
    {es : List Event} (h : s.TaskExclusive) (hi : s.tasks[i]? = some pc)
    (hstep : taskStep s.shared input pc = some (t.shared, pc', es))
    (hset : t.tasks = s.tasks.set i pc') (hcontrol : t.control = s.control) :
    t.TaskExclusive := by
  have hlive (j : ℕ) := liveAt_set (j := j) hi hset
  have hback (hpc : pc'.Live → pc.Live) (j : ℕ) (hj : t.LiveAt j) : s.LiveAt j := by
    rw [hlive] at hj
    split_ifs at hj with hij
    · exact hij ▸ ⟨pc, hi, hpc hj⟩
    · exact hj
  have hgiving (hpc : pc' ≠ .giveStopped) (hs : ∀ q ∈ s.tasks, q ≠ .giveStopped) :
      ∀ q ∈ t.tasks, q ≠ .giveStopped := fun q hq => by
    rw [hset] at hq
    rcases List.mem_or_eq_of_mem_set hq with hq | rfl
    · exact hs q hq
    · exact hpc
  cases (taskStep_effect hstep).phase with
  | live hloop hlive' howned hstopped =>
    have hback := hback fun _ => hloop.live
    refine ⟨fun j hj => ?_, fun j k hj hk => h.unique j k (hback j hj) (hback k hk), fun j hj => ?_,
      fun hgone j hj => h.gone (hcontrol ▸ hgone) j (hback j hj), fun hcreate => ?_⟩
    · rw [howned]
      exact h.owned j (hback j hj)
    · obtain ⟨hzero, hnone⟩ := h.acknowledged j (hback j hj)
      refine ⟨by rw [Shared.acknowledgements, hstopped]; exact hzero, hgiving ?_ hnone⟩
      rintro rfl
      exact hlive'
    · rw [howned]
      exact h.reserved (hcontrol ▸ hcreate)
  | acknowledge =>
    have hi' : s.LiveAt i := ⟨_, hi, trivial⟩
    have hnone (j : ℕ) : ¬ t.LiveAt j := fun hj => by
      have hij := h.unique i j hi' (hback (fun _ => trivial) j hj)
      simp [hlive, hij, TaskPc.Live] at hj
    refine ⟨fun j hj => (hnone j hj).elim, fun j k hj => (hnone j hj).elim,
      fun j hj => (hnone j hj).elim, fun _ => hnone, fun hcreate => ?_⟩
    exact absurd hi' (h.gone (by rw [← hcontrol, hcreate]; trivial) i)
  | give given =>
    -- an acknowledgement is given only after the last live task is gone
    have hmem : TaskPc.giveStopped ∈ s.tasks := List.mem_of_getElem? hi
    have hnone (j : ℕ) : ¬ t.LiveAt j := fun hj =>
      (h.acknowledged j (hback False.elim j hj)).2 _ hmem rfl
    exact ⟨fun j hj => (hnone j hj).elim, fun j k hj => (hnone j hj).elim,
      fun j hj => (hnone j hj).elim, fun _ => hnone,
      fun hcreate => by rw [given]; exact h.reserved (hcontrol ▸ hcreate)⟩
  | delete hshared =>
    have hback := hback False.elim
    exact ⟨fun j hj => hshared ▸ h.owned j (hback j hj),
      fun j k hj hk => h.unique j k (hback j hj) (hback k hk),
      fun j hj => ⟨hshared ▸ (h.acknowledged j (hback j hj)).1,
        hgiving (by simp) (h.acknowledged j (hback j hj)).2⟩,
      fun hgone j hj => h.gone (hcontrol ▸ hgone) j (hback j hj),
      fun hcreate => hshared ▸ h.reserved (hcontrol ▸ hcreate)⟩

theorem TaskExclusive.control_step {s t : State} {ok : Bool} {es : List Event}
    (h : s.TaskExclusive) (howned : s.control.Owned s.shared)
    (hC : CreatesAcknowledged s (.control ok))
    (hstep : controlStep s.shared ok s.control = some (t.shared, t.control, es))
    (htasks : t.tasks = s.tasks ++ spawned ok s.control) : t.TaskExclusive := by
  have heffect := controlStep_effect hstep
  by_cases hspawn : spawned ok s.control = []
  · rw [hspawn, List.append_nil] at htasks
    have hlive (j : ℕ) : t.LiveAt j ↔ s.LiveAt j := by simp [LiveAt, htasks]
    have hnogone (hgone : s.control.TaskGone) (j : ℕ) : ¬ t.LiveAt j :=
      fun hj => h.gone hgone j ((hlive j).mp hj)
    refine ⟨fun i hi => ?_, fun i j hi hj => h.unique i j ((hlive i).mp hi) ((hlive j).mp hj),
      fun i hi => ?_, fun hgone i hi => ?_, heffect.reserves⟩
    · exact (heffect.cleared (h.owned i ((hlive i).mp hi))).resolve_left fun hg => hnogone hg i hi
    · obtain ⟨hzero, hnone⟩ := h.acknowledged i ((hlive i).mp hi)
      have hle := heffect.acknowledgements
      exact ⟨by omega, htasks ▸ hnone⟩
    · rcases heffect.entersGone hgone with hgone | hmark | ⟨-, hpos⟩
      · exact hnogone hgone i hi
      · rw [hmark] at howned
        exact howned.2.not_owned (h.owned i ((hlive i).mp hi))
      · have hzero := (h.acknowledged i ((hlive i).mp hi)).1
        omega
  · obtain ⟨hcreate, rfl⟩ := spawned_ne_nil hspawn
    have hnone : ∀ i, ¬ s.LiveAt i := h.gone (by rw [hcreate]; trivial)
    have hquiet := hC (by simp [creates, hcreate])
    have hreserved := h.reserved hcreate
    rw [hcreate] at hstep htasks
    simp only [controlStep, if_true, Option.some.injEq, Prod.mk.injEq] at hstep
    obtain ⟨hshared, hcontrol, -⟩ := hstep
    have hlive (j : ℕ) (hj : t.LiveAt j) : j = s.tasks.length := by
      obtain ⟨pc, hpc, hlivepc⟩ := hj
      rw [htasks, List.getElem?_append] at hpc
      split_ifs at hpc with hlt
      · exact absurd ⟨pc, hpc, hlivepc⟩ (hnone j)
      · obtain ⟨hlt', -⟩ := List.getElem?_eq_some_iff.mp hpc
        simp only [spawned, if_true, List.length_singleton] at hlt'
        omega
    refine ⟨fun _ _ => hshared ▸ hreserved, fun i j hi hj => (hlive i hi).trans (hlive j hj).symm,
      fun _ _ => ⟨hshared ▸ hquiet.1, fun pc hpc => ?_⟩, fun hgone => ?_,
      fun _ => hshared ▸ hreserved⟩
    · rw [htasks] at hpc
      rcases List.mem_append.mp hpc with hpc | hpc
      · exact TaskPc.isGiving_eq_false.mp (hquiet.2 pc hpc)
      · obtain rfl : pc = .loopHead := by simpa [spawned] using hpc
        simp
    · exact (hcontrol ▸ hgone : ControlPc.TaskGone .startSucceeded).elim

theorem TaskExclusive.elsewhere {s t : State} (h : s.TaskExclusive) (he : s.Elsewhere t) :
    t.TaskExclusive := by
  have hlive (j : ℕ) : t.LiveAt j ↔ s.LiveAt j := by simp [LiveAt, he.tasks]
  have hcontrol (hgone : t.control.TaskGone) : t.control = s.control := by
    rcases he.control with hcontrol | ⟨-, ⟨configuration, hcontrol⟩ | hcontrol⟩
    · exact hcontrol
    all_goals
      rw [hcontrol] at hgone
      exact hgone.elim
  refine ⟨fun i hi => he.lifecycle ▸ h.owned i ((hlive i).mp hi),
    fun i j hi hj => h.unique i j ((hlive i).mp hi) ((hlive j).mp hj), fun i hi => ?_,
    fun hgone i hi => h.gone (hcontrol hgone ▸ hgone) i ((hlive i).mp hi), fun hcreate => ?_⟩
  · rw [Shared.acknowledgements, he.taskStopped, he.tasks]
    exact h.acknowledged i ((hlive i).mp hi)
  · rw [he.lifecycle]
    exact h.reserved (hcontrol (by rw [hcreate]; trivial) ▸ hcreate)

end State

/-! ## Runs -/

theorem boot_taskExclusive : boot.TaskExclusive := by
  have hnone (i : ℕ) : ¬ boot.LiveAt i := by simp [State.LiveAt, boot]
  exact ⟨fun i hi => (hnone i hi).elim, fun i j hi => (hnone i hi).elim,
    fun i hi => (hnone i hi).elim, fun _ => hnone, nofun⟩

theorem step_taskExclusive {s t : State} {a : Action} {es : List Event}
    (howned : s.control.Owned s.shared) (h : s.TaskExclusive) (hC : CreatesAcknowledged s a)
    (hstep : step s a = some (t, es)) : t.TaskExclusive := by
  rcases step_parties hstep with ⟨i, input, pc, pc', hi, htask, hset, hcontrol⟩ |
    ⟨ok, rfl, hcontrol, htasks⟩ | helsewhere
  · exact h.task_step hi htask hset hcontrol
  · exact h.control_step howned hC hcontrol htasks
  · exact h.elsewhere helsewhere

theorem ControlPc.Owned.installed {g : Shared} {pc : ControlPc} (h : pc.Owned g)
    (howned : g.lifecycle.taskOwned = true) : g.driver ≠ .notInstalled := by
  cases pc with
  | idle | beginStart | rejected | beginStop => exact h.owned howned
  | createTask | startSucceeded | clearRequestedAfterTask | acknowledgeAfterTask | twaiStop =>
    exact h.settled.owned howned
  | markStopped =>
    have hstopped : g.driver = .stopped := h.driver
    simp [hstopped]
  | clearRequested | readStarted | readOwned | waitTask | acknowledgeTask | tryTakeTask
  | readInstalled | drain => exact h.1.owned howned
  | reconcile next pc =>
    cases pc with
    | store => exact h.1.owned howned
    | _ => exact h.owned howned
  | _ => exact absurd howned h.2.not_owned

theorem ControlPc.Owned.released {g : Shared} {pc : ControlPc} (h : pc.Owned g)
    (hpc : pc.Releasing) : g.Unowned := by
  cases pc with
  | uninstallAfterStart | uninstallAfterTask | uninstall => exact h.2
  | drain =>
    obtain ⟨hsettled, hstopped⟩ := h
    exact Bool.eq_false_iff.mpr fun howned => hsettled.owned howned (hsettled.stopped.mp hstopped)
  | _ => exact hpc.elim

theorem step_twaiReceive {s t : State} {a : Action} {es : List Event}
    (howned : s.control.Owned s.shared) (h : s.TaskExclusive)
    (hstep : step s a = some (t, es)) {before : DriverState} (he : .twaiReceive before ∈ es) :
    before ≠ .notInstalled := by
  cases step_cases hstep with
  | @task i _ pc _ _ _ active htask =>
    obtain ⟨rfl, rfl⟩ := (taskStep_effect htask).receives _ he
    exact howned.installed (h.owned i ⟨_, active, trivial⟩)
  | control hcontrol => simpa [Event.ofControl] using (controlStep_effect hcontrol).events _ he
  | consumer hconsumer => simpa [Event.ofConsumer] using (receiveStep_effect hconsumer).events _ he
  | snapshot => simp at he
  | returnSnapshot => simp at he
  | startInvalid => simp at he
  | start | stop | receive | beginSnapshot | enterBusOff => cases he

theorem step_releases {s t : State} {a : Action} {es : List Event}
    (howned : s.control.Owned s.shared) (hstep : step s a = some (t, es))
    (hreleases : es.any Event.releases = true) : s.shared.Unowned := by
  rcases (step_cases hstep).control_cases with
    ⟨-, -, -, hbegin⟩ | ⟨ok, -, hcontrol⟩ | ⟨-, -, hevents⟩
  · rcases hbegin with ⟨configuration, -, rfl⟩ | ⟨-, rfl⟩ | ⟨-, rfl⟩ <;> cases hreleases
  · exact howned.released ((controlStep_effect hcontrol).releases hreleases)
  · obtain ⟨e, he, hrel⟩ := List.any_eq_true.mp hreleases
    have hquiet := hevents e he
    cases e <;> simp_all [Event.ofControl, Event.releases]

/-- The receive tasks in a state reached with the events `es`: the next step
uninstalls the driver or reports a completed `stop` only when every task has left
its loop, no two are in it, and none has called `twai_receive` without a driver. -/
def ReceiveExclusive (s : State) (es : List Event) : Prop :=
  (∀ a t fs, machine.step s a = some (t, fs) → fs.any Event.releases = true →
      ∀ pc ∈ s.tasks, ¬ pc.InLoop) ∧
    (∀ (i j : ℕ) (pc pc' : TaskPc), s.tasks[i]? = some pc → s.tasks[j]? = some pc' → pc.InLoop →
      pc'.InLoop → i = j) ∧
    ∀ before, .twaiReceive before ∈ es → before ≠ .notInstalled

/-- Receive-task exclusivity in every run in which no receive task is created
over the outstanding acknowledgement of an earlier one. -/
theorem receive_task_exclusive {s : State} {as : List Action} {es : List Event}
    (hC : machine.Along CreatesAcknowledged boot as)
    (hrun : machine.run boot as = some (s, es)) : ReceiveExclusive s es := by
  have hinv := machine.run_invariant_along (C := CreatesAcknowledged) (h := [])
    (I := fun h s => s.control.Owned s.shared ∧ s.TaskExclusive ∧
      ∀ before, .twaiReceive before ∈ h → before ≠ .notInstalled)
    (fun h s a t es hI ha hstep => ?_) ⟨boot_owned, boot_taskExclusive, by simp⟩ hC hrun
  · obtain ⟨howned, hexclusive, hreceive⟩ := hinv
    refine ⟨fun a t fs hstep hreleases pc hpc hloop => ?_, fun i j pc pc' hi hj hpc hpc' =>
      hexclusive.unique i j ⟨pc, hi, hpc.live⟩ ⟨pc', hj, hpc'.live⟩, hreceive⟩
    obtain ⟨i, hi⟩ := List.getElem?_of_mem hpc
    exact (step_releases howned hstep hreleases).not_owned (hexclusive.owned i ⟨pc, hi, hloop.live⟩)
  · obtain ⟨howned, hexclusive, hreceive⟩ := hI
    refine ⟨(step_owned howned hstep).1, step_taskExclusive howned hexclusive ha hstep,
      fun before hbefore => ?_⟩
    rcases List.mem_append.mp hbefore with hbefore | hbefore
    · exact hreceive before hbefore
    · exact step_twaiReceive howned hexclusive hstep hbefore

/-- A start with every call successful, `n` steps long. -/
def startSchedule (n : ℕ) : List Action := .start {} :: List.replicate n (.control true)

def stopSchedule : List Action := .stop :: List.replicate 16 (.control true)

/-- The first `n` steps of receive task `i`, whose `twai_receive` fails. -/
def faultSchedule (i n : ℕ) : List Action :=
  List.replicate n (.task i { received := .error })

theorem receive_task_exclusive_restart : ∃ s es,
    machine.run boot (startSchedule 37 ++ faultSchedule 0 9 ++ stopSchedule ++
      startSchedule 38) = some (s, es) ∧
    s.tasks.map (fun pc => decide pc.InLoop) = [false, true] ∧ ReceiveExclusive s es := by
  have hobserved : (machine.run boot (startSchedule 37 ++ faultSchedule 0 9 ++ stopSchedule ++
      startSchedule 38)).map (fun p => p.1.tasks.map fun pc => decide pc.InLoop) =
      some [false, true] := by decide +kernel
  obtain ⟨⟨s, es⟩, hrun, heq⟩ := Option.map_eq_some_iff.mp hobserved
  exact ⟨s, es, hrun, heq, receive_task_exclusive (by decide +kernel) hrun⟩

/-- The first task clears its flag and is delayed over a whole `stop` and
`start`; it gives its token while the second task is in its loop. -/
def lateGiveSchedule : List Action :=
  startSchedule 37 ++ faultSchedule 0 7 ++ stopSchedule ++ startSchedule 38 ++
    [.task 0 {}, .task 1 {}]

/-- Then a `stop` takes the stale token, the second task receives once more, and
a third one is created. -/
def overlapSchedule : List Action :=
  lateGiveSchedule ++ stopSchedule ++ [.task 1 {}] ++ startSchedule 38

def Event.isTwaiReceive (d : DriverState) : Event → Bool
  | .twaiReceive before => before = d
  | _ => false

/-- The stop that took the stale token reports completion while the second task
is in its loop; afterwards that task receives without a driver and shares the
loop with a third one. -/
theorem late_acknowledgement_overlap :
    (∃ s es t fs, machine.run boot (lateGiveSchedule ++ stopSchedule.dropLast) = some (s, es) ∧
      machine.step s (.control true) = some (t, fs) ∧ fs.any Event.releases = true ∧
      ∃ pc ∈ s.tasks, pc.InLoop) ∧
    ∃ s es, machine.run boot overlapSchedule = some (s, es) ∧ .twaiReceive .notInstalled ∈ es ∧
      s.tasks.map (fun pc => decide pc.InLoop) = [false, true, true] ∧ ¬ ReceiveExclusive s es := by
  constructor
  · have hobserved : (machine.run boot (lateGiveSchedule ++ stopSchedule.dropLast)).map (fun p =>
        (p.1.tasks.any fun pc => decide pc.InLoop,
          (machine.step p.1 (.control true)).map fun q => q.2.any Event.releases)) =
        some (true, some true) := by decide +kernel
    obtain ⟨⟨s, es⟩, hrun, heq⟩ := Option.map_eq_some_iff.mp hobserved
    simp only [Prod.mk.injEq, List.any_eq_true, decide_eq_true_eq, Option.map_eq_some_iff] at heq
    obtain ⟨hloop, ⟨t, fs⟩, hstep, hreleases⟩ := heq
    exact ⟨s, es, t, fs, hrun, hstep, List.any_eq_true.mpr hreleases, hloop⟩
  · have hobserved : (machine.run boot overlapSchedule).map (fun p =>
        (p.2.any (Event.isTwaiReceive .notInstalled), p.1.tasks.map fun pc => decide pc.InLoop)) =
        some (true, [false, true, true]) := by decide +kernel
    obtain ⟨⟨s, es⟩, hrun, heq⟩ := Option.map_eq_some_iff.mp hobserved
    simp only [Prod.mk.injEq, List.any_eq_true] at heq
    obtain ⟨⟨e, he, hreceive⟩, htasks⟩ := heq
    have hmem : .twaiReceive .notInstalled ∈ es := by
      cases e <;> simp_all [Event.isTwaiReceive]
    exact ⟨s, es, hrun, hmem, htasks, fun hexclusive => hexclusive.2.2 _ hmem rfl⟩

end CanBus
end VehicleCanCore

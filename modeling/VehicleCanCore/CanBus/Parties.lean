import VehicleCanCore.CanBus.Acquisition

/-!
# What each party can change

One case analysis for each kind of party gives everything that later arguments
need to know about its single steps: which part of the shared state it leaves
alone, which events it reports, and what it does to the semaphores and to the
ownership of tasks. The steps of the whole system are then sorted by party.
-/

namespace VehicleCanCore
namespace CanBus

open Automata LifecycleController

/-! ## Single accesses -/

namespace Shared

@[simp] theorem drive_false (g : Shared) (call : DriverCall) : g.drive call false = g := rfl
@[simp] theorem drive_lifecycle (g : Shared) (call : DriverCall) (ok : Bool) :
    (g.drive call ok).lifecycle = g.lifecycle := by cases ok <;> rfl

/-- Semaphores are created once and never deleted. -/
structure KeepsSemaphores (g g' : Shared) : Prop where
  available : g.available.isSome = true → g'.available.isSome = true
  taskStopped : g.taskStopped.isSome = true → g'.taskStopped.isSome = true

theorem keepsSemaphores_of_eq {g g' : Shared} (havailable : g'.available = g.available)
    (hstopped : g'.taskStopped = g.taskStopped) : g.KeepsSemaphores g' :=
  ⟨by rw [havailable]; exact id, by rw [hstopped]; exact id⟩

def tokens (g : Shared) : ℕ := g.available.elim 0 Semaphore.count

theorem tokens_le (g : Shared) : g.tokens ≤ kQueueCapacity := by
  unfold tokens
  cases g.available with
  | none => exact Nat.zero_le _
  | some s => exact s.le_limit

def acknowledgements (g : Shared) : ℕ := g.taskStopped.elim 0 Semaphore.count

theorem takeAvailable_eq_some {g g' : Shared} (h : g.takeAvailable = some g') :
    g'.driver = g.driver ∧ g'.lifecycle = g.lifecycle ∧ g'.taskStopped = g.taskStopped ∧
      g.tokens = g'.tokens + 1 ∧ g.KeepsSemaphores g' := by
  simp only [takeAvailable, Option.map_eq_some_iff, Option.bind_eq_some_iff] at h
  obtain ⟨s, ⟨s', hs', htake⟩, rfl⟩ := h
  exact ⟨rfl, rfl, rfl, by simpa [tokens, hs'] using Semaphore.take_eq_some htake, fun _ => rfl,
    id⟩

theorem takeAvailable_frames {g g' : Shared} (h : g.takeAvailable = some g') :
    g'.frames = g.frames ∧ g'.receiveRequested = g.receiveRequested := by
  simp only [takeAvailable, Option.map_eq_some_iff] at h
  obtain ⟨s, -, rfl⟩ := h
  exact ⟨rfl, rfl⟩

theorem takeTaskStopped_eq_some {g g' : Shared} (h : g.takeTaskStopped = some g') :
    g'.driver = g.driver ∧ g'.lifecycle = g.lifecycle ∧
      g.acknowledgements = g'.acknowledgements + 1 ∧ g.KeepsSemaphores g' := by
  simp only [takeTaskStopped, Option.map_eq_some_iff, Option.bind_eq_some_iff] at h
  obtain ⟨s, ⟨s', hs', htake⟩, rfl⟩ := h
  exact ⟨rfl, rfl, by simpa [acknowledgements, hs'] using Semaphore.take_eq_some htake, id,
    fun _ => rfl⟩

theorem takeTaskStopped_eq_none {g : Shared} :
    g.takeTaskStopped = none ↔ g.acknowledgements = 0 := by
  cases hs : g.taskStopped <;>
    simp [takeTaskStopped, acknowledgements, hs, Semaphore.take_eq_none_iff]

theorem takeAvailable_eq_none {g : Shared} : g.takeAvailable = none ↔ g.tokens = 0 := by
  cases hs : g.available <;> simp [takeAvailable, tokens, hs, Semaphore.take_eq_none_iff]

end Shared

open Shared

/-- A cleanup request leaves a stopped controller alone and otherwise enters or
finds the stopping state. -/
theorem beginStopStep_spec {c c' : LifecycleController} {spurious : Bool}
    {pc : CasPc stopSettled} {r : CasPc stopSettled ⊕ Bool}
    (h : c.beginStopStep spurious pc = (c', r)) :
    (c' = c ∨ (c.state ≠ .stopped ∧ c' = { c with state := .stopping })) ∧
      (r = .inr true → c'.state = .stopping) ∧ (r = .inr false → c'.state = .stopped) := by
  rcases casStep_cases h with ⟨rfl, rfl⟩ | ⟨hopen, rfl, rfl⟩
  · refine ⟨.inl rfl, fun hr => ?_, fun hr => ?_⟩
    all_goals
      have hsettled := judge_eq_inr hr
      cases hstate : c'.state <;> simp_all [stopSettled]
  · exact ⟨.inr ⟨fun hstopped => by simp [hstopped, stopSettled] at hopen, rfl⟩, by simp, by simp⟩

theorem latchFaultStep_spec {c c' : LifecycleController} {spurious : Bool}
    {pc : CasPc faultSettled} {r : CasPc faultSettled ⊕ Bool}
    (h : c.latchFaultStep spurious pc = (c', r)) :
    c' = c ∨ (c.state ≠ .stopped ∧ c' = { c with state := .faulted }) := by
  rcases casStep_cases h with ⟨rfl, -⟩ | ⟨hopen, rfl, -⟩
  · exact .inl rfl
  · exact .inr ⟨fun hstopped => by simp [hstopped, faultSettled] at hopen, rfl⟩

/-! ## Everything but the lifecycle calls -/

/-- The effect on the ownership state of everything but the lifecycle calls. -/
structure Shared.Background (g g' : Shared) : Prop where
  driver : g'.driver = g.driver ∨ (g.driver = .running ∧ g'.driver = .busOff)
  installed : g'.lifecycle.driverInstalled = g.lifecycle.driverInstalled
  started : g'.lifecycle.driverStarted = g.lifecycle.driverStarted
  owned : g'.lifecycle.taskOwned = true → g.lifecycle.taskOwned = true
  stopped : g'.lifecycle.state = .stopped ↔ g.lifecycle.state = .stopped

theorem Shared.background_of_eq {g g' : Shared} (hdriver : g'.driver = g.driver)
    (hlifecycle : g'.lifecycle = g.lifecycle) : g.Background g' :=
  ⟨.inl hdriver, by rw [hlifecycle], by rw [hlifecycle], by rw [hlifecycle]; exact id,
    by rw [hlifecycle]⟩

theorem beginStopStep_background {g : Shared} {c : LifecycleController} {spurious : Bool}
    {pc : CasPc stopSettled} {r : CasPc stopSettled ⊕ Bool}
    (h : g.lifecycle.beginStopStep spurious pc = (c, r)) :
    g.Background { g with lifecycle := c } := by
  rcases (beginStopStep_spec h).1 with rfl | ⟨hopen, rfl⟩
  · exact background_of_eq rfl rfl
  · exact ⟨.inl rfl, rfl, rfl, id, by simp [hopen]⟩

def Event.ofControl : Event → Bool
  | .driver .. | .started _ | .stopped _ | .taskCreated => true
  | _ => false

/-! ## Receive tasks -/

def Event.ofTask : Event → Bool
  | .twaiReceive _ | .frameSignalled _ | .faultSignalled _ => true
  | _ => false

/-- Has not yet cleared its ownership flag. -/
def TaskPc.Live : TaskPc → Prop
  | giveStopped | delete | deleted => False
  | _ => True

def TaskPc.isGiving : TaskPc → Bool
  | giveStopped => true
  | _ => false

theorem TaskPc.isGiving_eq_false {pc : TaskPc} : pc.isGiving = false ↔ pc ≠ .giveStopped := by
  cases pc <;> simp [isGiving]

theorem TaskPc.InLoop.live {pc : TaskPc} (h : pc.InLoop) : pc.Live := by
  cases pc <;> trivial

/-- A task keeps its ownership until it clears the flag, then it gives its
acknowledgement, then it is gone. -/
inductive TaskPc.Phase (g g' : Shared) : TaskPc → TaskPc → Prop
  | live {pc pc' : TaskPc} (inLoop : pc.InLoop) (live : pc'.Live)
    (owned : g'.lifecycle.taskOwned = g.lifecycle.taskOwned)
    (taskStopped : g'.taskStopped = g.taskStopped) : Phase g g' pc pc'
  | acknowledge (owned : g'.lifecycle.taskOwned = false)
    (taskStopped : g'.taskStopped = g.taskStopped) : Phase g g' .acknowledge .giveStopped
  | give (given : g' = g.giveTaskStopped) : Phase g g' .giveStopped .delete
  | delete (same : g' = g) : Phase g g' .delete .deleted

structure TaskPc.Effect (g g' : Shared) (pc pc' : TaskPc) (es : List Event) : Prop where
  background : g.Background g'
  semaphores : g.KeepsSemaphores g'
  phase : Phase g g' pc pc'
  events : ∀ e ∈ es, e.ofTask = true ∨ ∃ r, e = .ring r
  receives : ∀ before, .twaiReceive before ∈ es → pc = .receive ∧ before = g.driver

theorem latchFaultStep_owned {c c' : LifecycleController} {spurious : Bool}
    {pc : CasPc faultSettled} {r : CasPc faultSettled ⊕ Bool}
    (h : c.latchFaultStep spurious pc = (c', r)) : c'.taskOwned = c.taskOwned := by
  rcases latchFaultStep_spec h with rfl | ⟨-, rfl⟩ <;> rfl

theorem taskStep_effect {g g' : Shared} {input : TaskInput} {pc pc' : TaskPc}
    {es : List Event} (h : taskStep g input pc = some (g', pc', es)) :
    TaskPc.Effect g g' pc pc' es := by
  have hsame : ∀ {g'' : Shared}, g''.driver = g.driver → g''.lifecycle = g.lifecycle →
      g.Background g'' := Shared.background_of_eq
  have hkeeps : ∀ {g'' : Shared}, g''.available = g.available → g''.taskStopped = g.taskStopped →
      g.KeepsSemaphores g'' := Shared.keepsSemaphores_of_eq
  cases pc with
  | acknowledge =>
    cases h
    exact ⟨⟨.inl rfl, rfl, rfl, by simp [acknowledgeTask], Iff.rfl⟩, hkeeps rfl rfl,
      .acknowledge rfl rfl, by simp, by simp⟩
  | giveStopped =>
    cases h
    exact ⟨hsame rfl rfl, ⟨id, by simp [Shared.giveTaskStopped]⟩, .give rfl, by simp, by simp⟩
  | delete =>
    cases h
    exact ⟨hsame rfl rfl, hkeeps rfl rfl, .delete rfl, by simp, by simp⟩
  | deleted => cases h
  | giveAvailable | giveFault =>
    cases h
    exact ⟨hsame rfl rfl, ⟨by simp [Shared.giveAvailable], id⟩, .live trivial trivial rfl rfl,
      by simp [Event.ofTask], by simp⟩
  | loopHead =>
    cases h
    exact ⟨hsame rfl rfl, hkeeps rfl rfl, .live trivial (by split <;> trivial) rfl rfl, by simp,
      by simp⟩
  | receive =>
    simp only [taskStep] at h
    split at h <;> cases h
    · exact ⟨hsame rfl rfl, hkeeps rfl rfl, .live trivial (by split <;> trivial) rfl rfl,
        by simp [Event.ofTask], by simp⟩
    all_goals exact ⟨hsame rfl rfl, hkeeps rfl rfl, .live trivial trivial rfl rfl,
      by simp [Event.ofTask], by simp⟩
  | readStatus | readAlerts =>
    simp only [taskStep] at h
    split at h <;> cases h <;> exact ⟨hsame rfl rfl, hkeeps rfl rfl,
      .live trivial trivial rfl rfl, by simp, by simp⟩
  | push pc =>
    cases pc with
    | done accepted =>
      cases h
      exact ⟨hsame rfl rfl, hkeeps rfl rfl, .live trivial (by cases accepted <;> trivial) rfl rfl,
        by simp, by simp⟩
    | _ =>
      simp only [taskStep, Option.map_eq_some_iff, Prod.exists] at h
      obtain ⟨m, pc'', es', -, heq⟩ := h
      cases heq
      exact ⟨hsame rfl rfl, hkeeps rfl rfl, .live trivial trivial rfl rfl, by simp, by simp⟩
  | latchFault pc =>
    simp only [taskStep] at h
    split at h <;> cases h
    all_goals
      have hlatch := ‹g.lifecycle.latchFaultStep _ _ = _›
      refine ⟨?_, hkeeps rfl rfl, .live trivial (by first | trivial | split <;> trivial)
        (latchFaultStep_owned hlatch) rfl, by simp, by simp⟩
      rcases latchFaultStep_spec hlatch with rfl | ⟨hopen, rfl⟩
      · exact hsame rfl rfl
      · exact ⟨.inl rfl, rfl, rfl, id, by simp [hopen]⟩
  | _ =>
    cases h
    exact ⟨hsame rfl rfl, hkeeps rfl rfl, .live trivial trivial rfl rfl, by simp, by simp⟩

theorem taskStep_dead {g g' : Shared} {input : TaskInput} {pc pc' : TaskPc} {es : List Event}
    (hpc : ¬ pc.Live) (h : taskStep g input pc = some (g', pc', es)) :
    (∃ stopped, g' = { g with taskStopped := stopped }) ∧ ¬ pc'.Live ∧ es = [] := by
  cases pc with
  | giveStopped =>
    cases h
    exact ⟨⟨_, rfl⟩, id, rfl⟩
  | delete =>
    cases h
    exact ⟨⟨g.taskStopped, rfl⟩, id, rfl⟩
  | deleted => cases h
  | _ => exact absurd trivial hpc

/-! ## The consumer -/

def Event.ofConsumer : Event → Bool
  | .received .. => true
  | _ => false

structure ReceivePc.Effect (g g' : Shared) (es : List Event) : Prop where
  driver : g'.driver = g.driver
  lifecycle : g'.lifecycle = g.lifecycle
  taskStopped : g'.taskStopped = g.taskStopped
  semaphores : g.KeepsSemaphores g'
  events : ∀ e ∈ es, e.ofConsumer = true ∨ ∃ r, e = .ring r

theorem receiveStep_effect {g g' : Shared} {ok : Bool} {pc pc' : ReceivePc} {es : List Event}
    (h : receiveStep g ok pc = some (g', pc', es)) : ReceivePc.Effect g g' es := by
  have hsame : ∀ {es : List Event}, (∀ e ∈ es, e.ofConsumer = true ∨ ∃ r, e = .ring r) →
      ReceivePc.Effect g g es := fun hes => ⟨rfl, rfl, rfl, ⟨id, id⟩, hes⟩
  cases pc with
  | idle => cases h
  | expired =>
    cases h
    exact hsame (by simp [Event.ofConsumer])
  | enter timeoutMs | woken =>
    simp only [receiveStep] at h
    split at h <;> cases h <;> exact hsame (by simp [Event.ofConsumer])
  | wait timeoutMs =>
    simp only [receiveStep] at h
    split at h <;> split_ifs at h <;> cases h
    · obtain ⟨hdriver, hlifecycle, hstopped, -, hkeeps⟩ := Shared.takeAvailable_eq_some ‹_›
      exact ⟨hdriver, hlifecycle, hstopped, hkeeps, by simp⟩
    · exact hsame (by simp)
  | pop pc =>
    cases pc with
    | done frame => cases frame <;> cases h <;> exact hsame (by simp [Event.ofConsumer])
    | _ =>
      simp only [receiveStep, Option.map_eq_some_iff, Prod.exists] at h
      obtain ⟨m, pc'', es', -, heq⟩ := h
      cases heq
      exact ⟨rfl, rfl, rfl, ⟨id, id⟩, by simp⟩

/-! ## Lifecycle calls -/

/-- Points at which the last created task is known to be gone or not there yet. -/
def ControlPc.TaskGone : ControlPc → Prop
  | createTask | clearRequestedAfterTask | acknowledgeAfterTask | acknowledgeTask _ => True
  | _ => False

def ControlPc.hasSemaphores : ControlPc → Bool
  | drainAvailable _ | drainTaskStopped _ | install _ | markInstalled _ | twaiStart _
  | markStarted _ | clearFrames _ _ | setBusId _ | recordControllerReset | resetBaselines
  | setRequested | markTaskCreated | createTask => true
  | _ => false

def Event.releases : Event → Bool
  | .driver .uninstall _ _ | .stopped .ok => true
  | _ => false

def ControlPc.Releasing : ControlPc → Prop
  | uninstallAfterStart | uninstallAfterTask | uninstall | drain => True
  | _ => False

theorem spawned_ne_nil {ok : Bool} {pc : ControlPc} (h : spawned ok pc ≠ []) :
    pc = .createTask ∧ ok = true := by
  cases pc <;> cases ok <;> simp_all [spawned]

/-- The lifecycle calls never give an acknowledgement; they clear the ownership
flag only on behalf of a task that is not there. -/
structure ControlPc.Effect (g g' : Shared) (ok : Bool) (pc pc' : ControlPc) (es : List Event) :
    Prop where
  events : ∀ e ∈ es, e.ofControl = true ∨ ∃ r, e = .ring r
  releases : es.any Event.releases = true → pc.Releasing
  semaphores : g.KeepsSemaphores g'
  created : pc'.hasSemaphores = true → pc.hasSemaphores = true ∨
    (g'.available.isSome = true ∧ g'.taskStopped.isSome = true)
  acknowledgements : g'.acknowledgements ≤ g.acknowledgements
  cleared : g.lifecycle.taskOwned = true → pc.TaskGone ∨ g'.lifecycle.taskOwned = true
  claimed : g'.lifecycle.taskOwned = true → g.lifecycle.taskOwned = true ∨ pc = .markTaskCreated
  entersGone : pc'.TaskGone → pc.TaskGone ∨ pc = .markTaskCreated ∨
    (∃ driverStopped, pc = .waitTask driverStopped) ∧ 0 < g.acknowledgements
  leavesGone : pc.TaskGone → pc'.TaskGone ∨ g'.lifecycle.taskOwned = false ∨ spawned ok pc ≠ []
  reserves : pc' = .createTask → g'.lifecycle.taskOwned = true
  waits : (∃ driverStopped, pc' = .waitTask driverStopped) →
    ¬ pc.TaskGone ∧ g.lifecycle.taskOwned = true

theorem beginStopStep_owned {c c' : LifecycleController} {spurious : Bool}
    {pc : CasPc stopSettled} {r : CasPc stopSettled ⊕ Bool}
    (h : c.beginStopStep spurious pc = (c', r)) : c'.taskOwned = c.taskOwned := by
  rcases (beginStopStep_spec h).1 with rfl | ⟨-, rfl⟩ <;> rfl

theorem beginStart_owned {c c' : LifecycleController} (h : c.beginStart = some c') :
    c'.taskOwned = c.taskOwned := by
  unfold beginStart at h
  split_ifs at h
  cases h
  rfl

theorem abortStep_owned {c c' : LifecycleController} {pc : AbortPc} {r : Option AbortPc}
    (h : c.abortStep pc = (c', r)) : c'.taskOwned = c.taskOwned := by
  cases pc <;> cases h <;> rfl

theorem ControlPc.effect_of_eq {g g' : Shared} {ok : Bool} {pc pc' : ControlPc} {es : List Event}
    (havailable : g'.available = g.available) (hstopped : g'.taskStopped = g.taskStopped)
    (howned : g'.lifecycle.taskOwned = g.lifecycle.taskOwned)
    (hpc : ¬ pc.TaskGone ∧ ¬ pc'.TaskGone ∧ ∀ driverStopped, pc' ≠ .waitTask driverStopped)
    (hcreated : pc'.hasSemaphores = true → pc.hasSemaphores = true)
    (hevents : ∀ e ∈ es, e.ofControl = true ∨ ∃ r, e = .ring r)
    (hreleases : es.any Event.releases = true → pc.Releasing) : Effect g g' ok pc pc' es where
  events := hevents
  releases := hreleases
  semaphores := keepsSemaphores_of_eq havailable hstopped
  created := fun h => .inl (hcreated h)
  acknowledgements := by simp [Shared.acknowledgements, hstopped]
  cleared := fun h => .inr (howned ▸ h)
  claimed := fun h => .inl (howned ▸ h)
  entersGone := fun h => (hpc.2.1 h).elim
  leavesGone := fun h => (hpc.1 h).elim
  reserves := fun h => (hpc.2.1 (by rw [h]; trivial)).elim
  waits := fun ⟨ds, h⟩ => (hpc.2.2 ds h).elim

/-- A step that takes a token; only a `stop` that has waited for the task learns from it
that the task is gone. -/
theorem ControlPc.effect_of_take {g g' : Shared} {ok : Bool} {pc pc' : ControlPc}
    (hkeeps : g.KeepsSemaphores g') (hlifecycle : g'.lifecycle = g.lifecycle)
    (hcount : g'.acknowledgements ≤ g.acknowledgements) (hpc : ¬ pc.TaskGone)
    (hnext : pc' ≠ .createTask ∧ ∀ driverStopped, pc' ≠ .waitTask driverStopped)
    (hcreated : pc'.hasSemaphores = true → pc.hasSemaphores = true)
    (hgone : pc'.TaskGone →
      (∃ driverStopped, pc = .waitTask driverStopped) ∧ 0 < g.acknowledgements) :
    Effect g g' ok pc pc' [] where
  events := by simp
  releases := by simp
  semaphores := hkeeps
  created := fun h => .inl (hcreated h)
  acknowledgements := hcount
  cleared := fun h => .inr (hlifecycle ▸ h)
  claimed := fun h => .inl (hlifecycle ▸ h)
  entersGone := fun h => .inr (.inr (hgone h))
  leavesGone := fun h => (hpc h).elim
  reserves := fun h => (hnext.1 h).elim
  waits := fun ⟨ds, h⟩ => (hnext.2 ds h).elim

theorem controlStep_effect {g g' : Shared} {ok : Bool} {pc pc' : ControlPc} {es : List Event}
    (h : controlStep g ok pc = some (g', pc', es)) : ControlPc.Effect g g' ok pc pc' es := by
  cases pc with
  | idle => cases h
  | beginStart =>
    simp only [controlStep] at h
    split at h <;> cases h
    · exact ControlPc.effect_of_eq rfl rfl (beginStart_owned ‹_›) (by simp [ControlPc.TaskGone])
        (by simp [ControlPc.hasSemaphores]) (by simp) (by simp)
    · exact ControlPc.effect_of_eq rfl rfl rfl (by simp [ControlPc.TaskGone])
        (by simp [ControlPc.hasSemaphores]) (by simp) (by simp)
  | createAvailable =>
    cases h
    exact ⟨by simp, by simp, ⟨fun h => by simp [h], id⟩, nofun, le_rfl, .inr, .inl, False.elim,
      False.elim, nofun, nofun⟩
  | createTaskStopped =>
    have hcount : ∀ created : Option (Semaphore 1), (created = none ∨ created = some .empty) →
        (g.taskStopped.or created).elim 0 Semaphore.count ≤ g.acknowledgements := by
      rintro created (rfl | rfl) <;> cases hstopped : g.taskStopped <;>
        simp [Shared.acknowledgements, hstopped]
    simp only [controlStep] at h
    split_ifs at h with hok hmissing hmissing <;> cases h
    all_goals
      refine ⟨by simp, by simp, ⟨id, fun h => by simp [h]⟩, ?_, hcount _ (by simp), .inr, .inl,
        False.elim, False.elim, nofun, nofun⟩
      simp_all [ControlPc.hasSemaphores, Option.isSome_iff_ne_none]
  | abortStart result pc =>
    simp only [controlStep] at h
    split at h <;> cases h <;>
      exact ControlPc.effect_of_eq rfl rfl (abortStep_owned ‹_›) (by simp [ControlPc.TaskGone])
        (by simp [ControlPc.hasSemaphores]) (by simp [Event.ofControl]) (by simp [Event.releases])
  | drainAvailable | drain =>
    simp only [controlStep] at h
    split at h <;> cases h
    · obtain ⟨-, hlifecycle, hstopped, -, hkeeps⟩ := takeAvailable_eq_some ‹_›
      have hcount : g'.acknowledgements = g.acknowledgements := by
        rw [Shared.acknowledgements, hstopped, ← Shared.acknowledgements]
      exact ControlPc.effect_of_take hkeeps hlifecycle hcount.le id (by simp) id False.elim
    · exact ControlPc.effect_of_eq rfl rfl rfl (by simp [ControlPc.TaskGone])
        (by simp [ControlPc.hasSemaphores]) (by simp [Event.ofControl])
        (by simp [ControlPc.Releasing])
  | drainTaskStopped =>
    simp only [controlStep] at h
    split at h <;> cases h
    · obtain ⟨-, hlifecycle, hcount, hkeeps⟩ := takeTaskStopped_eq_some ‹_›
      exact ControlPc.effect_of_take hkeeps hlifecycle (by omega) id (by simp) id False.elim
    · exact ControlPc.effect_of_eq rfl rfl rfl (by simp [ControlPc.TaskGone])
        (by simp [ControlPc.hasSemaphores]) (by simp) (by simp)
  | setBusId =>
    simp only [controlStep] at h
    split_ifs at h <;> cases h <;>
      exact ControlPc.effect_of_eq rfl rfl rfl (by simp [ControlPc.TaskGone])
        (by simp [ControlPc.hasSemaphores]) (by simp) (by simp)
  | clearFrames configuration pc =>
    cases pc with
    | done =>
      cases h
      exact ControlPc.effect_of_eq rfl rfl rfl (by simp [ControlPc.TaskGone])
        (by simp [ControlPc.hasSemaphores]) (by simp) (by simp)
    | _ =>
      simp only [controlStep, Option.map_eq_some_iff, Prod.exists] at h
      obtain ⟨m, pc'', es', -, heq⟩ := h
      cases heq
      exact ControlPc.effect_of_eq rfl rfl rfl (by simp [ControlPc.TaskGone])
        (by simp [ControlPc.hasSemaphores]) (by simp) (by simp [Event.releases])
  | beginStop | beginStopAfterTask =>
    simp only [controlStep] at h
    split at h <;> cases h <;>
      exact ControlPc.effect_of_eq rfl rfl (beginStopStep_owned ‹_›) (by simp [ControlPc.TaskGone])
        (by simp [ControlPc.hasSemaphores]) (by simp [Event.ofControl]) (by simp [Event.releases])
  | markTaskCreated =>
    cases h
    exact ⟨by simp, by simp, ⟨id, id⟩, fun _ => .inl rfl, le_rfl, fun _ => .inr rfl,
      fun _ => .inr rfl, fun _ => .inr (.inl rfl), False.elim, fun _ => rfl, nofun⟩
  | createTask =>
    cases ok <;> cases h
    · exact ⟨by simp, by simp, ⟨id, id⟩, nofun, le_rfl, .inr, .inl, .inl, fun _ => .inl trivial,
        nofun, nofun⟩
    · exact ⟨by simp [Event.ofControl], by simp [Event.releases], ⟨id, id⟩, nofun, le_rfl, .inr,
        .inl, False.elim, fun _ => .inr (.inr (by simp [spawned])), nofun, nofun⟩
  | clearRequestedAfterTask =>
    cases h
    exact ⟨by simp, by simp, ⟨id, id⟩, nofun, le_rfl, .inr, .inl, .inl, fun _ => .inl trivial,
      nofun, nofun⟩
  | acknowledgeAfterTask | acknowledgeTask =>
    cases h
    exact ⟨by simp, by simp, ⟨id, id⟩, nofun, le_rfl, fun _ => .inl trivial, nofun, False.elim,
      fun _ => .inr (.inl rfl), nofun, nofun⟩
  | waitTask driverStopped =>
    simp only [controlStep] at h
    split at h <;> split_ifs at h <;> cases h
    · have htake : g.takeTaskStopped = some g' := ‹_›
      obtain ⟨-, hlifecycle, hcount, hkeeps⟩ := takeTaskStopped_eq_some htake
      exact ControlPc.effect_of_take hkeeps hlifecycle (by omega) id (by simp)
        (by simp [ControlPc.hasSemaphores]) fun _ => ⟨⟨driverStopped, rfl⟩, by omega⟩
    · exact ControlPc.effect_of_eq rfl rfl rfl (by simp [ControlPc.TaskGone])
        (by simp [ControlPc.hasSemaphores]) (by simp) (by simp)
  | readOwned =>
    simp only [controlStep] at h
    split_ifs at h with howned <;> cases h
    · exact ⟨by simp, by simp, ⟨id, id⟩, nofun, le_rfl, .inr, .inl, False.elim, False.elim, nofun,
        fun _ => ⟨id, howned⟩⟩
    · exact ControlPc.effect_of_eq rfl rfl rfl (by simp [ControlPc.TaskGone])
        (by simp [ControlPc.hasSemaphores]) (by simp) (by simp)
  | tryTakeTask =>
    cases h
    cases htake : g.takeTaskStopped with
    | none =>
      exact ControlPc.effect_of_eq rfl rfl rfl (by simp [ControlPc.TaskGone])
        (by simp [ControlPc.hasSemaphores]) (by simp) (by simp)
    | some g' =>
      obtain ⟨-, hlifecycle, hcount, hkeeps⟩ := takeTaskStopped_eq_some htake
      simp only [Option.getD_some]
      exact ControlPc.effect_of_take hkeeps hlifecycle (by omega) id (by simp)
        (by simp [ControlPc.hasSemaphores]) False.elim
  | reconcile next pc =>
    cases pc with
    | store target =>
      cases h
      cases next with
      | stop driverStopped taskStopped driverUninstalled =>
        simp only [afterReconcile]
        split_ifs <;> exact ControlPc.effect_of_eq rfl rfl rfl (by simp [ControlPc.TaskGone])
          (by simp [ControlPc.hasSemaphores]) (by simp [Event.ofControl])
          (by simp [Event.releases])
      | _ =>
        exact ControlPc.effect_of_eq rfl rfl rfl (by simp [ControlPc.TaskGone, afterReconcile])
          (by simp [ControlPc.hasSemaphores, afterReconcile])
          (by simp [Event.ofControl, afterReconcile]) (by simp [Event.releases, afterReconcile])
    | _ =>
      cases h
      exact ControlPc.effect_of_eq rfl rfl rfl (by simp [ControlPc.TaskGone])
        (by simp [ControlPc.hasSemaphores]) (by simp) (by simp)
  | install | twaiStart | uninstallAfterStart | uninstall | twaiStop | twaiStopAfterTask
  | uninstallAfterTask =>
    cases ok <;> cases h <;>
      exact ControlPc.effect_of_eq rfl rfl rfl (by simp [ControlPc.TaskGone])
        (by simp [ControlPc.hasSemaphores]) (by simp [Event.ofControl])
        (by simp [Event.releases, ControlPc.Releasing])
  | readStarted | readInstalled =>
    simp only [controlStep] at h
    split_ifs at h <;> cases h <;>
      exact ControlPc.effect_of_eq rfl rfl rfl (by simp [ControlPc.TaskGone])
        (by simp [ControlPc.hasSemaphores]) (by simp) (by simp)
  | _ =>
    cases h
    exact ControlPc.effect_of_eq rfl rfl rfl (by simp [ControlPc.TaskGone])
      (by simp [ControlPc.hasSemaphores]) (by simp [Event.ofControl]) (by simp [Event.releases])

/-! ## Steps of the whole system -/

theorem Event.ofTask.quiet {e : Event} (h : e.ofTask = true ∨ ∃ r, e = .ring r) :
    e.ofControl = false := by
  cases e <;> simp_all [ofTask, ofControl]

theorem Event.ofConsumer.quiet {e : Event} (h : e.ofConsumer = true ∨ ∃ r, e = .ring r) :
    e.ofControl = false := by
  cases e <;> simp_all [ofConsumer, ofControl]

/-- A step begins a lifecycle call, continues the one in progress, or is
background activity that leaves the lifecycle calls where they are. -/
theorem Stepped.control_cases {s t : State} {a : Action} {es : List Event}
    (h : Stepped s a t es) :
    (a.beginsCall = true ∧ s.control = .idle ∧ t.shared = s.shared ∧
      ((∃ configuration, t.control = .beginStart configuration ∧ es = []) ∨
        (t.control = .idle ∧ es = [.started ⟨.invalidConfiguration, false⟩]) ∨
        (t.control = .beginStop .load ∧ es = []))) ∨
    (∃ ok, a = .control ok ∧
      controlStep s.shared ok s.control = some (t.shared, t.control, es)) ∨
    (t.control = s.control ∧ s.shared.Background t.shared ∧ ∀ e ∈ es, e.ofControl = false) := by
  cases h with
  | start idle => exact .inl ⟨rfl, idle, rfl, .inl ⟨_, rfl, rfl⟩⟩
  | startInvalid idle => exact .inl ⟨rfl, idle, rfl, .inr (.inl ⟨idle, rfl⟩)⟩
  | stop idle => exact .inl ⟨rfl, idle, rfl, .inr (.inr ⟨rfl, rfl⟩)⟩
  | control hstep => exact .inr (.inl ⟨_, rfl, hstep⟩)
  | task active hstep =>
    have heffect := taskStep_effect hstep
    have hquiet := fun e he => Event.ofTask.quiet (heffect.events e he)
    exact .inr (.inr ⟨rfl, heffect.background, hquiet⟩)
  | consumer hstep =>
    have heffect := receiveStep_effect hstep
    exact .inr (.inr ⟨rfl, Shared.background_of_eq heffect.driver heffect.lifecycle,
      fun e he => Event.ofConsumer.quiet (heffect.events e he)⟩)
  | receive | beginSnapshot =>
    exact .inr (.inr ⟨rfl, Shared.background_of_eq rfl rfl, by simp⟩)
  | snapshot | returnSnapshot =>
    exact .inr (.inr ⟨rfl, Shared.background_of_eq rfl rfl, by simp [Event.ofControl]⟩)
  | enterBusOff running =>
    exact .inr (.inr ⟨rfl, ⟨.inr ⟨running, rfl⟩, rfl, rfl, id, Iff.rfl⟩, by simp⟩)

structure State.Elsewhere (s t : State) : Prop where
  tasks : t.tasks = s.tasks
  lifecycle : t.shared.lifecycle = s.shared.lifecycle
  taskStopped : t.shared.taskStopped = s.shared.taskStopped
  semaphores : s.shared.KeepsSemaphores t.shared
  control : t.control = s.control ∨ (s.control = .idle ∧
    ((∃ configuration, t.control = .beginStart configuration) ∨ t.control = .beginStop .load))

theorem step_parties {s t : State} {a : Action} {es : List Event} (h : step s a = some (t, es)) :
    (∃ i input pc pc', s.tasks[i]? = some pc ∧
      taskStep s.shared input pc = some (t.shared, pc', es) ∧ t.tasks = s.tasks.set i pc' ∧
      t.control = s.control) ∨
    (∃ ok, a = .control ok ∧ controlStep s.shared ok s.control = some (t.shared, t.control, es) ∧
      t.tasks = s.tasks ++ spawned ok s.control) ∨ s.Elsewhere t := by
  cases step_cases h with
  | task active hstep => exact .inl ⟨_, _, _, _, active, hstep, rfl, rfl⟩
  | control hstep => exact .inr (.inl ⟨_, rfl, hstep, rfl⟩)
  | consumer hstep =>
    have heffect := receiveStep_effect hstep
    exact .inr (.inr ⟨rfl, heffect.lifecycle, heffect.taskStopped, heffect.semaphores, .inl rfl⟩)
  | start idle => exact .inr (.inr ⟨rfl, rfl, rfl, ⟨id, id⟩, .inr ⟨idle, .inl ⟨_, rfl⟩⟩⟩)
  | stop idle => exact .inr (.inr ⟨rfl, rfl, rfl, ⟨id, id⟩, .inr ⟨idle, .inr rfl⟩⟩)
  | startInvalid | receive | beginSnapshot | snapshot | returnSnapshot | enterBusOff =>
    exact .inr (.inr ⟨rfl, rfl, rfl, ⟨id, id⟩, .inl rfl⟩)

end CanBus
end VehicleCanCore

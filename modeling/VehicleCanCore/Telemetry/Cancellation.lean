import VehicleCanCore.CanBus.Wakeup
import VehicleCanCore.Telemetry.CanBusSource

/-!
# A pending receive while its source is stopped

A consumer leaves its wait on `g_available` with a wakeup, and wakeups come from
receive tasks only: no step of `stop` gives one, and a `stop` that succeeds ends
by taking back all that are queued. What a consumer finds when the call returns
is therefore decided by the schedule alone: by what was queued, what tasks have
given, what the consumer has done itself, and whether a cleanup stage was refused.
-/

namespace VehicleCanCore
namespace CanBus

open Automata Shared

/-! ## Wakeups and stages, as the schedule has them -/

def ReceivePc.isWaiting : ReceivePc → Bool
  | wait _ => true
  | _ => false

def TaskPc.isWaking : TaskPc → Bool
  | giveAvailable | giveFault => true
  | _ => false

/-- The stages of `stop` that can be refused: the two driver calls and the wait
for the receive task. -/
def ControlPc.isStage : ControlPc → Bool
  | twaiStop | waitTask _ | uninstall => true
  | _ => false

inductive WakeupEvent
  | waits
  | leaves
  | given
  | refused
  deriving DecidableEq, Repr

def ReceivePc.wakeups (g : Shared) : ReceivePc → List WakeupEvent
  | enter _ => if (notRunningResult g.lifecycle.state).isNone then [.waits] else []
  | wait _ => [.leaves]
  | _ => []

/-- What an action does to the wait of the consumer, to its wakeups and to the
stages of a `stop`. -/
def State.wakeups (s : State) : Action → List WakeupEvent
  | .control ok => if s.control.isStage && !ok then [.refused] else []
  | .task i _ => if s.tasks[i]?.any TaskPc.isWaking then [.given] else []
  | .consumer _ => s.consumer.wakeups s.shared
  | _ => []

/-- Whether the consumer waits, the wakeups in `g_available` as long as `stop`
has taken none back, and whether a stage has been refused. -/
structure WakeupHistory where
  waiting : Bool
  queued : ℕ
  refused : Bool := false
  deriving DecidableEq, Repr

namespace WakeupHistory

def take (h : WakeupHistory) : WakeupEvent → WakeupHistory
  | .waits => { h with waiting := true }
  | .leaves => { h with waiting := false, queued := h.queued - 1 }
  | .given => { h with queued := min (h.queued + 1) kQueueCapacity }
  | .refused => { h with refused := true }

def after (h : WakeupHistory) (es : List WakeupEvent) : WakeupHistory := es.foldl take h

@[simp] theorem after_nil (h : WakeupHistory) : h.after [] = h := rfl

@[simp] theorem after_singleton (h : WakeupHistory) (e : WakeupEvent) :
    h.after [e] = h.take e := rfl

theorem after_append (h : WakeupHistory) (es fs : List WakeupEvent) :
    h.after (es ++ fs) = (h.after es).after fs := List.foldl_append

end WakeupHistory

/-! ## The steps of `stop` -/

/-- A refused stage, as the rest of the call remembers it. -/
def ControlPc.refused : ControlPc → Bool
  | readOwned driverStopped | waitTask driverStopped | acknowledgeTask driverStopped
  | tryTakeTask driverStopped => !driverStopped
  | readInstalled driverStopped taskStopped => !(driverStopped && taskStopped)
  | reconcile (.stop driverStopped taskStopped driverUninstalled) _ =>
    !(driverStopped && taskStopped && driverUninstalled)
  | _ => false

def ControlPc.isDrain : ControlPc → Bool
  | drain => true
  | _ => false

/-- Inside `stop`; before its lifecycle transition the controller is not stopped. -/
def ControlPc.Begun (g : Shared) (pc : ControlPc) : Prop :=
  pc.phase = .stopping ∧ ∀ q, pc = .beginStop q → g.lifecycle.state ≠ .stopped

/-- A step of `stop` as the consumer sees it: wakeups stay until the drain and are
only taken there, and a call that returns without the drain has failed. -/
inductive StopStep (g g' : Shared) (ok : Bool) : ControlPc → ControlPc → List Event → Prop
  | goes {pc pc' : ControlPc} {es : List Event} (begun : pc'.Begun g')
    (quiet : ∀ e ∈ es, e.returns = false)
    (refused : pc'.refused = (pc.refused || (pc.isStage && !ok)))
    (tokens : pc'.isDrain = false → pc.isDrain = false ∧ g'.tokens = g.tokens) :
    StopStep g g' ok pc pc' es
  | fails {pc : ControlPc} {r : Result} (refused : pc.refused = true)
    (undrained : pc.isDrain = false) (tokens : g'.tokens = g.tokens) :
    StopStep g g' ok pc .idle [.stopped r]
  | completes (empty : g'.tokens = 0) : StopStep g g' ok .drain .idle [.stopped .ok]

theorem takeTaskStopped_tokens {g g' : Shared} (h : g.takeTaskStopped = some g') :
    g'.tokens = g.tokens := by
  simp only [takeTaskStopped, Option.map_eq_some_iff] at h
  obtain ⟨s, -, rfl⟩ := h
  rfl

theorem controlStep_stopStep {g g' : Shared} {ok : Bool} {pc pc' : ControlPc} {es : List Event}
    (hbegun : pc.Begun g) (h : controlStep g ok pc = some (g', pc', es)) :
    StopStep g g' ok pc pc' es := by
  obtain ⟨hphase, hactive⟩ := hbegun
  have hgoes : ∀ {pc' : ControlPc}, pc'.phase = .stopping → (∀ q, pc' ≠ .beginStop q) →
      pc'.Begun g' := fun hphase' hnot => ⟨hphase', fun q hq => absurd hq (hnot q)⟩
  cases pc with
  | beginStop pc =>
    have hactive := hactive pc rfl
    simp only [controlStep] at h
    split at h <;> cases h
    all_goals have hbegin := ‹g.lifecycle.beginStopStep _ _ = _›
    · refine .goes ⟨rfl, fun _ _ => ?_⟩ (by simp) rfl fun _ => ⟨rfl, rfl⟩
      exact (beginStopStep_background hbegin).active hactive
    · exact .goes (hgoes rfl (by simp)) (by simp) rfl fun _ => ⟨rfl, rfl⟩
    · exact absurd ((beginStopStep_spec hbegin).2.2 rfl)
        ((beginStopStep_background hbegin).active hactive)
  | readStarted | readOwned =>
    simp only [controlStep] at h
    split_ifs at h <;> cases h <;>
      exact .goes (hgoes rfl (by simp)) (by simp) (by simp [ControlPc.refused, ControlPc.isStage])
        fun _ => ⟨rfl, rfl⟩
  | twaiStop | uninstall =>
    cases ok <;> cases h <;>
      exact .goes (hgoes rfl (by simp)) (by simp [Event.returns]) rfl fun _ => ⟨rfl, rfl⟩
  | waitTask driverStopped =>
    simp only [controlStep] at h
    split at h <;> split_ifs at h with hok <;> cases h
    · have htokens := takeTaskStopped_tokens ‹g.takeTaskStopped = _›
      exact .goes (hgoes rfl (by simp)) (by simp) (by simp [ControlPc.refused, hok])
        fun _ => ⟨rfl, htokens⟩
    · exact .goes (hgoes rfl (by simp)) (by simp)
        (by simp [ControlPc.refused, ControlPc.isStage, hok]) fun _ => ⟨rfl, rfl⟩
  | tryTakeTask driverStopped =>
    cases h
    refine .goes (hgoes rfl (by simp)) (by simp) (by simp [ControlPc.refused, ControlPc.isStage])
      fun _ => ⟨rfl, ?_⟩
    cases htake : g.takeTaskStopped with
    | none => rfl
    | some g' => exact takeTaskStopped_tokens htake
  | readInstalled driverStopped taskStopped =>
    simp only [controlStep] at h
    split_ifs at h with hall <;> cases h
    · simp only [Bool.and_eq_true] at hall
      exact .goes (hgoes rfl (by simp)) (by simp)
        (by simp [ControlPc.refused, ControlPc.isStage, hall]) fun _ => ⟨rfl, rfl⟩
    · refine .goes (hgoes rfl (by simp)) (by simp) ?_ fun _ => ⟨rfl, rfl⟩
      cases driverStopped <;> cases taskStopped <;>
        simp_all [ControlPc.refused, ControlPc.isStage]
  | reconcile next pc =>
    cases next with
    | stop driverStopped taskStopped driverUninstalled =>
      cases pc with
      | store target =>
        simp only [controlStep, LifecycleController.reconcileStep, afterReconcile] at h
        split_ifs at h with hall htask <;> cases h
        · exact .goes (hgoes rfl (by simp)) (by simp)
            (by simp [ControlPc.refused, ControlPc.isStage, hall]) fun _ => ⟨rfl, rfl⟩
        all_goals
          rw [Bool.not_eq_true] at hall
          exact .fails (by simp [ControlPc.refused, hall]) rfl rfl
      | _ =>
        cases h
        exact .goes (hgoes rfl (by simp)) (by simp) (by simp [ControlPc.refused, ControlPc.isStage])
          fun _ => ⟨rfl, rfl⟩
    | _ => cases hphase
  | drain =>
    simp only [controlStep] at h
    split at h <;> cases h
    · exact .goes (hgoes rfl (by simp)) (by simp) rfl (by simp [ControlPc.isDrain])
    · exact .completes (takeAvailable_eq_none.mp ‹_›)
  | clearRequested | markStopped | acknowledgeTask | markUninstalled =>
    cases h
    exact .goes (hgoes rfl (by simp)) (by simp) (by simp [ControlPc.refused, ControlPc.isStage])
      fun _ => ⟨rfl, rfl⟩
  | _ => cases hphase

/-! ## The other parties -/

theorem taskStep_tokens {g g' : Shared} {input : TaskInput} {pc pc' : TaskPc} {es : List Event}
    (havailable : g.available.isSome = true) (h : taskStep g input pc = some (g', pc', es)) :
    g'.tokens = if pc.isWaking then min (g.tokens + 1) kQueueCapacity else g.tokens := by
  cases pc with
  | giveAvailable | giveFault =>
    cases h
    exact (giveAvailable_spec havailable).2.1
  | receive | readStatus | readAlerts | latchFault =>
    simp only [taskStep] at h
    split at h <;> cases h <;> rfl
  | push pc =>
    cases pc with
    | done =>
      cases h
      rfl
    | _ =>
      simp only [taskStep, Option.map_eq_some_iff, Prod.exists] at h
      obtain ⟨m, pc'', es', -, heq⟩ := h
      cases heq
      rfl
  | deleted => cases h
  | _ =>
    cases h
    rfl

theorem receiveStep_wakeups {g g' : Shared} {ok : Bool} {pc pc' : ReceivePc} {es : List Event}
    {h : WakeupHistory} (hwaiting : h.waiting = pc.isWaiting)
    (hstep : receiveStep g ok pc = some (g', pc', es)) :
    (h.after (pc.wakeups g)).waiting = pc'.isWaiting ∧
      (h.after (pc.wakeups g)).refused = h.refused ∧
      (h.queued = g.tokens → (h.after (pc.wakeups g)).queued = g'.tokens) := by
  cases pc with
  | idle => cases hstep
  | enter timeoutMs =>
    simp only [receiveStep] at hstep
    split at hstep <;> cases hstep
    all_goals
      have hresult := ‹notRunningResult g.lifecycle.state = _›
      simp [ReceivePc.wakeups, hresult, WakeupHistory.take, hwaiting, ReceivePc.isWaiting]
  | wait timeoutMs =>
    simp only [receiveStep] at hstep
    split at hstep <;> split_ifs at hstep <;> cases hstep
    · have htokens := (takeAvailable_eq_some ‹g.takeAvailable = _›).2.2.2.1
      refine ⟨rfl, rfl, fun hqueued => ?_⟩
      simp only [ReceivePc.wakeups, WakeupHistory.after_singleton, WakeupHistory.take]
      omega
    · have hempty := takeAvailable_eq_none.mp ‹g.takeAvailable = none›
      refine ⟨rfl, rfl, fun hqueued => ?_⟩
      simp only [ReceivePc.wakeups, WakeupHistory.after_singleton, WakeupHistory.take]
      omega
  | expired =>
    cases hstep
    exact ⟨hwaiting, rfl, id⟩
  | woken =>
    simp only [receiveStep] at hstep
    split at hstep <;> cases hstep <;> exact ⟨hwaiting, rfl, id⟩
  | pop pc =>
    cases pc with
    | done frame => cases frame <;> cases hstep <;> exact ⟨hwaiting, rfl, id⟩
    | _ =>
      simp only [receiveStep, Option.map_eq_some_iff, Prod.exists] at hstep
      obtain ⟨m, pc'', es', -, heq⟩ := hstep
      cases heq
      exact ⟨hwaiting, rfl, id⟩

/-! ## Histories and states -/

namespace WakeupHistory

/-- The history of a `stop` in progress. -/
structure Describes (h : WakeupHistory) (s : State) : Prop where
  begun : s.control.Begun s.shared
  refused : h.refused = s.control.refused
  waiting : h.waiting = s.consumer.isWaiting
  queued : s.control.isDrain = false → h.queued = s.shared.tokens

/-- The history of a `stop` that has returned: a refused stage has spared the wakeups. -/
structure Settles (h : WakeupHistory) (s : State) : Prop where
  waiting : s.consumer.isWaiting = h.waiting
  tokens : s.shared.tokens = if h.refused then h.queued else 0

theorem Describes.background {h h' : WakeupHistory} {s t : State} (hd : h.Describes s)
    (hcontrol : t.control = s.control) (hback : s.shared.Background t.shared)
    (hrefused : h'.refused = h.refused) (hwaiting : h'.waiting = t.consumer.isWaiting)
    (hqueued : h.queued = s.shared.tokens → h'.queued = t.shared.tokens) : h'.Describes t where
  begun := by
    rw [hcontrol]
    exact ⟨hd.begun.1, fun q hq => hback.active (hd.begun.2 q hq)⟩
  refused := by rw [hrefused, hcontrol, hd.refused]
  waiting := hwaiting
  queued := fun hdrain => hqueued (hd.queued (hcontrol ▸ hdrain))

end WakeupHistory

/-- A step during a `stop` either continues it or returns from it. -/
theorem step_describes {h : WakeupHistory} {s t : State} {a : Action} {es : List Event}
    (hd : h.Describes s) (hsignal : s.Signalling) (ha : a.beginsCall = false)
    (hstep : step s a = some (t, es)) :
    ((h.after (s.wakeups a)).Describes t ∧ ∀ e ∈ es, e.returns = false) ∨
      h.Settles t ∧ ∃ r, es = [.stopped r] := by
  cases step_cases hstep with
  | start | startInvalid | stop => cases ha
  | control hcontrol =>
    rename_i ok g pc
    have hstop := controlStep_stopStep hd.begun hcontrol
    generalize hpc : s.control = before at hstop
    cases hstop with
    | goes begun quiet refused tokens =>
      refine .inl ⟨⟨begun, ?_, ?_, ?_⟩, quiet⟩
      all_goals simp only [State.wakeups, hpc]
      · rw [refused, ← hpc, ← hd.refused, hpc]
        split_ifs with hstage <;> simp [WakeupHistory.take, hstage]
      · split_ifs <;> exact hd.waiting
      · intro hdrain
        obtain ⟨hundrained, htokens⟩ := tokens hdrain
        have hqueued := hd.queued (hpc ▸ hundrained)
        rw [htokens]
        split_ifs <;> exact hqueued
    | fails refused undrained tokens =>
      have hrefused : h.refused = true := by rw [hd.refused, hpc, refused]
      have hqueued := hd.queued (hpc ▸ undrained)
      exact .inr ⟨⟨hd.waiting.symm, by simp [hrefused, tokens, hqueued]⟩, _, rfl⟩
    | completes empty =>
      have hrefused : h.refused = false := by
        rw [hd.refused, hpc]
        rfl
      exact .inr ⟨⟨hd.waiting.symm, by simp [hrefused, empty]⟩, _, rfl⟩
  | task active htask =>
    rename_i i input pc pc' g
    have heffect := taskStep_effect htask
    have havailable : s.shared.available.isSome = true := by
      refine (hsignal (.inr ?_)).1
      rintro hnil
      simp [hnil] at active
    have htokens := taskStep_tokens havailable htask
    refine .inl ⟨hd.background rfl heffect.background ?_ ?_ ?_, fun e he =>
      Event.not_returns_of_quiet (Event.ofTask.quiet (heffect.events e he))⟩
    all_goals simp only [State.wakeups, active, Option.any_some]
    · split_ifs <;> rfl
    · split_ifs <;> exact hd.waiting
    · intro hqueued
      rw [htokens]
      split_ifs <;> simp [WakeupHistory.take, hqueued]
  | consumer hreceive =>
    have heffect := receiveStep_effect hreceive
    obtain ⟨hwaiting, hrefused, hqueued⟩ := receiveStep_wakeups hd.waiting hreceive
    exact .inl ⟨hd.background rfl (Shared.background_of_eq heffect.driver heffect.lifecycle)
      hrefused hwaiting hqueued, fun e he =>
        Event.not_returns_of_quiet (Event.ofConsumer.quiet (heffect.events e he))⟩
  | receive idle =>
    have hwaiting := hd.waiting
    rw [idle] at hwaiting
    exact .inl ⟨hd.background rfl (Shared.background_of_eq rfl rfl) rfl hwaiting id, by simp⟩
  | beginSnapshot =>
    exact .inl ⟨hd.background rfl (Shared.background_of_eq rfl rfl) rfl hd.waiting id, by simp⟩
  | snapshot | returnSnapshot =>
    exact .inl ⟨hd.background rfl (Shared.background_of_eq rfl rfl) rfl hd.waiting id,
      by simp [Event.returns]⟩
  | enterBusOff running =>
    exact .inl ⟨hd.background rfl ⟨.inr ⟨running, rfl⟩, rfl, rfl, id, Iff.rfl⟩ rfl hd.waiting id,
      by simp⟩

end CanBus

namespace Telemetry
namespace Sources

open Automata
open CanBus (WakeupHistory)

/-! ## A stop with a pending receive -/

def State.wakeups (s : State) : Action → List CanBus.WakeupEvent
  | .bus a => s.bus.wakeups a
  | _ => []

def State.pendingReceive (s : State) : WakeupHistory :=
  { waiting := true, queued := s.bus.shared.tokens }

/-- What a schedule makes of it. -/
def wakeupHistory (s : State) (as : List Action) : WakeupHistory :=
  s.pendingReceive.after (machine.history State.wakeups s as)

structure Cancelling (i : ℕ) (op : Operation) (h : WakeupHistory) (u : State) : Prop where
  call : u.call = some (i, op)
  object : ∃ self, u.sources i = some self
  describes : h.Describes u.bus
  signalling : u.bus.Signalling

theorem step_between {u t : State} {a : CanBus.Action} {es : List Event} (hfree : u.call = none)
    (hstep : step u (.bus a) = some (t, es)) : t.call = none ∧ es = [] := by
  cases step_cases hstep with
  | manage manages => cases manages
  | bus background hbus =>
    rw [State.advance_free hfree]
    exact ⟨hfree, rfl⟩

theorem step_cancelling {i : ℕ} {op : Operation} {h : WakeupHistory} {u t : State}
    {a : CanBus.Action} {es : List Event} (hc : Cancelling i op h u)
    (hstep : step u (.bus a) = some (t, es)) :
    (Cancelling i op (h.after (u.wakeups (.bus a))) t ∧ es = []) ∨
      (t.call = none ∧ h.Settles t.bus) := by
  obtain ⟨hcall, ⟨self, hself⟩, hdescribes, hsignal⟩ := hc
  cases step_cases hstep with
  | manage manages => cases manages
  | bus background hbus =>
    have hsignal' := hsignal.step hbus
    rcases CanBus.step_describes hdescribes hsignal background hbus with
      ⟨hdescribes', hquiet⟩ | ⟨hsettles, r, rfl⟩
    · rw [State.advance_quiet hquiet]
      exact .inl ⟨⟨hcall, ⟨self, hself⟩, hdescribes', hsignal'⟩, rfl⟩
    · obtain ⟨t, heq, htbus, htcall, -⟩ := advance_stopped hcall hself _ r
      rw [heq]
      exact .inr ⟨htcall, htbus ▸ hsettles⟩

theorem call_cancelling {s u : State} {i : ℕ} {op : Operation} {es : List Event}
    (hs : machine.Reachable {} s) (hop : op ≠ .start) (howner : s.owns i = true)
    (hwait : s.bus.consumer.isWaiting = true) (hstep : step s (.call i op) = some (u, es)) :
    Cancelling i op s.pendingReceive u := by
  have hsignal := (CanBus.State.reachable_awaited (reachable_bus hs)).1
  cases step_cases hstep with
  | manage manages => cases manages
  | start => exact absurd rfl hop
  | stopRefused stops free object unowned =>
    rw [State.owns_of_source object, unowned] at howner
    cases howner
  | stop stops free object owner hbus =>
    have hin := (reachable_sound hs).inCall
    rw [free] at hin
    have hactive := hin.2.active.mp ⟨i, howner⟩
    have hsignal' := hsignal.step hbus
    cases CanBus.step_cases hbus with
    | stop idle =>
      refine ⟨rfl, ⟨_, object⟩, ⟨⟨rfl, fun _ _ => hactive⟩, rfl, ?_, fun _ => rfl⟩, hsignal'⟩
      exact hwait.symm

theorem run_cancelling {s u : State} {i : ℕ} {op : Operation} {as : List CanBus.Action}
    {es : List Event} (hs : machine.Reachable {} s) (hop : op ≠ .start)
    (howner : s.owns i = true) (hwait : s.bus.consumer.isWaiting = true)
    (hrun : machine.run s (.call i op :: as.map .bus) = some (u, es)) :
    u.call = none ∨ Cancelling i op (wakeupHistory s (.call i op :: as.map .bus)) u := by
  obtain ⟨u₀, fs, gs, hcall, htail, rfl⟩ := machine.run_cons.mp hrun
  have hbegun := call_cancelling hs hop howner hwait hcall
  have hhistory : machine.history State.wakeups s (.call i op :: as.map .bus) =
      [] ++ machine.history State.wakeups u₀ (as.map .bus) := by
    simp [Machine.history, hcall, State.wakeups]
  rw [wakeupHistory, hhistory]
  refine machine.run_history_along (C := fun _ a => ∃ b, a = .bus b)
    (I := fun l u => u.call = none ∨ Cancelling i op (s.pendingReceive.after l) u)
    ?_ (.inr hbegun) (Machine.along_of_forall ?_) htail
  · rintro l u _ t es hu ⟨b, rfl⟩ hstep
    replace hstep : step u (.bus b) = some (t, es) := hstep
    rcases hu with hfree | hc
    · exact .inl (step_between hfree hstep).1
    · rw [WakeupHistory.after_append]
      rcases step_cancelling hc hstep with ⟨hc', -⟩ | ⟨hfree, -⟩
      · exact .inr hc'
      · exact .inl hfree
  · intro a ha
    obtain ⟨b, -, rfl⟩ := List.mem_map.mp ha
    exact ⟨b, rfl⟩

/-- A `stop` of the owner returns while a `receive` was pending at the call. The
consumer is out of its wait or has a wakeup if and only if it has left the wait
itself, or a cleanup stage was refused and what was queued, with what the tasks
gave and the consumer took, leaves a wakeup. -/
theorem stop_cancels_receive_iff {s u t : State} {i : ℕ} {op : Operation}
    {as : List CanBus.Action} {a : CanBus.Action} {es : List Event} {result : ResultCode}
    (hs : machine.Reachable {} s) (hop : op ≠ .start) (howner : s.owns i = true)
    (hwait : s.bus.consumer.isWaiting = true)
    (hrun : machine.run s (.call i op :: as.map .bus) = some (u, es))
    (hreturn : machine.step u (.bus a) = some (t, [.returned i result])) :
    (t.bus.consumer.isWaiting = true → 0 < t.bus.shared.tokens) ↔
      ((wakeupHistory s (.call i op :: as.map .bus)).waiting = true →
        (wakeupHistory s (.call i op :: as.map .bus)).refused = true ∧
          0 < (wakeupHistory s (.call i op :: as.map .bus)).queued) := by
  replace hreturn : step u (.bus a) = some (t, [.returned i result]) := hreturn
  rcases run_cancelling hs hop howner hwait hrun with hfree | hc
  · cases (step_between hfree hreturn).2
  · rcases step_cancelling hc hreturn with ⟨-, hnone⟩ | ⟨-, hsettles⟩
    · cases hnone
    · rw [hsettles.waiting, hsettles.tokens]
      split_ifs with hrefused <;> simp [hrefused]

/-- Object 0 has started and a consumer waits; the receive task has gone through `inputs`. -/
def pendingSchedule (inputs : List CanBus.TaskInput) : List Action :=
  let control : Action := .bus (.control true)
  let task (input : CanBus.TaskInput) : Action := .bus (.task 0 input)
  [.construct 0 {}, .call 0 .start] ++ List.replicate 37 control ++
    [.bus (.receive 60000), .bus (.consumer true)] ++ inputs.map task

/-- The steps of a `stop` up to its return: every stage is granted, the receive task
acknowledging in time. -/
def grantedStages : List CanBus.Action :=
  let control : CanBus.Action := .control true
  let task : CanBus.Action := .task 0 {}
  List.replicate 7 control ++ List.replicate 3 task ++ List.replicate 8 control

def refusedStages : List CanBus.Action :=
  let control (ok : Bool) : CanBus.Action := .control ok
  List.replicate 7 (control true) ++ [control false, control true, control true]

/-- A frame has been signalled before the call, which gives up its wait for the task. -/
theorem stop_cancels_receive_iff_refused : ∃ s u t es fs,
    machine.run {} (pendingSchedule ({} :: { received := .message {} 0 } ::
      List.replicate 10 {})) = some (s, es) ∧
    machine.run s (.call 0 .stop :: refusedStages.map .bus) = some (u, fs) ∧
    machine.step u (.bus (.control true)) = some (t, [.returned 0 .faulted]) ∧
    t.bus.consumer.isWaiting = true ∧ 0 < t.bus.shared.tokens := by
  have hobserved : ((machine.run {} (pendingSchedule ({} :: { received := .message {} 0 } ::
      List.replicate 10 {}))).bind fun p =>
        (machine.run p.1 (.call 0 .stop :: refusedStages.map .bus)).bind fun q =>
          (machine.step q.1 (.bus (.control true))).map fun r =>
            (p.1.owns 0, p.1.bus.consumer.isWaiting,
              wakeupHistory p.1 (.call 0 .stop :: refusedStages.map .bus),
              r.1.bus.consumer.isWaiting, r.2)) =
      some (true, true, ⟨true, 1, true⟩, true, [.returned 0 .faulted]) := by decide +kernel
  simp only [Option.bind_eq_some_iff, Option.map_eq_some_iff, Prod.exists, Prod.mk.injEq]
    at hobserved
  obtain ⟨s, es, hs, u, fs, hrun, t, _, hreturn, howner, hwait, hhistory, hwaits, rfl⟩ := hobserved
  refine ⟨s, u, t, es, fs, hs, hrun, hreturn, hwaits, ?_⟩
  refine (stop_cancels_receive_iff ⟨_, es, hs⟩ (by simp) howner hwait hrun hreturn).mpr ?_ hwaits
  simp [hhistory]

/-- On a silent bus a successful `stop` leaves the consumer to its timeout: nobody
gives it a wakeup. -/
theorem stop_leaves_receive_pending : ¬ ∀ (s u t : State) (i : ℕ) (op : Operation)
    (as : List CanBus.Action) (a : CanBus.Action) (es : List Event) (result : ResultCode),
    machine.Reachable {} s → op ≠ .start → s.owns i = true →
      s.bus.consumer.isWaiting = true →
      machine.run s (.call i op :: as.map .bus) = some (u, es) →
      machine.step u (.bus a) = some (t, [.returned i result]) →
        t.bus.consumer.isWaiting = true → 0 < t.bus.shared.tokens := by
  intro h
  have hobserved : ((machine.run {} (pendingSchedule [])).bind fun p =>
      (machine.run p.1 (.call 0 .stop :: grantedStages.map .bus)).bind fun q =>
        (machine.step q.1 (.bus (.control true))).map fun r =>
          (p.1.owns 0, p.1.bus.consumer.isWaiting, r.1.bus.consumer.isWaiting,
            r.1.bus.shared.tokens, r.2)) =
      some (true, true, true, 0, [.returned 0 .ok]) := by decide +kernel
  simp only [Option.bind_eq_some_iff, Option.map_eq_some_iff, Prod.exists, Prod.mk.injEq]
    at hobserved
  obtain ⟨s, es, hs, u, fs, hrun, t, _, hreturn, howner, hwait, hwaits, hempty, rfl⟩ := hobserved
  have hwoken := h s u t 0 .stop grantedStages (.control true) fs .ok ⟨_, es, hs⟩ (by simp)
    howner hwait hrun hreturn hwaits
  omega

end Sources
end Telemetry
end VehicleCanCore

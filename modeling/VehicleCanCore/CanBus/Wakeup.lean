import VehicleCanCore.CanBus.FrameRingFifo
import VehicleCanCore.CanBus.Cleanup

/-!
# Frames and wakeups of one acquisition interval

Frames pass through the ring and wakeups through a semaphore, and neither is
updated together with the other. Between a successful `start` and the next
`stop` the two agree up to what the receive task and the consumer have in
hand, until the task latches a fault; from then on every `receive` reports it.
-/

namespace VehicleCanCore
namespace CanBus

open VehicleCanCore.Core Automata LifecycleController Shared

/-! ## What the two sides have in hand -/

def PushPc.unsignalled : FrameRing.PushPc 32 → ℕ
  | .loadWatermark _ | .raiseWatermark _ _ | .countQueued | .done true => 1
  | _ => 0

/-- A frame that is published and has not been signalled. -/
def TaskPc.unsignalled : TaskPc → ℕ
  | push pc => PushPc.unsignalled pc
  | giveAvailable => 1
  | _ => 0

/-- A frame that `pop` is about to release. -/
def PopPc.claimed : FrameRing.PopPc 32 → ℕ
  | .loadTail | .loadHead _ | .readSlot _ | .storeTail _ _ => 1
  | .countDelivered _ | .done _ => 0

/-- A frame whose token has been taken and that is not released. -/
def ReceivePc.claimed : ReceivePc → ℕ
  | woken => 1
  | pop pc => PopPc.claimed pc
  | _ => 0

theorem queueCapacity_dvd : queueCapacity.size ∣ 2 ^ 32 := by decide

theorem pushStep_unsignalled {m m' : FrameRing.Memory queueCapacity} {spurious : Bool}
    {pc pc' : FrameRing.PushPc 32} {es : List FrameRing.Event} (hsound : pc.Sound m)
    (h : FrameRing.pushStep m spurious pc = some (m', pc', es)) :
    m'.held + PushPc.unsignalled pc = m.held + PushPc.unsignalled pc' := by
  cases pc with
  | loadTail frame head =>
    simp only [FrameRing.pushStep] at h
    split_ifs at h <;> cases h <;> rfl
  | storeHead frame head tail =>
    obtain ⟨rfl, hfree, -⟩ := hsound
    cases h
    exact m.held_advanceHead hfree
  | raiseWatermark depth watermark =>
    simp only [FrameRing.pushStep, FrameRing.PushPc.afterWatermark] at h
    split_ifs at h <;> cases h <;> rfl
  | loadWatermark depth =>
    simp only [FrameRing.pushStep, FrameRing.PushPc.afterWatermark] at h
    split_ifs at h <;> cases h <;> rfl
  | done => cases h
  | _ =>
    cases h
    rfl

theorem popStep_claimed {m m' : FrameRing.Memory queueCapacity} {pc pc' : FrameRing.PopPc 32}
    {es : List FrameRing.Event} (hsound : pc.Sound m) (hheld : PopPc.claimed pc ≤ m.held)
    (h : FrameRing.popStep m pc = some (m', pc', es)) :
    m'.held + PopPc.claimed pc = m.held + PopPc.claimed pc' ∧ pc' ≠ .done none := by
  cases pc with
  | loadTail =>
    cases h
    exact ⟨rfl, by simp⟩
  | loadHead tail =>
    obtain rfl : tail = m.tail := hsound
    simp only [FrameRing.popStep] at h
    split_ifs at h with hempty <;> cases h
    · simp [PopPc.claimed, FrameRing.Memory.held, hempty] at hheld
    · exact ⟨rfl, by simp⟩
  | readSlot tail =>
    cases h
    exact ⟨rfl, by simp⟩
  | storeTail tail frame =>
    obtain ⟨rfl, hpos, -⟩ := hsound
    cases h
    exact ⟨m.held_advanceTail hpos, by simp⟩
  | countDelivered frame =>
    cases h
    exact ⟨rfl, by simp⟩
  | done => cases h

/-! ## The invariant of an interval -/

def TaskPc.Receiving : TaskPc → Prop
  | latchFault _ | giveFault | acknowledge | giveStopped | delete | deleted => False
  | _ => True

def TaskPc.Ended : TaskPc → Prop
  | giveFault | acknowledge | giveStopped | delete | deleted => True
  | _ => False

/-- The two phases of an interval: before the latch tokens and frames balance;
after it no new `pop` begins and a waiting consumer has a token once the latch
has been signalled. -/
inductive Phase (g : Shared) (pc : TaskPc) (c : ReceivePc) : Prop
  | running (state : g.lifecycle.state = .running)
    (task : pc.Receiving ∧ g.receiveRequested = true ∨ ∃ q, pc = .latchFault q)
    (balance : g.tokens + pc.unsignalled + c.claimed = g.frames.held)
  | faulted (state : g.lifecycle.state = .faulted) (task : pc.Ended)
    (popping : ∀ q, c = .pop q → PopPc.claimed q ≤ g.frames.held)
    (waiting : pc ≠ .giveFault → (∃ timeoutMs, c = .wait timeoutMs) → 0 < g.tokens)

structure Interval (g : Shared) (pc : TaskPc) (c : ReceivePc) : Prop where
  available : g.available.isSome = true
  bounded : g.frames.held ≤ kQueueCapacity
  producer : ∀ q, pc = .push q → q.Sound g.frames
  consumer : ∀ q, c = .pop q → q.Sound g.frames ∧ q ≠ .done none
  phase : Phase g pc c

theorem Shared.giveAvailable_spec {g : Shared} (h : g.available.isSome = true) :
    g.giveAvailable.available.isSome = true ∧
      g.giveAvailable.tokens = min (g.tokens + 1) kQueueCapacity ∧
      g.canSignal = decide (g.tokens < kQueueCapacity) := by
  obtain ⟨s, hs⟩ := Option.isSome_iff_exists.mp h
  refine ⟨by simp [Shared.giveAvailable, hs],
    by simp [Shared.giveAvailable, Shared.tokens, hs, s.count_give], ?_⟩
  by_cases hlt : s.count < kQueueCapacity <;>
    simp [Shared.canSignal, Shared.tokens, hs, Semaphore.give, hlt]

/-- The shared state as far as frames and wakeups depend on it. -/
structure Shared.SameTraffic (g g' : Shared) : Prop where
  queue : g.frames.SameQueue g'.frames
  available : g'.available = g.available
  state : g'.lifecycle.state = g.lifecycle.state
  requested : g'.receiveRequested = g.receiveRequested

theorem Shared.sameTraffic_refl (g : Shared) : g.SameTraffic g :=
  ⟨FrameRing.Memory.sameQueue_refl _, rfl, rfl, rfl⟩

namespace Interval

variable {g g' : Shared} {pc pc' : TaskPc} {c : ReceivePc}

theorem sameTraffic (h : Interval g pc c) (hsame : g.SameTraffic g') : Interval g' pc c where
  available := hsame.available ▸ h.available
  bounded := hsame.queue.held_eq ▸ h.bounded
  producer q hpc := (h.producer q hpc).sameQueue hsame.queue
  consumer q hc := ⟨(h.consumer q hc).1.sameQueue hsame.queue, (h.consumer q hc).2⟩
  phase := by
    have htokens : g'.tokens = g.tokens := by rw [Shared.tokens, hsame.available, Shared.tokens]
    cases h.phase with
    | running state task balance =>
      exact .running (hsame.state ▸ state) (hsame.requested ▸ task)
        (by rw [htokens, hsame.queue.held_eq, balance])
    | faulted state task popping waiting =>
      exact .faulted (hsame.state ▸ state) task (hsame.queue.held_eq ▸ popping) (htokens ▸ waiting)

theorem running_of_not_ended (h : Interval g pc c) (hpc : ¬ pc.Ended) :
    g.lifecycle.state = .running ∧ g.tokens + pc.unsignalled + c.claimed = g.frames.held := by
  cases h.phase with
  | running state task balance => exact ⟨state, balance⟩
  | faulted state task => exact absurd task hpc

theorem faulted_of_ended (h : Interval g pc c) (hpc : pc.Ended) :
    g.lifecycle.state = .faulted ∧ (∀ q, c = .pop q → PopPc.claimed q ≤ g.frames.held) ∧
      (pc ≠ .giveFault → (∃ timeoutMs, c = .wait timeoutMs) → 0 < g.tokens) := by
  cases h.phase with
  | running state task =>
    rcases task with ⟨hreceiving, -⟩ | ⟨q, rfl⟩
    · cases pc <;> first | exact hpc.elim | exact hreceiving.elim
    · exact hpc.elim
  | faulted state task popping waiting => exact ⟨state, popping, waiting⟩

theorem move (h : Interval g pc c) (hpc : pc.Receiving) (hpc' : pc'.Receiving)
    (hhand : pc'.unsignalled = pc.unsignalled)
    (hproducer : ∀ q, pc' = .push q → q.Sound g'.frames) (hsame : g.SameTraffic g') :
    Interval g' pc' c := by
  obtain ⟨available, bounded, -, consumer, phase⟩ := h.sameTraffic hsame
  refine ⟨available, bounded, hproducer, consumer, ?_⟩
  cases phase with
  | running state task balance =>
    refine .running state (task.imp (fun ht => ⟨hpc', ht.2⟩) ?_) (hhand ▸ balance)
    rintro ⟨q, rfl⟩
    exact hpc.elim
  | faulted state task => cases pc <;> first | exact task.elim | exact hpc.elim

theorem requested (h : Interval g pc c) (hpc : pc.Receiving) :
    g.lifecycle.state = .running ∧ g.receiveRequested = true ∧
      g.tokens + pc.unsignalled + c.claimed = g.frames.held := by
  cases h.phase with
  | running state task balance =>
    rcases task with task | ⟨q, rfl⟩
    · exact ⟨state, task.2, balance⟩
    · exact hpc.elim
  | faulted state task => cases pc <;> first | exact task.elim | exact hpc.elim

theorem task_step {input : TaskInput} {es : List Event} (h : Interval g pc c)
    (hstep : taskStep g input pc = some (g', pc', es)) :
    Interval g' pc' c ∧ ∀ ok, .frameSignalled ok ∈ es → ok = true := by
  cases pc with
  | loopHead =>
    have hreq := (h.requested trivial).2.1
    simp only [taskStep, hreq, if_true] at hstep
    cases hstep
    exact ⟨h.move trivial trivial rfl (by simp) g.sameTraffic_refl, by simp⟩
  | receive =>
    simp only [taskStep] at hstep
    split at hstep <;> cases hstep
    · refine ⟨h.move trivial ?_ ?_ ?_ g.sameTraffic_refl, by simp⟩
      · split <;> trivial
      · split <;> rfl
      · intro q hq
        split_ifs at hq
        cases hq
        trivial
    all_goals exact ⟨h.move trivial trivial rfl (by simp) g.sameTraffic_refl, by simp⟩
  | push q =>
    cases q with
    | done accepted =>
      cases hstep
      cases accepted <;> exact ⟨h.move trivial trivial rfl (by simp) g.sameTraffic_refl, by simp⟩
    | _ =>
      simp only [taskStep, Option.map_eq_some_iff, Prod.exists] at hstep
      obtain ⟨m, q', es', hpush, heq⟩ := hstep
      cases heq
      refine ⟨?_, by simp⟩
      obtain ⟨hstate, hreq, hbalance⟩ := h.requested trivial
      obtain ⟨hbounded, hsound, hpop, -⟩ :=
        FrameRing.pushStep_refines queueCapacity_dvd h.bounded (h.producer _ rfl) hpush
      have hhand := pushStep_unsignalled (h.producer _ rfl) hpush
      refine ⟨h.available, hbounded, ?_, fun r hr => ⟨hpop r (h.consumer r hr).1,
        (h.consumer r hr).2⟩, .running hstate (.inl ⟨trivial, hreq⟩) ?_⟩
      · rintro r hr
        cases hr
        exact hsound
      · simp only [TaskPc.unsignalled, Shared.tokens] at hbalance hhand ⊢
        omega
  | giveAvailable =>
    obtain ⟨hstate, hreq, hbalance⟩ := h.requested trivial
    obtain ⟨hsome, htokens, hsignal⟩ := Shared.giveAvailable_spec h.available
    have hbounded := h.bounded
    simp only [TaskPc.unsignalled] at hbalance
    cases hstep
    refine ⟨⟨hsome, h.bounded, by simp, h.consumer,
      .running hstate (.inl ⟨trivial, hreq⟩) ?_⟩, ?_⟩
    · rw [htokens]
      simp only [TaskPc.unsignalled, Shared.giveAvailable]
      omega
    · intro ok hok
      simp only [List.mem_singleton, Event.frameSignalled.injEq] at hok
      rw [hok, hsignal, decide_eq_true_eq]
      omega
  | recordInvalid | recordBusErrors | recordRxMissed | recordBusOff =>
    cases hstep
    have hsame := FrameRing.Memory.sameQueue_fetchAdd g.frames
    exact ⟨h.move trivial trivial rfl (by simp) ⟨hsame _ _, rfl, rfl, rfl⟩, by simp⟩
  | saveBaselines =>
    cases hstep
    have hsame := FrameRing.Memory.sameQueue_refl g.frames
    exact ⟨h.move trivial trivial rfl (by simp) ⟨hsame, rfl, rfl, rfl⟩, by simp⟩
  | readStatus | readAlerts =>
    simp only [taskStep] at hstep
    split at hstep <;> cases hstep <;>
      exact ⟨h.move trivial trivial rfl (by simp) g.sameTraffic_refl, by simp⟩
  | clearRequested =>
    obtain ⟨hstate, -, hbalance⟩ := h.requested trivial
    cases hstep
    exact ⟨⟨h.available, h.bounded, by simp, h.consumer,
      .running hstate (.inr ⟨_, rfl⟩) hbalance⟩, by simp⟩
  | latchFault q =>
    obtain ⟨hrunning, hbalance⟩ := h.running_of_not_ended id
    simp only [taskStep] at hstep
    split at hstep <;> cases hstep
    · rename_i hlatch
      rcases casStep_cases hlatch with ⟨rfl, -⟩ | ⟨-, -, hr⟩
      · exact ⟨⟨h.available, h.bounded, by simp, h.consumer,
          .running hrunning (.inr ⟨_, rfl⟩) hbalance⟩, by simp⟩
      · cases hr
    · -- only the exchange ends the loop, since the lifecycle is running
      rename_i hlatch
      rcases casStep_cases hlatch with ⟨rfl, hr⟩ | ⟨-, rfl, hr⟩
      · have hsettled := judge_eq_inr hr.symm
        simp [hrunning, faultSettled] at hsettled
      · cases hr
        simp only [h.available, Bool.and_self, if_true]
        refine ⟨⟨h.available, h.bounded, by simp, h.consumer,
          .faulted rfl trivial (fun r hr => ?_) (by simp)⟩, by simp⟩
        subst hr
        simp only [TaskPc.unsignalled, ReceivePc.claimed] at hbalance
        change _ ≤ g.frames.held
        omega
  | giveFault =>
    obtain ⟨hfaulted, hpopping, -⟩ := h.faulted_of_ended trivial
    obtain ⟨hsome, htokens, -⟩ := Shared.giveAvailable_spec h.available
    cases hstep
    refine ⟨⟨hsome, h.bounded, by simp, h.consumer,
      .faulted hfaulted trivial hpopping fun _ _ => ?_⟩, by simp⟩
    rw [htokens]
    exact Nat.lt_min.mpr ⟨Nat.succ_pos _, by decide⟩
  | acknowledge | giveStopped | delete =>
    obtain ⟨hfaulted, hpopping, hwaiting⟩ := h.faulted_of_ended trivial
    cases hstep
    exact ⟨⟨h.available, h.bounded, by simp, h.consumer,
      .faulted hfaulted trivial hpopping fun _ => hwaiting (by simp)⟩, by simp⟩
  | deleted => cases hstep

theorem settle {c' : ReceivePc} (h : Interval g pc c) (hclaimed : c'.claimed = c.claimed)
    (hc' : (∀ q, c' ≠ .pop q) ∧ ∀ timeoutMs, c' ≠ .wait timeoutMs) : Interval g pc c' where
  available := h.available
  bounded := h.bounded
  producer := h.producer
  consumer := fun q hq => (hc'.1 q hq).elim
  phase := by
    cases h.phase with
    | running state task balance => exact .running state task (hclaimed ▸ balance)
    | faulted state task =>
      exact .faulted state task (fun q hq => (hc'.1 q hq).elim) fun _ ⟨t, ht⟩ => (hc'.2 t ht).elim

theorem pop_step {q q' : FrameRing.PopPc 32} {m : FrameRing.Memory queueCapacity}
    {es : List FrameRing.Event} (h : Interval g pc (.pop q))
    (hpop : FrameRing.popStep g.frames q = some (m, q', es)) :
    Interval { g with frames := m } pc (.pop q') := by
  obtain ⟨hsound, -⟩ := h.consumer q rfl
  have hheld : PopPc.claimed q ≤ g.frames.held := by
    cases h.phase with
    | running state task balance =>
      simp only [ReceivePc.claimed] at balance
      omega
    | faulted state task popping => exact popping q rfl
  obtain ⟨hbounded, hsound', hpush, -⟩ := FrameRing.popStep_refines h.bounded hsound hpop
  obtain ⟨hhand, hsome⟩ := popStep_claimed hsound hheld hpop
  refine ⟨h.available, hbounded, fun p hp => hpush p (h.producer p hp), ?_, ?_⟩
  · rintro r hr
    cases hr
    exact ⟨hsound', hsome⟩
  · cases h.phase with
    | running state task balance =>
      refine .running state task ?_
      simp only [ReceivePc.claimed, Shared.tokens] at balance ⊢
      omega
    | faulted state task =>
      refine .faulted state task ?_ (by simp)
      rintro r hr
      cases hr
      change _ ≤ m.held
      omega

theorem consumer_step {ok : Bool} {c' : ReceivePc} {es : List Event} (h : Interval g pc c)
    (hstep : receiveStep g ok c = some (g', c', es)) :
    Interval g' pc c' ∧ ∀ frame, .received .driverFailure frame ∉ es := by
  cases c with
  | idle => cases hstep
  | enter timeoutMs =>
    simp only [receiveStep] at hstep
    cases h.phase with
    | running state task balance =>
      simp only [state, notRunningResult] at hstep
      cases hstep
      exact ⟨⟨h.available, h.bounded, h.producer, by simp, .running state task balance⟩, by simp⟩
    | faulted state task =>
      simp only [state, notRunningResult] at hstep
      cases hstep
      exact ⟨h.settle rfl (by simp), by simp⟩
  | wait timeoutMs =>
    simp only [receiveStep] at hstep
    split at hstep <;> split_ifs at hstep <;> cases hstep
    · have htake : g.takeAvailable = some g' := ‹_›
      obtain ⟨-, hlifecycle, -, htokens, hkeeps⟩ := Shared.takeAvailable_eq_some htake
      obtain ⟨hframes, hrequested⟩ := Shared.takeAvailable_frames htake
      refine ⟨⟨hkeeps.available h.available, hframes ▸ h.bounded, hframes ▸ h.producer, by simp,
        ?_⟩,
        by simp⟩
      cases h.phase with
      | running state task balance =>
        refine .running (hlifecycle ▸ state) (hrequested ▸ task) ?_
        simp only [ReceivePc.claimed] at balance ⊢
        rw [hframes]
        omega
      | faulted state task =>
        exact .faulted (hlifecycle ▸ state) task (by simp) (by simp)
    · exact ⟨h.settle rfl (by simp), by simp⟩
  | expired =>
    cases hstep
    refine ⟨h.settle rfl (by simp), ?_⟩
    cases g.lifecycle.state <;> simp [notRunningResult]
  | woken =>
    simp only [receiveStep] at hstep
    cases h.phase with
    | running state task balance =>
      simp only [state, notRunningResult] at hstep
      cases hstep
      refine ⟨⟨h.available, h.bounded, h.producer, ?_, .running state task balance⟩, by simp⟩
      rintro q hq
      cases hq
      exact ⟨trivial, by simp⟩
    | faulted state task =>
      simp only [state, notRunningResult] at hstep
      cases hstep
      refine ⟨⟨h.available, h.bounded, h.producer, by simp, .faulted state task (by simp) ?_⟩,
        by simp⟩
      rintro - ⟨_, hwait⟩
      cases hwait
  | pop q =>
    cases q with
    | done frame =>
      cases frame with
      | none => exact absurd rfl (h.consumer _ rfl).2
      | some frame =>
        cases hstep
        exact ⟨h.settle rfl (by simp), by simp⟩
    | _ =>
      simp only [receiveStep, Option.map_eq_some_iff, Prod.exists] at hstep
      obtain ⟨m, q', es', hpop, heq⟩ := hstep
      cases heq
      exact ⟨h.pop_step hpop, by simp⟩

end Interval
/-! ## Steps within an interval -/

/-- Between the creation of task `n` and the next `stop`; every other task is past
its acknowledgement, and the only lifecycle calls are refused starts. -/
structure State.InInterval (n : ℕ) (s : State) : Prop where
  task : ∃ pc, s.tasks[n]? = some pc ∧ Interval s.shared pc s.consumer
  others : ∀ j q, s.tasks[j]? = some q → j ≠ n → ¬ q.Live
  control : s.control = .startSucceeded ∨ s.control = .idle ∨ s.control = .rejected ∨
    ∃ configuration, s.control = .beginStart configuration

theorem taskStep_dead_traffic {g g' : Shared} {input : TaskInput} {pc pc' : TaskPc}
    {es : List Event} (hpc : ¬ pc.Live) (h : taskStep g input pc = some (g', pc', es)) :
    g.SameTraffic g' ∧ ¬ pc'.Live ∧ es = [] := by
  obtain ⟨⟨stopped, rfl⟩, hdead, hes⟩ := taskStep_dead hpc h
  exact ⟨⟨FrameRing.Memory.sameQueue_refl _, rfl, rfl, rfl⟩, hdead, hes⟩

/-- A lifecycle call inside an interval is a start that is being refused, or the
end of the one that opened the interval. -/
theorem controlStep_inInterval {g g' : Shared} {ok : Bool} {pc pc' : ControlPc}
    {es : List Event} (hactive : g.lifecycle.state ≠ .stopped)
    (hpc : pc = .startSucceeded ∨ pc = .idle ∨ pc = .rejected ∨
      ∃ configuration, pc = .beginStart configuration)
    (h : controlStep g ok pc = some (g', pc', es)) :
    g.SameTraffic g' ∧ spawned ok pc = [] ∧ (pc' = .idle ∨ pc' = .rejected) := by
  rcases hpc with rfl | rfl | rfl | ⟨configuration, rfl⟩
  · cases h
    exact ⟨⟨FrameRing.Memory.sameQueue_refl _, rfl, rfl, rfl⟩, rfl, .inl rfl⟩
  · cases h
  · cases h
    exact ⟨g.sameTraffic_refl, rfl, .inl rfl⟩
  · simp only [controlStep, beginStart, hactive, if_false] at h
    cases h
    exact ⟨g.sameTraffic_refl, rfl, .inr rfl⟩

theorem Interval.active {g : Shared} {pc : TaskPc} {c : ReceivePc} (h : Interval g pc c) :
    g.lifecycle.state ≠ .stopped := by
  cases h.phase with
  | running state => simp [state]
  | faulted state => simp [state]

theorem step_inInterval {n : ℕ} {s t : State} {a : Action} {es : List Event}
    (h : s.InInterval n) (ha : a ≠ .stop) (hstep : step s a = some (t, es)) :
    t.InInterval n ∧ (∀ ok, .frameSignalled ok ∈ es → ok = true) ∧
      ∀ frame, .received .driverFailure frame ∉ es := by
  obtain ⟨pc, hpc, hinterval⟩ := h.task
  cases step_cases hstep with
  | stop => exact absurd rfl ha
  | start =>
    exact ⟨⟨⟨pc, hpc, hinterval⟩, h.others, .inr (.inr (.inr ⟨_, rfl⟩))⟩, by simp, by simp⟩
  | startInvalid => exact ⟨h, by simp, by simp⟩
  | control hcontrol =>
    obtain ⟨hsame, hspawn, hpc'⟩ := controlStep_inInterval hinterval.active h.control hcontrol
    have hevents := (controlStep_effect hcontrol).events
    refine ⟨⟨⟨pc, by simpa [hspawn] using hpc, hinterval.sameTraffic hsame⟩,
      by simpa [hspawn] using h.others, .inr (hpc'.imp_right .inl)⟩, fun ok hok => ?_,
      fun frame hframe => ?_⟩
    · simpa [Event.ofControl] using hevents _ hok
    · simpa [Event.ofControl] using hevents _ hframe
  | @task i input q q' g es active htask =>
    have heffect := taskStep_effect htask
    have hlt : n < s.tasks.length := (List.getElem?_eq_some_iff.mp hpc).1
    have hreceived : ∀ frame, .received .driverFailure frame ∉ es := fun frame hframe => by
      simpa [Event.ofTask] using heffect.events _ hframe
    by_cases hi : i = n
    · subst hi
      obtain rfl : q = pc := Option.some.inj (active.symm.trans hpc)
      obtain ⟨hinterval', hsignalled⟩ := hinterval.task_step htask
      refine ⟨⟨⟨q', by simp [hlt], hinterval'⟩, fun j r hr hj => ?_, h.control⟩, hsignalled,
        hreceived⟩
      rw [List.getElem?_set_ne (Ne.symm hj)] at hr
      exact h.others j r hr hj
    · obtain ⟨hsame, hdead, rfl⟩ := taskStep_dead_traffic (h.others i q active hi) htask
      refine ⟨⟨⟨pc, by rwa [List.getElem?_set_ne hi], hinterval.sameTraffic hsame⟩,
        fun j r hr hj => ?_, h.control⟩, by simp, by simp⟩
      rw [List.getElem?_set] at hr
      split_ifs at hr with hij hlt'
      · cases hr
        exact hdead
      · exact h.others j r hr hj
  | receive idle =>
    rw [idle] at hinterval
    exact ⟨⟨⟨pc, hpc, hinterval.settle rfl (by simp)⟩, h.others, h.control⟩, by simp, by simp⟩
  | consumer hconsumer =>
    obtain ⟨hinterval', hfailure⟩ := hinterval.consumer_step hconsumer
    refine ⟨⟨⟨pc, hpc, hinterval'⟩, h.others, h.control⟩, fun ok hok => ?_, hfailure⟩
    simpa [Event.ofConsumer] using (receiveStep_effect hconsumer).events _ hok
  | snapshot active hsnapshot =>
    have hq := (FrameRing.snapshotStep_sameQueue hsnapshot).1
    exact ⟨⟨⟨pc, hpc, hinterval.sameTraffic ⟨hq, rfl, rfl, rfl⟩⟩, h.others, h.control⟩, by simp,
      by simp⟩
  | beginSnapshot | returnSnapshot =>
    exact ⟨⟨⟨pc, hpc, hinterval⟩, h.others, h.control⟩, by simp, by simp⟩
  | enterBusOff =>
    exact ⟨⟨⟨pc, hpc, hinterval.sameTraffic ⟨FrameRing.Memory.sameQueue_refl _, rfl, rfl, rfl⟩⟩,
      h.others, h.control⟩, by simp, by simp⟩

/-! ## The start that opens an interval -/

structure Shared.Quiet (g : Shared) : Prop where
  state : g.lifecycle.state = .running
  tokens : g.tokens = 0
  held : g.frames.held = 0

/-- What a start on its way to success has established. -/
def ControlPc.StartPoint (g : Shared) : ControlPc → Prop
  | beginStart _ => True
  | createAvailable _ | createTaskStopped _ | drainAvailable _ => g.lifecycle.state = .running
  | drainTaskStopped _ | install _ | markInstalled _ | twaiStart _ | markStarted _
  | clearFrames _ .loadHead => g.lifecycle.state = .running ∧ g.tokens = 0
  | clearFrames _ (.storeTail head) =>
    g.lifecycle.state = .running ∧ g.tokens = 0 ∧ head = g.frames.head
  | clearFrames _ _ | setBusId _ | recordControllerReset | resetBaselines | setRequested => g.Quiet
  | markTaskCreated | createTask => g.Quiet ∧ g.receiveRequested = true
  | _ => False

def ControlPc.StartFailing : ControlPc → Prop
  | idle | rejected | uninstallAfterStart | markUninstalledAfterStart | clearRequestedAfterTask
  | acknowledgeAfterTask | beginStopAfterTask _ | twaiStopAfterTask | markStoppedAfterTask
  | uninstallAfterTask | markUninstalledAfterTask | reconcile (.startFailed _) _
  | reconcile (.taskFailed _) _ => True
  | abortStart result _ => result ≠ .ok
  | _ => False

theorem takeTaskStopped_sameTraffic {g g' : Shared} (h : g.takeTaskStopped = some g') :
    g.SameTraffic g' := by
  simp only [takeTaskStopped, Option.map_eq_some_iff] at h
  obtain ⟨s, -, rfl⟩ := h
  exact ⟨FrameRing.Memory.sameQueue_refl _, rfl, rfl, rfl⟩

theorem controlStep_failing {g g' : Shared} {ok : Bool} {pc pc' : ControlPc} {es : List Event}
    (hpc : pc.StartFailing) (h : controlStep g ok pc = some (g', pc', es)) :
    pc'.StartFailing ∧ spawned ok pc = [] ∧ ∀ o, .started o ∈ es → o.result ≠ .ok := by
  cases pc with
  | idle => cases h
  | rejected =>
    cases h
    refine ⟨trivial, rfl, fun o ho => ?_⟩
    obtain rfl : o = _ := by simpa using ho
    cases g.lifecycle.state <;> simp [rejectedResult]
  | abortStart result pc =>
    have hresult : result ≠ .ok := hpc
    simp only [controlStep] at h
    split at h <;> cases h
    · exact ⟨hpc, rfl, by simp⟩
    · exact ⟨trivial, rfl, by simpa using hresult⟩
  | beginStopAfterTask =>
    simp only [controlStep] at h
    split at h <;> cases h <;> exact ⟨trivial, rfl, by simp⟩
  | uninstallAfterStart | twaiStopAfterTask | uninstallAfterTask =>
    cases ok <;> cases h <;> exact ⟨trivial, rfl, by simp⟩
  | reconcile next pc =>
    cases pc with
    | store target =>
      cases next <;>
        first | exact hpc.elim | (cases h; exact ⟨trivial, rfl, by simp [afterReconcile]⟩)
    | _ =>
      cases next <;> first | exact hpc.elim | (cases h; exact ⟨trivial, rfl, by simp⟩)
  | markUninstalledAfterStart | clearRequestedAfterTask | acknowledgeAfterTask
  | markStoppedAfterTask | markUninstalledAfterTask =>
    cases h
    exact ⟨trivial, rfl, by simp⟩
  | _ => exact hpc.elim

theorem ControlPc.StartPoint.sameTraffic {g g' : Shared} {pc : ControlPc} (h : pc.StartPoint g)
    (hsame : g.SameTraffic g') : pc.StartPoint g' := by
  have htokens : g'.tokens = g.tokens := by rw [Shared.tokens, hsame.available, Shared.tokens]
  have hquiet (hg : g.Quiet) : g'.Quiet :=
    ⟨hsame.state ▸ hg.state, htokens ▸ hg.tokens, hsame.queue.held_eq ▸ hg.held⟩
  cases pc with
  | beginStart => trivial
  | createAvailable | createTaskStopped | drainAvailable => exact hsame.state.trans h
  | drainTaskStopped | install | markInstalled | twaiStart | markStarted =>
    exact ⟨hsame.state ▸ h.1, htokens ▸ h.2⟩
  | clearFrames configuration pc =>
    cases pc with
    | loadHead => exact ⟨hsame.state ▸ h.1, htokens ▸ h.2⟩
    | storeTail head => exact ⟨hsame.state ▸ h.1, htokens ▸ h.2.1, hsame.queue.2.1 ▸ h.2.2⟩
    | _ => exact hquiet h
  | setBusId | recordControllerReset | resetBaselines | setRequested => exact hquiet h
  | markTaskCreated | createTask => exact ⟨hquiet h.1, hsame.requested ▸ h.2⟩
  | _ => exact h.elim

theorem controlStep_starting {g g' : Shared} {ok : Bool} {pc pc' : ControlPc} {es : List Event}
    (hpc : pc.StartPoint g) (h : controlStep g ok pc = some (g', pc', es)) :
    (∀ o, .started o ∉ es) ∧
      ((pc'.StartPoint g' ∧ spawned ok pc = []) ∨
        (pc = .createTask ∧ ok = true ∧ pc' = .startSucceeded ∧ g' = g) ∨
        (pc'.StartFailing ∧ spawned ok pc = [])) := by
  cases pc with
  | beginStart =>
    simp only [controlStep] at h
    split at h <;> cases h
    · rename_i hbegin
      unfold beginStart at hbegin
      split_ifs at hbegin
      cases hbegin
      exact ⟨by simp, .inl ⟨rfl, rfl⟩⟩
    · exact ⟨by simp, .inr (.inr ⟨trivial, rfl⟩)⟩
  | createAvailable =>
    cases h
    exact ⟨by simp, .inl ⟨hpc, rfl⟩⟩
  | createTaskStopped =>
    simp only [controlStep] at h
    split_ifs at h <;> cases h
    all_goals first
      | exact ⟨by simp, .inl ⟨hpc, rfl⟩⟩
      | exact ⟨by simp, .inr (.inr ⟨by simp [ControlPc.StartFailing], rfl⟩)⟩
  | drainAvailable =>
    simp only [controlStep] at h
    split at h <;> cases h
    · obtain ⟨-, hlifecycle, -⟩ := takeAvailable_eq_some ‹_›
      exact ⟨by simp, .inl ⟨(congrArg LifecycleController.state hlifecycle).trans hpc, rfl⟩⟩
    · exact ⟨by simp, .inl ⟨⟨hpc, takeAvailable_eq_none.mp ‹_›⟩, rfl⟩⟩
  | drainTaskStopped configuration =>
    simp only [controlStep] at h
    split at h <;> cases h
    · have hsame := takeTaskStopped_sameTraffic ‹_›
      have hpoint : (ControlPc.drainTaskStopped configuration).StartPoint g' :=
        hpc.sameTraffic hsame
      exact ⟨by simp, .inl ⟨hpoint, rfl⟩⟩
    · exact ⟨by simp, .inl ⟨hpc, rfl⟩⟩
  | install | twaiStart =>
    cases ok <;> cases h
    · exact ⟨by simp, .inr (.inr ⟨by simp [ControlPc.StartFailing], rfl⟩)⟩
    · exact ⟨by simp, .inl ⟨hpc, rfl⟩⟩
  | markInstalled | markStarted =>
    cases h
    exact ⟨by simp, .inl ⟨⟨hpc.1, hpc.2⟩, rfl⟩⟩
  | recordControllerReset | resetBaselines =>
    cases h
    exact ⟨by simp, .inl ⟨⟨hpc.1, hpc.2, hpc.3⟩, rfl⟩⟩
  | clearFrames configuration pc =>
    cases pc with
    | done =>
      cases h
      exact ⟨by simp, .inl ⟨hpc, rfl⟩⟩
    | loadHead =>
      cases h
      exact ⟨by simp, .inl ⟨⟨hpc.1, hpc.2, rfl⟩, rfl⟩⟩
    | storeTail head =>
      obtain ⟨hstate, htokens, rfl⟩ := hpc
      cases h
      exact ⟨by simp, .inl ⟨⟨hstate, htokens, by simp [FrameRing.Memory.held]⟩, rfl⟩⟩
    | storeWatermark =>
      cases h
      exact ⟨by simp, .inl ⟨⟨hpc.1, hpc.2, hpc.3⟩, rfl⟩⟩
    | snapshot pc =>
      cases pc with
      | done =>
        cases h
        exact ⟨by simp, .inl ⟨⟨hpc.1, hpc.2, hpc.3⟩, rfl⟩⟩
      | _ =>
        simp only [controlStep, FrameRing.clearStep, Option.map_map, Option.map_eq_some_iff,
          Prod.exists] at h
        obtain ⟨m, pc', es', hsnapshot, heq⟩ := h
        cases heq
        have hq := (FrameRing.snapshotStep_sameQueue hsnapshot).1
        exact ⟨by simp, .inl ⟨⟨hpc.1, hpc.2, hq.held_eq.trans hpc.3⟩, rfl⟩⟩
  | setBusId =>
    simp only [controlStep] at h
    split_ifs at h <;> cases h <;> exact ⟨by simp, .inl ⟨⟨hpc.1, hpc.2, hpc.3⟩, rfl⟩⟩
  | setRequested =>
    cases h
    exact ⟨by simp, .inl ⟨⟨⟨hpc.1, hpc.2, hpc.3⟩, rfl⟩, rfl⟩⟩
  | markTaskCreated =>
    cases h
    exact ⟨by simp, .inl ⟨⟨⟨hpc.1.1, hpc.1.2, hpc.1.3⟩, hpc.2⟩, rfl⟩⟩
  | createTask =>
    cases ok <;> cases h
    · exact ⟨by simp, .inr (.inr ⟨trivial, rfl⟩)⟩
    · exact ⟨by simp, .inr (.inl ⟨rfl, rfl, rfl, rfl⟩)⟩
  | _ => exact hpc.elim

/-- Inside a start on its way to success: no consumer, no live task. -/
structure State.Starting (n : ℕ) (s : State) : Prop where
  consumer : s.consumer = .idle
  count : s.tasks.length = n
  tasks : ∀ q ∈ s.tasks, ¬ q.Live
  point : s.control.StartPoint s.shared

/-- The account of a start during which nobody calls `receive`. -/
inductive OpeningAccount (n : ℕ) (h : List Event) (s : State) : Prop
  | starting (starting : s.Starting n) (quiet : ∀ o, .started o ∉ h)
    (silent : ∀ ok, .frameSignalled ok ∉ h)
  | opened (interval : s.InInterval n) (signalled : ∀ ok, .frameSignalled ok ∈ h → ok = true)
  | failed (failing : s.control.StartFailing) (failure : ∀ o, .started o ∈ h → o.result ≠ .ok)

theorem State.Starting.opens {s t : State} {n : ℕ} (h : s.Starting n) (hsignal : s.Signalling)
    (hcreate : s.control = .createTask) (hshared : t.shared = s.shared)
    (htasks : t.tasks = s.tasks ++ [.loopHead]) (hconsumer : t.consumer = s.consumer)
    (hcontrol : t.control = .startSucceeded) : t.InInterval n := by
  obtain ⟨hquiet, hrequested⟩ : s.shared.Quiet ∧ s.shared.receiveRequested = true := by
    have hpoint := h.point
    rwa [hcreate] at hpoint
  have havailable := (hsignal (.inl (by rw [hcreate]; rfl))).1
  refine ⟨⟨.loopHead, by simp [htasks, ← h.count], ?_⟩, fun j q hq hj => ?_, .inl hcontrol⟩
  · rw [hshared, hconsumer, h.consumer]
    refine ⟨havailable, by rw [hquiet.held]; exact Nat.zero_le _, by simp, (by simp),
      .running hquiet.state (.inl ⟨trivial, hrequested⟩) ?_⟩
    simp [hquiet.tokens, hquiet.held, TaskPc.unsignalled, ReceivePc.claimed]
  · rw [htasks, List.getElem?_append] at hq
    split_ifs at hq with hlt
    · exact h.tasks q (List.mem_of_getElem? hq)
    · have hlen := (List.getElem?_eq_some_iff.mp hq).1
      have hcount := h.count
      simp only [List.length_singleton] at hlen
      omega

theorem step_openingAccount {n : ℕ} {h es : List Event} {s t : State} {a : Action}
    (hsignal : s.Signalling) (hacc : OpeningAccount n h s)
    (ha : a.beginsCall = false ∧ ∀ timeoutMs, a ≠ .receive timeoutMs)
    (hstep : step s a = some (t, es)) : OpeningAccount n (h ++ es) t := by
  cases hacc with
  | opened interval signalled =>
    obtain ⟨hinterval, hsignalled, -⟩ :=
      step_inInterval interval (by rintro rfl; simp [Action.beginsCall] at ha) hstep
    refine .opened hinterval fun ok hok => ?_
    rcases List.mem_append.mp hok with hok | hok
    · exact signalled ok hok
    · exact hsignalled ok hok
  | failed failing failure =>
    have hnext : t.control.StartFailing ∧ ∀ o, .started o ∈ es → o.result ≠ .ok := by
      rcases (step_cases hstep).control_cases with
        ⟨hbegins, -⟩ | ⟨ok, -, hcontrol⟩ | ⟨hpc, -, hevents⟩
      · simp [ha.1] at hbegins
      · obtain ⟨hpc, -, hresult⟩ := controlStep_failing failing hcontrol
        exact ⟨hpc, hresult⟩
      · exact ⟨hpc ▸ failing, fun o ho => by simpa [Event.ofControl] using hevents _ ho⟩
    refine .failed hnext.1 fun o ho => ?_
    rcases List.mem_append.mp ho with ho | ho
    · exact failure o ho
    · exact hnext.2 o ho
  | starting starting quiet silent =>
    have haside {u : State} (hsame : s.shared.SameTraffic u.shared)
        (hcontrol : u.control = s.control)
        (hconsumer : u.consumer = s.consumer) (hcount : u.tasks.length = s.tasks.length)
        (hdead : ∀ q ∈ u.tasks, ¬ q.Live) : u.Starting n :=
      ⟨hconsumer.trans starting.consumer, hcount.trans starting.count, hdead,
        hcontrol ▸ starting.point.sameTraffic hsame⟩
    cases step_cases hstep with
    | start | startInvalid | stop => simp [Action.beginsCall] at ha
    | receive => exact absurd rfl (ha.2 _)
    | consumer hconsumer =>
      rw [starting.consumer] at hconsumer
      cases hconsumer
    | control hcontrol =>
      obtain ⟨hquiet, hnext⟩ := controlStep_starting starting.point hcontrol
      have hsilent : ∀ ok, .frameSignalled ok ∉ es := fun ok hok => by
        simpa [Event.ofControl] using (controlStep_effect hcontrol).events _ hok
      rcases hnext with ⟨hpoint, hspawn⟩ | ⟨hcreate, rfl, rfl, rfl⟩ | ⟨hfailing, hspawn⟩
      · refine .starting ⟨starting.consumer, ?_, ?_, hpoint⟩ (fun o ho => ?_) fun ok hok => ?_
        · simp [hspawn, starting.count]
        · simpa [hspawn] using starting.tasks
        · exact (List.mem_append.mp ho).elim (quiet o) (hquiet o)
        · exact (List.mem_append.mp hok).elim (silent ok) (hsilent ok)
      · refine .opened (starting.opens hsignal hcreate rfl (by simp [hcreate, spawned]) rfl rfl)
          fun ok hok => ?_
        exact ((List.mem_append.mp hok).elim (silent ok) (hsilent ok)).elim
      · refine .failed hfailing fun o ho => ?_
        exact ((List.mem_append.mp ho).elim (quiet o) (hquiet o)).elim
    | @task i _ q q' _ _ active htask =>
      have hmem := List.mem_of_getElem? active
      obtain ⟨hsame, hdead, rfl⟩ := taskStep_dead_traffic (starting.tasks q hmem) htask
      refine .starting (haside hsame rfl rfl (by simp) fun r hr => ?_) (by simpa using quiet)
        (by simpa using silent)
      rcases List.mem_or_eq_of_mem_set hr with hr | rfl
      · exact starting.tasks r hr
      · exact hdead
    | snapshot active hsnapshot =>
      have hq := (FrameRing.snapshotStep_sameQueue hsnapshot).1
      exact .starting (haside ⟨hq, rfl, rfl, rfl⟩ rfl rfl rfl starting.tasks) (by simpa using quiet)
        (by simpa using silent)
    | beginSnapshot | returnSnapshot | enterBusOff =>
      exact .starting (haside ⟨FrameRing.Memory.sameQueue_refl _, rfl, rfl, rfl⟩ rfl rfl rfl
        starting.tasks) (by simpa using quiet) (by simpa using silent)

/-- A start that reports success, called while nobody receives and no earlier
task is live, opens an interval. -/
theorem run_opens {s₀ s : State} {configuration : Configuration} {bs : List Action}
    {es : List Event} (hs₀ : machine.Reachable boot s₀) (hidle : s₀.control = .idle)
    (hconsumer : s₀.consumer = .idle) (htasks : ∀ q ∈ s₀.tasks, ¬ q.Live)
    (hbs : ∀ a ∈ bs, a.beginsCall = false ∧ ∀ timeoutMs, a ≠ .receive timeoutMs)
    (hstart : machine.run s₀ (.start configuration :: bs) = some (s, es))
    (hok : .started ⟨.ok, true⟩ ∈ es) :
    s.InInterval s₀.tasks.length ∧ ∀ ok, .frameSignalled ok ∈ es → ok = true := by
  obtain ⟨u, fs, gs, hu, htail, rfl⟩ := machine.run_cons.mp hstart
  replace hu : step s₀ (.start configuration) = some (u, fs) := hu
  have hsignal := (State.reachable_awaited hs₀).1
  have hbegun : OpeningAccount s₀.tasks.length fs u := by
    cases step_cases hu with
    | start => exact .starting ⟨hconsumer, rfl, htasks, trivial⟩ (by simp) (by simp)
    | startInvalid => exact .failed (by rw [hidle]; trivial) (by simp)
  have hacc := (machine.run_invariant_along
    (C := fun _ a => a.beginsCall = false ∧ ∀ timeoutMs, a ≠ .receive timeoutMs)
    (I := fun h s => s.Signalling ∧ OpeningAccount s₀.tasks.length h s)
    (fun h s a t es hI ha hstep => ⟨hI.1.step hstep, step_openingAccount hI.1 hI.2 ha hstep⟩)
    ⟨hsignal.step hu, hbegun⟩ (Machine.along_of_forall hbs) htail).2
  cases hacc with
  | starting starting quiet => exact absurd hok (quiet _)
  | opened interval signalled => exact ⟨interval, signalled⟩
  | failed failing failure => exact absurd rfl (failure _ hok)

def Event.isStartSuccess : Event → Bool
  | .started o => o = ⟨.ok, true⟩
  | _ => false

theorem Event.mem_of_isStartSuccess {es : List Event} (h : es.any isStartSuccess = true) :
    .started ⟨.ok, true⟩ ∈ es := by
  obtain ⟨e, he, hsuccess⟩ := List.any_eq_true.mp h
  cases e <;> simp_all [isStartSuccess]

def ReceivePc.Checks : ReceivePc → Prop
  | enter _ | expired | woken => True
  | _ => False

/-- A waiting consumer takes a token now; its wait cannot expire. -/
def State.ConsumerServed (s : State) : Prop :=
  (∃ timeoutMs, s.consumer = .wait timeoutMs) →
    (step s (.consumer true)).isSome = true ∧ step s (.consumer false) = none

/-- Wakeups agree with frames until a fault is latched, and tell of the fault
afterwards. -/
structure State.WakeupsAgree (s : State) : Prop where
  state : s.shared.lifecycle.state = .running ∨ s.shared.lifecycle.state = .faulted
  balance : s.shared.lifecycle.state = .running →
    ∃ (i : ℕ) (pc : TaskPc), s.tasks[i]? = some pc ∧ pc.InLoop ∧
      (∀ (j : ℕ) (q : TaskPc), s.tasks[j]? = some q → q.Live → j = i) ∧
      s.shared.tokens + pc.unsignalled + s.consumer.claimed = s.shared.frames.held ∧
      (pc.unsignalled < s.shared.frames.held → s.ConsumerServed)
  pops : s.consumer ≠ .pop (.done none)
  reports : s.shared.lifecycle.state = .faulted → s.consumer.Checks →
    ∀ ok t es, step s (.consumer ok) = some (t, es) → es = [.received .faulted none]
  woken : s.shared.lifecycle.state = .faulted → (∀ pc ∈ s.tasks, pc ≠ .giveFault) →
    s.ConsumerServed
  latched : s.shared.lifecycle.state = .faulted → ∀ a t es, a ≠ .stop →
    step s a = some (t, es) → t.shared.lifecycle.state = .faulted

theorem State.consumerServed {s : State} (h : 0 < s.shared.tokens) : s.ConsumerServed := by
  rintro ⟨timeoutMs, hwait⟩
  cases htake : s.shared.takeAvailable with
  | none => simp [takeAvailable_eq_none.mp htake] at h
  | some g => simp [step, receiveStep, hwait, htake]

theorem step_latched {n : ℕ} {s t : State} {a : Action} {es : List Event}
    (h : s.InInterval n) (hfaulted : s.shared.lifecycle.state = .faulted) (ha : a ≠ .stop)
    (hstep : step s a = some (t, es)) : t.shared.lifecycle.state = .faulted := by
  obtain ⟨pc, hpc, hinterval⟩ := h.task
  cases step_cases hstep with
  | stop => exact absurd rfl ha
  | control hcontrol =>
    have hsame := (controlStep_inInterval hinterval.active h.control hcontrol).1
    exact hsame.state.trans hfaulted
  | @task i _ q q' _ _ active htask =>
    by_cases hi : i = n
    · subst hi
      obtain rfl : q = pc := Option.some.inj (active.symm.trans hpc)
      by_cases hended : q.Ended
      · cases q with
        | giveFault | acknowledge | giveStopped | delete =>
          cases htask
          exact hfaulted
        | deleted => cases htask
        | _ => exact hended.elim
      · have hrunning := (hinterval.running_of_not_ended hended).1
        simp [hfaulted] at hrunning
    · exact (taskStep_dead_traffic (h.others i q active hi) htask).1.state.trans hfaulted
  | consumer hconsumer =>
    have hlifecycle := (receiveStep_effect hconsumer).lifecycle
    exact (congrArg LifecycleController.state hlifecycle).trans hfaulted
  | start | startInvalid | receive | beginSnapshot | snapshot | returnSnapshot | enterBusOff =>
    exact hfaulted

theorem State.InInterval.wakeupsAgree {s : State} {n : ℕ} (h : s.InInterval n) :
    s.WakeupsAgree := by
  obtain ⟨pc, hpc, hinterval⟩ := h.task
  have hmem := List.mem_of_getElem? hpc
  refine ⟨?_, fun hrunning => ?_, fun hnone => (hinterval.consumer _ hnone).2 rfl,
    fun hfaulted hchecks ok t es hstep => ?_, fun hfaulted hgiven => ?_,
    fun hfaulted a t es ha hstep => ?_⟩
  · cases hinterval.phase with
    | running state => exact .inl state
    | faulted state => exact .inr state
  · cases hinterval.phase with
    | faulted state => simp [hrunning] at state
    | running state task balance =>
      refine ⟨n, pc, hpc, ?_, fun j q hq hlive => ?_, balance, fun hsignalled hwait => ?_⟩
      · rcases task with ⟨hreceiving, -⟩ | ⟨q, rfl⟩
        · cases pc <;> trivial
        · trivial
      · by_contra hj
        exact h.others j q hq hj hlive
      · obtain ⟨timeoutMs, hconsumer⟩ := hwait
        refine s.consumerServed ?_ ⟨timeoutMs, hconsumer⟩
        rw [hconsumer] at balance
        simp only [ReceivePc.claimed] at balance
        omega
  · simp only [step, Option.map_eq_some_iff, Prod.exists] at hstep
    obtain ⟨g, c, es', hreceive, heq⟩ := hstep
    cases heq
    cases hconsumer : s.consumer with
    | enter | expired | woken =>
      simp only [hconsumer, receiveStep, hfaulted, notRunningResult, Option.getD_some] at hreceive
      cases hreceive
      rfl
    | _ =>
      rw [hconsumer] at hchecks
      exact hchecks.elim
  · cases hinterval.phase with
    | running state => simp [hfaulted] at state
    | faulted state task popping waiting =>
      exact fun hwait => s.consumerServed (waiting (hgiven pc hmem) hwait) hwait
  · exact step_latched h hfaulted ha hstep

/-- No lost and no spurious wakeup in an acquisition interval, from a successful
start to the next stop, for every interleaving of its receive task, the consumer
and the observers. -/
theorem interval_wakeups {s₀ s t : State} {configuration : Configuration} {bs cs : List Action}
    {es fs : List Event} (hs₀ : machine.Reachable boot s₀) (hidle : s₀.control = .idle)
    (hconsumer : s₀.consumer = .idle) (htasks : ∀ q ∈ s₀.tasks, ¬ q.Live)
    (hbs : ∀ a ∈ bs, a.beginsCall = false ∧ ∀ timeoutMs, a ≠ .receive timeoutMs)
    (hstart : machine.run s₀ (.start configuration :: bs) = some (s, es))
    (hok : .started ⟨.ok, true⟩ ∈ es) (hcs : ∀ a ∈ cs, a ≠ .stop)
    (hrun : machine.run s cs = some (t, fs)) :
    t.WakeupsAgree ∧ (∀ ok, .frameSignalled ok ∈ es ++ fs → ok = true) ∧
      ∀ frame, .received .driverFailure frame ∉ fs := by
  obtain ⟨hopen, hsignalled⟩ := run_opens hs₀ hidle hconsumer htasks hbs hstart hok
  have hinv := machine.run_invariant_along (C := fun _ a => a ≠ .stop)
    (I := fun h s => s.InInterval s₀.tasks.length ∧ (∀ ok, .frameSignalled ok ∈ h → ok = true) ∧
      ∀ frame, .received .driverFailure frame ∉ h) (h := [])
    (fun h s a t es hI ha hstep => ?_) ⟨hopen, by simp, by simp⟩
    (Machine.along_of_forall hcs) hrun
  · obtain ⟨hinterval, hfs, hfailure⟩ := hinv
    refine ⟨hinterval.wakeupsAgree, fun ok hok => ?_, hfailure⟩
    rcases List.mem_append.mp hok with hok | hok
    · exact hsignalled ok hok
    · exact hfs ok hok
  · obtain ⟨hnext, hsignalled', hfailure'⟩ := step_inInterval hI.1 ha hstep
    refine ⟨hnext, fun ok hok => ?_, fun frame hframe => ?_⟩
    · exact (List.mem_append.mp hok).elim (hI.2.1 ok) (hsignalled' ok)
    · exact (List.mem_append.mp hframe).elim (hI.2.2 frame) (hfailure' frame)

/-- A frame is published and signalled, and a `receive` call takes its token. -/
def claimSchedule : List Action :=
  List.replicate 12 (.task 0 { received := .message { identifier := 5 } 0 }) ++
    [.receive 100, .consumer true, .consumer true]

theorem interval_wakeups_claim : ∃ s es t fs,
    machine.run boot (startSchedule 37) = some (s, es) ∧
      machine.run s claimSchedule = some (t, fs) ∧ t.shared.tokens = 0 ∧
      t.consumer.claimed = 1 ∧ t.shared.frames.held = 1 ∧ t.WakeupsAgree := by
  have hobserved : (machine.run boot (startSchedule 37)).map (fun p =>
      (p.2.any Event.isStartSuccess, (machine.run p.1 claimSchedule).map fun q =>
        (q.1.shared.tokens, q.1.consumer.claimed, q.1.shared.frames.held))) =
      some (true, some (0, 1, 1)) := by decide +kernel
  obtain ⟨⟨s, es⟩, hstart, heq⟩ := Option.map_eq_some_iff.mp hobserved
  simp only [Prod.mk.injEq, Option.map_eq_some_iff] at heq
  obtain ⟨hok, ⟨t, fs⟩, hrun, htokens, hclaimed, hheld⟩ := heq
  refine ⟨s, es, t, fs, hstart, hrun, htokens, hclaimed, hheld, ?_⟩
  refine (interval_wakeups (machine.reachable_refl boot) rfl rfl (by simp [boot])
    (fun a ha => ?_) hstart (Event.mem_of_isStartSuccess hok) (by simp [claimSchedule]) hrun).1
  rw [List.eq_of_mem_replicate ha]
  exact ⟨rfl, by simp⟩

end CanBus
end VehicleCanCore

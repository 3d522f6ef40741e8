import VehicleCanCore.Telemetry.Pipeline
import VehicleCanCore.Telemetry.SoleWorker

/-!
# Every accepted frame is processed once and in order

A frame is in one place at a time: in the ring, in the hands of a `receive` call,
in its answer, or in the hands of the worker. With at most one worker these places
form a conveyor from the driver to the processor, which every start empties.
-/

namespace VehicleCanCore
namespace Telemetry

open VehicleCanCore.Core Automata

def Received.frame? : Received → Option RawCanFrame
  | .frame f => some f
  | _ => none

/-- The frame that a worker has received and neither processed nor dropped. -/
def WorkerPc.hand : WorkerPc → Option RawCanFrame
  | .received _ answer _ => answer.frame?
  | .process _ frame _ => some frame
  | _ => none

namespace Pipeline

/-! ## What the acquisition answers -/

inductive Answers (s t : CanBus.State) (es : List CanBus.Event) : Prop
  | pending (consumer : t.consumer.isIdle = s.consumer.isIdle)
    (quiet : es.findSome? answer? = none)
  | answered {received : Received} (before : s.consumer.isIdle = false)
    (after : t.consumer = .idle) (answer : es.findSome? answer? = some received)
    (hand : s.hand = received.frame?)

theorem answer_quiet {es : List CanBus.Event} (h : ∀ e ∈ es, e.ofConsumer = false) :
    es.findSome? answer? = none := by
  rw [List.findSome?_eq_none_iff]
  intro e he
  have hquiet := h e he
  cases e <;> simp_all [CanBus.Event.ofConsumer, answer?]

theorem afterReceive_without_frame {result : CanBus.Result} (h : result ≠ .ok) :
    (CanBusSource.afterReceive result none).frame? = none := by
  cases result with
  | ok => exact absurd rfl h
  | _ => rfl

theorem consumer_answers {s t : CanBus.State} {ok : Bool} {es : List CanBus.Event}
    (h : CanBus.receiveStep s.shared ok s.consumer = some (t.shared, t.consumer, es)) :
    Answers s t es := by
  generalize hc : s.consumer = c at h
  generalize ht : t.consumer = c' at h
  have hpending (hsame : c'.isIdle = c.isIdle) (hquiet : ∀ e ∈ es, e.ofConsumer = false) :
      Answers s t es := .pending (by rw [ht, hsame, hc]) (answer_quiet hquiet)
  have hanswered {received : Received} (hbusy : c.isIdle = false) (hidle : c' = .idle)
      (hanswer : es.findSome? answer? = some received) (hhand : c.hand = received.frame?) :
      Answers s t es :=
    .answered (by rw [hc, hbusy]) (ht.trans hidle) hanswer (by rw [CanBus.State.hand, hc, hhand])
  cases c with
  | idle => cases h
  | enter | woken =>
    simp only [CanBus.receiveStep] at h
    split at h
    · rename_i result hresult
      simp only [Option.some.injEq, Prod.mk.injEq] at h
      obtain ⟨-, rfl, rfl⟩ := h
      refine hanswered rfl rfl rfl (afterReceive_without_frame ?_).symm
      rintro rfl
      cases hstate : s.shared.lifecycle.state <;> simp [hstate, CanBus.notRunningResult] at hresult
    · simp only [Option.some.injEq, Prod.mk.injEq] at h
      obtain ⟨-, rfl, rfl⟩ := h
      exact hpending rfl (by simp)
  | wait =>
    simp only [CanBus.receiveStep] at h
    split at h <;> split_ifs at h <;> simp only [Option.some.injEq, Prod.mk.injEq] at h <;>
      obtain ⟨-, rfl, rfl⟩ := h <;> exact hpending rfl (by simp)
  | expired =>
    simp only [CanBus.receiveStep, Option.some.injEq, Prod.mk.injEq] at h
    obtain ⟨-, rfl, rfl⟩ := h
    refine hanswered rfl rfl rfl (afterReceive_without_frame ?_).symm
    cases s.shared.lifecycle.state <;> simp [CanBus.notRunningResult]
  | pop pc =>
    cases pc with
    | done frame =>
      cases frame <;> simp only [CanBus.receiveStep, Option.some.injEq, Prod.mk.injEq] at h <;>
        obtain ⟨-, rfl, rfl⟩ := h <;> exact hanswered rfl rfl rfl rfl
    | _ =>
      simp only [CanBus.receiveStep, Option.map_eq_some_iff, Prod.exists, Prod.mk.injEq] at h
      obtain ⟨_, _, _, -, -, rfl, rfl⟩ := h
      exact hpending rfl (by simp [CanBus.Event.ofConsumer])

theorem step_consumer {s t : CanBus.State} {a : CanBus.Action} {es : List CanBus.Event}
    (ha : beginsReceive a = false) (h : CanBus.step s a = some (t, es)) :
    (∃ ok, CanBus.receiveStep s.shared ok s.consumer = some (t.shared, t.consumer, es)) ∨
      (t.consumer = s.consumer ∧ es.findSome? answer? = none) := by
  cases CanBus.step_cases h with
  | receive => cases ha
  | consumer hconsumer => exact .inl ⟨_, hconsumer⟩
  | control hcontrol =>
    refine .inr ⟨rfl, answer_quiet fun e he => ?_⟩
    rcases (CanBus.controlStep_effect hcontrol).events e he with he | ⟨r, rfl⟩
    · cases e <;> simp_all [CanBus.Event.ofControl, CanBus.Event.ofConsumer]
    · rfl
  | task active htask =>
    refine .inr ⟨rfl, answer_quiet fun e he => ?_⟩
    rcases (CanBus.taskStep_effect htask).events e he with he | ⟨r, rfl⟩
    · cases e <;> simp_all [CanBus.Event.ofTask, CanBus.Event.ofConsumer]
    · rfl
  | _ => exact .inr ⟨rfl, answer_quiet (by simp [CanBus.Event.ofConsumer])⟩

theorem bus_answers {s t : CanBus.State} {a : CanBus.Action} {es : List CanBus.Event}
    (ha : beginsReceive a = false) (h : CanBus.step s a = some (t, es)) : Answers s t es := by
  rcases step_consumer ha h with ⟨ok, hconsumer⟩ | ⟨hsame, hquiet⟩
  · exact consumer_answers hconsumer
  · exact .pending (by rw [hsame]) hquiet

end Pipeline

/-! ## The acquisition below the runtimes -/

namespace Runtimes

/-- A runtime reaches the acquisition only by beginning a lifecycle call. -/
theorem State.serve_bus {s t : State} {i : ℕ} {e : SourceEvent} {fs : List Sources.Event}
    (h : s.serve i e = some (t, fs)) : t.sources.bus = s.sources.bus ∨
      ∃ b es, b.beginsCall = true ∧ CanBus.step s.sources.bus b = some (t.sources.bus, es) := by
  have hcall {op : Sources.Operation} (h : s.callSource i op = some (t, fs)) :
      t.sources.bus = s.sources.bus ∨
        ∃ b es, b.beginsCall = true ∧ CanBus.step s.sources.bus b = some (t.sources.bus, es) := by
    simp only [callSource, Option.map_eq_some_iff, Prod.exists] at h
    obtain ⟨u, es, hstep, heq⟩ := h
    cases heq
    cases Sources.step_cases hstep with
    | manage manages => cases manages
    | start free object hbus =>
      right
      rw [State.withSources, Sources.State.advance_bus]
      exact ⟨_, _, rfl, hbus⟩
    | stop stops free object owner hbus => exact .inr ⟨_, _, rfl, hbus⟩
    | stopRefused => exact .inl rfl
  cases e with
  | start => exact hcall h
  | cleanup call => cases call <;> exact hcall h
  | supportsStopRetry | startReturned | cleanupReturned =>
    simp only [serve, Option.ite_none_right_eq_some, Option.some.injEq, Prod.mk.injEq] at h
    obtain ⟨-, rfl, -⟩ := h
    exact .inl rfl

theorem step_runtime_bus {platform : Platform} {s t : State} {i : ℕ} {a : Telemetry.Action}
    {es : List Event} (hs : s.Agreed platform) (h : step platform s (.runtime i a) = some (t, es)) :
    t.sources.bus = s.sources.bus ∨
      ∃ b fs, b.beginsCall = true ∧ CanBus.step s.sources.bus b = some (t.sources.bus, fs) := by
  cases step_cases h with
  | runtime permitted hstep served =>
    rcases (step_staff (hs.runtimes i) hstep).calls with hnone | ⟨-, e, rfl⟩
    · rw [hnone] at served
      cases served
      exact .inl rfl
    · simp only [Event.sourceCall, List.filterMap_cons, List.filterMap_nil,
        State.serveAll_singleton] at served
      have hbus := State.serve_bus served
      exact hbus

theorem step_bus_bus {platform : Platform} {s t : State} {a : CanBus.Action} {es : List Event}
    (h : step platform s (.bus a) = some (t, es)) :
    a.beginsCall = false ∧ t.runtimes = s.runtimes ∧
      ∃ fs, CanBus.step s.sources.bus a = some (t.sources.bus, fs) := by
  cases step_cases h with
  | bus hstep =>
    cases Sources.step_cases hstep with
    | manage manages => cases manages
    | bus background hbus =>
      rw [State.withSources, Sources.State.advance_bus]
      exact ⟨background, rfl, _, hbus⟩

theorem step_runtime_runtimes {platform : Platform} {s t : State} {i : ℕ} {a : Telemetry.Action}
    {es : List Event} (h : step platform s (.runtime i a) = some (t, es)) :
    ∃ r fs, Telemetry.step platform (s.runtimes i) a = some (r, fs) ∧
      ∀ j, t.runtimes j = if j = i then r else s.runtimes j := by
  cases step_cases h with
  | runtime permitted hstep served =>
    refine ⟨_, _, hstep, fun j => ?_⟩
    rw [State.setRuntime_runtimes, State.serveAll_runtimes served]

theorem step_runtime_events {platform : Platform} {s t : State} {i : ℕ} {a : Telemetry.Action}
    {es : List Event} (h : step platform s (.runtime i a) = some (t, es)) :
    ∃ (r : Runtime) (fs : List Telemetry.Event) (gs : List Sources.Event),
      Telemetry.step platform (s.runtimes i) a = some (r, fs) ∧
        es = gs.map .source ++ fs.map (.runtime i) := by
  cases step_cases h with
  | runtime permitted hstep served => exact ⟨_, _, _, hstep, rfl⟩

end Runtimes

theorem begin_aside {s t : CanBus.State} {a : CanBus.Action} {es : List CanBus.Event}
    (ha : a.beginsCall = true) (h : CanBus.step s a = some (t, es)) :
    t.shared = s.shared ∧ t.consumer = s.consumer ∧ s.flushes a = false ∧
      CanBus.CreatesAcknowledged s a := by
  cases CanBus.step_cases h with
  | start | stop | startInvalid => exact ⟨rfl, rfl, rfl, fun hcreates => by cases hcreates⟩
  | _ => cases ha

theorem receive_aside {s t : CanBus.State} {timeoutMs : UInt32} {es : List CanBus.Event}
    (h : CanBus.step s (.receive timeoutMs) = some (t, es)) :
    t.shared = s.shared ∧ s.consumer = .idle ∧ t.consumer = .enter timeoutMs ∧
      CanBus.CreatesAcknowledged s (.receive timeoutMs) := by
  cases CanBus.step_cases h with
  | receive idle => exact ⟨rfl, idle, rfl, fun hcreates => by cases hcreates⟩

namespace Pipeline

/-! ## One receiver at a time -/

/-- A call of `receive` belongs to a worker that waits for it, and the acquisition
is busy with it until it has answered. -/
structure State.Coupled (s : State) : Prop where
  calling : ∀ call, s.call = some call → ∃ budget, s.worker call.receiver = some (.receive budget)
  busy : (∃ i, s.call = some ⟨i, none⟩) ↔ s.bus.consumer.isIdle = false

structure State.Piped (platform : Platform) (sole : ℕ) (s : State) : Prop where
  staffed : s.system.Staffed platform sole
  coupled : s.Coupled
  exclusive : s.bus.TaskExclusive
  queued : s.bus.Queued

/-- Receive tasks are only created over taken acknowledgements, and on the target
only one runtime is used. -/
def Permitted (platform : Platform) (sole : ℕ) (s : State) : Action → Prop
  | .bus a => CanBus.CreatesAcknowledged s.bus a
  | .runtime i _ => platform = .esp → i = sole
  | .receive _ => True

namespace State.Piped

variable {platform : Platform} {sole : ℕ} {s : State} {i : ℕ}

theorem working_of_call (h : s.Piped platform sole) {call : Call} (hcall : s.call = some call) :
    (s.runtime call.receiver).Working := by
  obtain ⟨budget, hworker⟩ := h.coupled.calling call hcall
  exact ⟨_, hworker, rfl⟩

theorem call_eq_none (h : s.Piped platform sole) {pc : WorkerPc} (hworker : s.worker i = some pc)
    (hrunning : pc.isFinished = false) (hreceives : pc.receives = false) : s.call = none := by
  by_contra hsome
  obtain ⟨call, hcall⟩ := Option.ne_none_iff_exists'.mp hsome
  obtain ⟨budget, hreceiver⟩ := h.coupled.calling call hcall
  have hsame := h.staffed.unique _ _ (h.working_of_call hcall) ⟨pc, hworker, hrunning⟩
  rw [hsame, hworker] at hreceiver
  cases hreceiver
  cases hreceives

theorem idle_of_no_call (h : s.Piped platform sole) (hcall : s.call = none) :
    s.bus.consumer = .idle := by
  rw [← CanBus.ReceivePc.isIdle_iff]
  by_contra hbusy
  obtain ⟨i, hsome⟩ := h.coupled.busy.mpr (Bool.eq_false_iff.mpr hbusy)
  simp [hcall] at hsome

theorem away (h : s.Piped platform sole) : s.bus.Away := by
  intro hstarting
  apply h.idle_of_no_call
  by_contra hsome
  obtain ⟨call, hcall⟩ := Option.ne_none_iff_exists'.mp hsome
  exact h.staffed.vacant (.inl hstarting) _ (h.working_of_call hcall)

theorem bus_sound (h : s.Piped platform sole) : s.bus.Sound := h.staffed.agreed.sources.bus

theorem bus_step (h : s.Piped platform sole) {a : CanBus.Action} {b : CanBus.State}
    {es : List CanBus.Event} (hcreate : CanBus.CreatesAcknowledged s.bus a)
    (hstep : CanBus.step s.bus a = some (b, es)) :
    b.TaskExclusive ∧ b.Queued ∧ CanBus.Conveys s.bus b (s.bus.flushes a) es :=
  ⟨CanBus.step_taskExclusive h.bus_sound.owned h.exclusive hcreate hstep,
    CanBus.step_conveys h.bus_sound.owned h.exclusive h.away h.queued hstep⟩

theorem runtime_step (h : s.Piped platform sole) {a : Telemetry.Action} {system : Runtimes.State}
    {es : List Runtimes.Event}
    (hstep : Runtimes.step platform s.system (.runtime i a) = some (system, es)) :
    system.sources.bus.TaskExclusive ∧ system.sources.bus.Queued ∧
      system.sources.bus.consumer = s.bus.consumer ∧
      system.sources.bus.contents = s.bus.contents := by
  rcases Runtimes.step_runtime_bus h.staffed.agreed hstep with hsame | ⟨b, fs, hbegins, hbus⟩
  · rw [hsame]
    exact ⟨h.exclusive, h.queued, rfl, rfl⟩
  · obtain ⟨hshared, hconsumer, -, hcreate⟩ := begin_aside hbegins hbus
    obtain ⟨hexclusive, hqueued, -⟩ := h.bus_step hcreate hbus
    exact ⟨hexclusive, hqueued, hconsumer, by rw [CanBus.State.contents, hshared]; rfl⟩

theorem runtime_worker (h : s.Piped platform sole) {a : Telemetry.Action}
    {system : Runtimes.State} {es : List Runtimes.Event} {j : ℕ} {pc : WorkerPc}
    (helse : ∀ input, a = .worker input → j ≠ i) (hworker : s.worker j = some pc)
    (hrunning : pc.isFinished = false)
    (hstep : Runtimes.step platform s.system (.runtime i a) = some (system, es)) :
    (system.runtimes j).worker = some pc := by
  obtain ⟨r, fs, hruntime, hruntimes⟩ := Runtimes.step_runtime_runtimes hstep
  rw [hruntimes]
  split_ifs with hj
  · subst hj
    have hother (input : WorkerInput) : a ≠ .worker input := fun ha => helse input ha rfl
    rcases step_worker_kept (h.staffed.agreed.runtimes j) hother hruntime with
      ⟨hsame, -⟩ | ⟨hended, -⟩
    · exact hsame.trans hworker
    · exact absurd ⟨pc, hworker, hrunning⟩ hended
  · exact hworker

end State.Piped

theorem bus_of_system {platform : Platform} {s : State} {a : CanBus.Action} {b : CanBus.State}
    {es : List CanBus.Event} {system : Runtimes.State} {fs : List Runtimes.Event}
    (hbus : CanBus.step s.bus a = some (b, es))
    (hstep : Runtimes.step platform s.system (.bus a) = some (system, fs)) :
    system.sources.bus = b ∧ system.runtimes = s.system.runtimes := by
  obtain ⟨-, hruntimes, gs, hbus'⟩ := Runtimes.step_bus_bus hstep
  have hbus : CanBus.step s.system.sources.bus a = some (b, es) := hbus
  rw [hbus'] at hbus
  cases hbus
  exact ⟨rfl, hruntimes⟩

section

variable {platform : Platform} {sole : ℕ} {s t : State}

theorem step_coupled {a : Action} {es : List Event} (hs : s.Piped platform sole)
    (h : step platform s a = some (t, es)) : t.Coupled := by
  obtain ⟨hcalling, hbusy⟩ := hs.coupled
  cases step_cases h with
  | taken receives answered hstep =>
    refine ⟨by simp, ?_⟩
    have hidle : s.bus.consumer.isIdle = true := by
      by_contra hno
      obtain ⟨j, hcall⟩ := hbusy.mpr (Bool.eq_false_iff.mpr hno)
      simp [answered] at hcall
    show _ ↔ CanBus.ReceivePc.isIdle _ = _
    rw [State.bus, (hs.runtime_step hstep).2.2.1, hidle]
    simp
  | runtime elsewhere hstep =>
    refine ⟨fun call hcall => ?_, ?_⟩
    · obtain ⟨budget, hworker⟩ := hcalling call hcall
      refine ⟨budget, hs.runtime_worker (fun input ha hj => ?_) hworker rfl hstep⟩
      have hno := elsewhere input ha
      rw [← hj, hworker] at hno
      cases hno
    · rw [State.bus, (hs.runtime_step hstep).2.2.1]
      exact hbusy
  | @receive i budget system _ receives free hstep =>
    obtain ⟨-, hruntimes, fs, hbus⟩ := Runtimes.step_bus_bus hstep
    obtain ⟨-, -, henter, -⟩ := receive_aside hbus
    refine ⟨fun call hcall => ?_, ?_⟩
    · cases hcall
      refine ⟨budget, ?_⟩
      rw [State.worker, State.runtime, hruntimes]
      exact receives
    · rw [State.bus, henter]
      simp [CanBus.ReceivePc.isIdle]
  | @bus a b gs system fs background hbus hstep =>
    obtain ⟨hsystem, hruntimes⟩ := bus_of_system hbus hstep
    refine ⟨fun call hcall => ?_, ?_⟩
    · obtain ⟨before, hbefore, rfl⟩ := Option.map_eq_some_iff.mp hcall
      obtain ⟨budget, hworker⟩ := hcalling before hbefore
      refine ⟨budget, ?_⟩
      rw [State.worker, State.runtime, hruntimes]
      exact hworker
    · rw [State.bus, hsystem]
      cases bus_answers background hbus with
      | pending consumer quiet =>
        rw [consumer, ← hbusy, quiet]
        simp
      | answered before after answer hand =>
        rw [after, answer]
        simp [CanBus.ReceivePc.isIdle]

theorem step_system {a : Action} {es : List Event} (hs : s.Piped platform sole)
    (hC : Permitted platform sole s a) (h : step platform s a = some (t, es)) :
    t.system.Staffed platform sole := by
  cases step_cases h with
  | taken _ _ hstep | runtime _ hstep =>
    refine Runtimes.step_staffed hs.staffed ?_ hstep
    exact hC
  | receive _ _ hstep | bus _ _ hstep =>
    refine Runtimes.step_staffed hs.staffed ?_ hstep
    trivial

theorem step_piped {a : Action} {es : List Event} (hs : s.Piped platform sole)
    (hC : Permitted platform sole s a) (h : step platform s a = some (t, es)) :
    t.Piped platform sole := by
  have hstaffed := step_system hs hC h
  have hcoupled := step_coupled hs h
  cases step_cases h with
  | taken _ _ hstep | runtime _ hstep =>
    obtain ⟨hexclusive, hqueued, -⟩ := hs.runtime_step hstep
    exact ⟨hstaffed, hcoupled, hexclusive, hqueued⟩
  | receive _ _ hstep =>
    obtain ⟨-, -, fs, hbus⟩ := Runtimes.step_bus_bus hstep
    obtain ⟨hexclusive, hqueued, -⟩ := hs.bus_step (receive_aside hbus).2.2.2 hbus
    exact ⟨hstaffed, hcoupled, hexclusive, hqueued⟩
  | bus _ hbus hstep =>
    obtain ⟨hexclusive, hqueued, -⟩ := hs.bus_step hC hbus
    rw [← (bus_of_system hbus hstep).1] at hexclusive hqueued
    exact ⟨hstaffed, hcoupled, hexclusive, hqueued⟩

end

theorem initial_piped (platform : Platform) (sole : ℕ) (configuration : ℕ → CanBus.Configuration) :
    (initial configuration).Piped platform sole where
  staffed := Runtimes.initial_staffed platform sole configuration
  coupled := by
    refine ⟨by simp [initial], ?_⟩
    simp [initial, State.bus, Runtimes.initial, CanBus.boot, CanBus.ReceivePc.isIdle]
  exclusive := CanBus.boot_taskExclusive
  queued := CanBus.boot_conveying.queued

/-! ## One frame in hand -/

/-- The frame that has left the ring and is not disposed of yet: it is with the
`receive` call, in its answer, or with the worker. -/
def State.Hand (s : State) (hand : Option RawCanFrame) : Prop :=
  match s.call with
  | some ⟨_, none⟩ => hand = s.bus.hand
  | some ⟨_, some received⟩ => hand = received.frame?
  | none => ∀ frame, hand = some frame ↔ ∃ i, (s.worker i).bind WorkerPc.hand = some frame

section

variable {s : State} {i : ℕ} {received : Received} {hand hand' : Option RawCanFrame}

theorem hand_pending (hcall : s.call = some ⟨i, none⟩) : s.Hand hand ↔ hand = s.bus.hand := by
  rw [State.Hand, hcall]

theorem hand_answered (hcall : s.call = some ⟨i, some received⟩) :
    s.Hand hand ↔ hand = received.frame? := by
  rw [State.Hand, hcall]

theorem hand_working (hcall : s.call = none) : s.Hand hand ↔
    ∀ frame, hand = some frame ↔ ∃ i, (s.worker i).bind WorkerPc.hand = some frame := by
  rw [State.Hand, hcall]

theorem State.Hand.unique (h : s.Hand hand) (h' : s.Hand hand') : hand' = hand := by
  cases hcall : s.call with
  | none =>
    rw [hand_working hcall] at h h'
    exact Option.ext fun frame => (h' frame).trans (h frame).symm
  | some call =>
    obtain ⟨i, answer⟩ := call
    cases answer with
    | none =>
      rw [hand_pending hcall] at h h'
      rw [h, h']
    | some received =>
      rw [hand_answered hcall] at h h'
      rw [h, h']

end

theorem hand_of_finished {pc : WorkerPc} {frame : RawCanFrame} (h : pc.hand = some frame) :
    pc.isFinished = false := by
  cases pc <;> first | rfl | cases h

/-- The only worker holds what there is to hold. -/
theorem hand_of_worker {s : State} {i : ℕ} {pc : WorkerPc} (hcall : s.call = none)
    (hworker : s.worker i = some pc) (honly : ∀ j, (s.runtime j).Working → j = i) :
    s.Hand pc.hand := by
  rw [hand_working hcall]
  intro frame
  constructor
  · intro hhand
    exact ⟨i, by rw [hworker, Option.bind_some, hhand]⟩
  · rintro ⟨j, hhand⟩
    obtain ⟨pc', hworker', hhand'⟩ := Option.bind_eq_some_iff.mp hhand
    obtain rfl := honly j ⟨pc', hworker', hand_of_finished hhand'⟩
    rw [hworker] at hworker'
    cases hworker'
    exact hhand'

def processed? : Telemetry.Event → Option (ConveyorEvent RawCanFrame Disposal)
  | .processed frame _ => some (.disposed .processed frame)
  | _ => none

/-- Whoever is not waiting for a frame keeps, processes or drops the one it has. -/
inductive Handles (r : Runtime) :
    WorkerPc → WorkerPc → List (ConveyorEvent RawCanFrame Disposal) → Prop
  | kept {pc pc' : WorkerPc} (hand : pc'.hand = pc.hand) : Handles r pc pc' []
  | processed {budget : WorkBudget} {frame : RawCanFrame} {time : UInt64} {pc' : WorkerPc}
    (hand : pc'.hand = none) :
    Handles r (.process budget frame time) pc' [.disposed .processed frame]
  | discarded {budget : WorkBudget} {frame : RawCanFrame} {time : UInt64}
    (stopped : r.stopRequested = true) :
    Handles r (.received budget (.frame frame) time) (.batchDone budget .continue)
      [.disposed .discarded frame]

theorem workerStep_handles {r r' : Runtime} {input : WorkerInput} {pc pc' : WorkerPc}
    {es : List Telemetry.Event} (hpc : pc.receives = false)
    (h : workerStep r input pc = some (r', pc', es)) :
    Handles r' pc pc' (drops r.stopRequested pc ++ es.filterMap processed?) := by
  cases pc with
  | finished => cases h
  | receive => cases hpc
  | process budget frame time =>
    cases h
    exact .processed rfl
  | received budget received time =>
    simp only [workerStep] at h
    split_ifs at h with hstop
    · cases h
      rw [drops.eq_def, hstop]
      cases received with
      | frame frame => exact .discarded hstop
      | _ => exact .kept rfl
    · cases received <;> cases h <;> rw [drops.eq_def] <;> simp only [hstop] <;> exact .kept rfl
  | refresh budget outcome time pc =>
    simp only [workerStep, Option.map_eq_some_iff, Prod.exists] at h
    obtain ⟨r'', pc'', -, heq⟩ := h
    cases heq
    cases pc'' <;> exact .kept rfl
  | record budget outcome time =>
    cases outcome <;> cases h <;> exact .kept rfl
  | afterReceive budget outcome =>
    simp only [workerStep] at h
    split at h <;> cases h <;> exact .kept rfl
  | loopHead | onDiagnostics | completed | batchDone | checkpoint | beginPause | pause =>
    cases h
    refine .kept ?_
    split <;> rfl
  | _ =>
    cases h
    exact .kept rfl

theorem operationStep_shared {platform : Platform} {r r' : Runtime} {input : OperationInput}
    {pc pc' : OperationPc} {es : List Telemetry.Event}
    (h : operationStep platform r input pc = some (r', pc', es)) :
    ∀ e ∈ es, e.ofWorker = true → e = .stopRequested := by
  cases pc with
  | idle | destroyed => cases h
  | refresh | refreshDiagnostic =>
    simp only [operationStep, Option.map_eq_some_iff, Prod.exists] at h
    obtain ⟨_, _, -, heq⟩ := h
    cases heq
    simp
  | awaitStart | createWorker | awaitWorker | joinWorker =>
    simp only [operationStep] at h
    split_ifs at h <;> cases h <;> simp [Event.ofWorker]
  | attemptStop | cleanUp =>
    simp only [operationStep] at h
    split at h <;> cases h <;> simp [Event.ofWorker]
  | _ =>
    cases h
    simp [Event.ofWorker]

theorem step_shared {platform : Platform} {r t : Runtime} {a : Telemetry.Action}
    {es : List Telemetry.Event} (ha : ∀ input, a ≠ .worker input)
    (h : Telemetry.step platform r a = some (t, es)) :
    ∀ e ∈ es, e.ofWorker = true → e = .stopRequested := by
  cases Telemetry.step_cases h with
  | operation hop => exact operationStep_shared hop
  | worker => exact absurd rfl (ha _)
  | _ => simp [Event.ofWorker]

theorem step_unprocessed {platform : Platform} {r t : Runtime} {a : Telemetry.Action}
    {es : List Telemetry.Event} (ha : ∀ input, a ≠ .worker input)
    (h : Telemetry.step platform r a = some (t, es)) : es.filterMap processed? = [] := by
  rw [List.filterMap_eq_nil_iff]
  intro e he
  have hshared := step_shared ha h e he
  cases e with
  | processed => simp [Event.ofWorker] at hshared
  | _ => rfl

theorem conveyed_system {platform : Platform} {s t : Runtimes.State} {i : ℕ}
    {a : Telemetry.Action} {es : List Runtimes.Event}
    (h : Runtimes.step platform s (.runtime i a) = some (t, es)) :
    ∃ r fs, Telemetry.step platform (s.runtimes i) a = some (r, fs) ∧
      (es.map Event.system).filterMap Event.conveyed? = fs.filterMap processed? := by
  obtain ⟨r, fs, gs, hstep, rfl⟩ := Runtimes.step_runtime_events h
  refine ⟨r, fs, hstep, ?_⟩
  rw [List.map_append, List.filterMap_append, List.map_map, List.map_map, List.filterMap_map,
    List.filterMap_map]
  have hsource : gs.filterMap (Event.conveyed? ∘ Event.system ∘ Runtimes.Event.source) = [] := by
    rw [List.filterMap_eq_nil_iff]
    exact fun _ _ => rfl
  rw [hsource, List.nil_append]
  refine List.filterMap_congr fun e _ => ?_
  cases e <;> rfl

/-! ## Steps of the conveyor -/

/-- The step from `s` to `t` under the view `es` is one of the conveyor. -/
def Forwards (s t : State) (es : List (ConveyorEvent RawCanFrame Disposal)) : Prop :=
  ∀ hand, s.Hand hand → ∃ hand', t.Hand hand' ∧
    (Automata.conveyor RawCanFrame Disposal CanBus.kQueueCapacity).accept
      ⟨s.bus.contents, hand⟩ es = some ⟨t.bus.contents, hand'⟩ ∧
    ∀ frame ∈ ConveyorEvent.enteredItems es, frame.isValid = true

theorem forwards_quiet {s t : State} (hcontents : t.bus.contents = s.bus.contents)
    (hhand : ∀ hand, s.Hand hand → t.Hand hand) : Forwards s t [] := fun hand h =>
  ⟨hand, hhand hand h, by rw [hcontents]; rfl, by simp [ConveyorEvent.enteredItems]⟩

theorem conveyed_bus {platform : Platform} {s t : Runtimes.State} {a : CanBus.Action}
    {fs : List CanBus.Event} {gs : List Runtimes.Event}
    (h : Runtimes.step platform s (.bus a) = some (t, gs)) :
    (fs.map Event.bus ++ gs.map Event.system).filterMap Event.conveyed? =
      fs.filterMap CanBus.Event.moved? := by
  cases Runtimes.step_cases h with
  | @bus _ _ es hstep =>
    have hsource : ((es.map Runtimes.Event.source).map Event.system).filterMap
        Event.conveyed? = [] := by
      rw [List.map_map, List.filterMap_map, List.filterMap_eq_nil_iff]
      exact fun _ _ => rfl
    rw [List.filterMap_append, hsource, List.append_nil, List.filterMap_map]
    rfl

section

variable {platform : Platform} {sole : ℕ} {s t : State} {i : ℕ}

theorem worker_step {input : WorkerInput} {pc : WorkerPc} {system : Runtimes.State}
    {es : List Runtimes.Event} (hworker : s.worker i = some pc)
    (hstep : Runtimes.step platform s.system (.runtime i (.worker input)) = some (system, es)) :
    ∃ r' pc' fs, workerStep (s.runtime i) input pc = some (r', pc', fs) ∧
      (es.map Event.system).filterMap Event.conveyed? = fs.filterMap processed? ∧
      system.runtimes i = { r' with worker := some pc' } ∧
      ∀ j, j ≠ i → system.runtimes j = s.system.runtimes j := by
  obtain ⟨r, fs, hruntime, hruntimes⟩ := Runtimes.step_runtime_runtimes hstep
  obtain ⟨r₁, fs₁, hruntime₁, hview⟩ := conveyed_system hstep
  rw [hruntime] at hruntime₁
  cases hruntime₁
  obtain ⟨pc₀, r', pc', hpc, hwork, heq⟩ := step_worker hruntime
  have hpc : s.worker i = some pc₀ := hpc
  rw [hworker] at hpc
  cases hpc
  refine ⟨r', pc', fs, hwork, hview, ?_, fun j hj => ?_⟩
  · rw [hruntimes, if_pos rfl, heq]
  · rw [hruntimes, if_neg hj]

/-- The worker that has taken an answer is the only one. -/
theorem only_after {pc : WorkerPc} (hs : s.Piped platform sole) (hworker : s.worker i = some pc)
    (hrunning : pc.isFinished = false)
    (hothers : ∀ j, j ≠ i → t.runtime j = s.runtime j) (j : ℕ) (hj : (t.runtime j).Working) :
    j = i := by
  by_contra hne
  rw [hothers j hne] at hj
  exact hne (hs.staffed.unique j i hj ⟨pc, hworker, hrunning⟩)

/-- What the steps of a worker keep holds of every worker until one is created. -/
theorem step_workers {P : Bool → WorkerPc → Prop} (hmono : ∀ pc, P false pc → P true pc)
    (hwork : ∀ {r r' : Runtime} {input : WorkerInput} {pc pc' : WorkerPc}
      {es : List Telemetry.Event}, P r.stopRequested pc → pc'.isFinished = false →
      workerStep r input pc = some (r', pc', es) → P r'.stopRequested pc')
    (hs : s.Piped platform sole) (hcreate : ∀ i, (s.runtime i).operation ≠ .createWorker)
    (hall : ∀ i pc, s.worker i = some pc → pc.isFinished = false → P (s.runtime i).stopRequested pc)
    {a : Action} {es : List Event} (h : step platform s a = some (t, es)) (j : ℕ) (pc : WorkerPc)
    (hpc : t.worker j = some pc) (hrunning : pc.isFinished = false) :
    P (t.runtime j).stopRequested pc := by
  have hkept (hruntimes : t.system.runtimes = s.system.runtimes) :
      P (t.runtime j).stopRequested pc := by
    rw [State.worker, State.runtime, hruntimes] at hpc
    rw [State.runtime, hruntimes]
    exact hall j pc hpc hrunning
  have hworks {i : ℕ} {input : WorkerInput} {q : WorkerPc} {es : List Runtimes.Event}
      (hworker : s.worker i = some q)
      (hstep : Runtimes.step platform s.system (.runtime i (.worker input)) =
        some (t.system, es)) : P (t.runtime j).stopRequested pc := by
    obtain ⟨r', pc', fs, hwork', -, hself, hothers⟩ := worker_step hworker hstep
    rw [State.worker] at hpc
    by_cases hj : j = i
    · subst hj
      rw [State.runtime, hself] at hpc ⊢
      cases hpc
      have hbefore := hall j q hworker (workerStep_effect hwork').running
      have hafter := hwork hbefore hrunning hwork'
      exact hafter
    · rw [State.runtime, hothers j hj] at hpc ⊢
      exact hall j pc hpc hrunning
  cases step_cases h with
  | taken receives _ hstep => exact hworks receives hstep
  | receive _ _ hstep => exact hkept (Runtimes.step_bus_bus hstep).2.1
  | bus _ hbus hstep => exact hkept (bus_of_system hbus hstep).2
  | @runtime i a system fs _ hstep =>
    obtain ⟨r, gs, hruntime, hruntimes⟩ := Runtimes.step_runtime_runtimes hstep
    by_cases ha : ∃ input, a = .worker input
    · obtain ⟨input, rfl⟩ := ha
      obtain ⟨q, -, -, hworker, -⟩ := step_worker hruntime
      exact hworks hworker hstep
    · rw [State.worker, State.runtime, hruntimes] at hpc
      rw [State.runtime, hruntimes]
      split_ifs at hpc ⊢ with hj
      · subst hj
        rcases step_worker_kept (hs.staffed.agreed.runtimes j) (fun input heq => ha ⟨input, heq⟩)
          hruntime with ⟨hsame, hstop⟩ | ⟨-, hnone | ⟨hcreates, -⟩⟩
        · rw [hsame] at hpc
          have hbefore := hall j pc hpc hrunning
          have hstop := hstop ⟨pc, hpc, hrunning⟩
          cases hstopped : (s.runtime j).stopRequested with
          | true =>
            rw [hstopped] at hbefore
            rw [hstop hstopped]
            exact hbefore
          | false =>
            rw [hstopped] at hbefore
            cases r.stopRequested with
            | true => exact hmono pc hbefore
            | false => exact hbefore
        · simp [hnone] at hpc
        · exact absurd hcreates (hcreate j)
      · exact hall j pc hpc hrunning

theorem worker_forwards {input : WorkerInput} {pc : WorkerPc} {system : Runtimes.State}
    {es : List Runtimes.Event} (hs : s.Piped platform sole) (hworker : s.worker i = some pc)
    (hreceives : pc.receives = false)
    (hstep : Runtimes.step platform s.system (.runtime i (.worker input)) = some (system, es)) :
    Forwards s { s with system := system } (drops (s.runtime i).stopRequested pc ++
      (es.map Event.system).filterMap Event.conveyed?) := by
  obtain ⟨r', pc', fs, hwork, hview, hself, hothers⟩ := worker_step hworker hstep
  rw [hview]
  have hrunning := (workerStep_effect hwork).running
  have hcall := hs.call_eq_none hworker hrunning hreceives
  have hbefore : s.Hand pc.hand := hand_of_worker hcall hworker fun j hj =>
    hs.staffed.unique j i hj ⟨pc, hworker, hrunning⟩
  have hafter : ({ s with system := system } : State).Hand pc'.hand := by
    refine hand_of_worker hcall ?_ (only_after hs hworker hrunning hothers)
    rw [State.worker, State.runtime, hself]
  have hcontents : ({ s with system := system } : State).bus.contents = s.bus.contents :=
    (hs.runtime_step hstep).2.2.2
  have hhandles := workerStep_handles hreceives hwork
  generalize drops (s.runtime i).stopRequested pc ++ fs.filterMap processed? = view at hhandles ⊢
  have hsame {hand : Option RawCanFrame} (h : s.Hand hand) : hand = pc.hand := hbefore.unique h
  cases hhandles with
  | kept hkept =>
    refine forwards_quiet hcontents fun hand h => ?_
    rw [hsame h, ← hkept]
    exact hafter
  | processed hempty =>
    intro hand h
    refine ⟨none, hempty ▸ hafter, ?_, by simp [ConveyorEvent.enteredItems]⟩
    rw [hsame h, hcontents]
    simp [WorkerPc.hand, conveyor_disposed]
  | discarded stopped =>
    intro hand h
    refine ⟨none, hafter, ?_, by simp [ConveyorEvent.enteredItems]⟩
    rw [hsame h, hcontents]
    simp [WorkerPc.hand, Received.frame?, conveyor_disposed]

theorem taken_forwards {input : WorkerInput} {budget : WorkBudget} {received : Received}
    {system : Runtimes.State} {es : List Runtimes.Event} (hs : s.Piped platform sole)
    (hworker : s.worker i = some (.receive budget)) (hcall : s.call = some ⟨i, some received⟩)
    (hstep : Runtimes.step platform s.system
      (.runtime i (.worker { input with received := received })) = some (system, es)) :
    Forwards s { system := system } [] := by
  obtain ⟨r', pc', fs, hwork, -, hself, hothers⟩ := worker_step hworker hstep
  cases hwork
  refine forwards_quiet (hs.runtime_step hstep).2.2.2 fun hand h => ?_
  rw [(hand_answered hcall).mp h]
  have hreceived : ({ system := system } : State).worker i =
      some (.received budget received input.now) := by
    rw [State.worker, State.runtime, hself]
  exact hand_of_worker rfl hreceived (only_after hs hworker rfl hothers)

theorem runtime_forwards {a : Telemetry.Action} {system : Runtimes.State}
    {es : List Runtimes.Event} (hs : s.Piped platform sole) (ha : ∀ input, a ≠ .worker input)
    (hstep : Runtimes.step platform s.system (.runtime i a) = some (system, es)) :
    Forwards s { s with system := system } [] := by
  obtain ⟨-, -, hconsumer, hcontents⟩ := hs.runtime_step hstep
  refine forwards_quiet hcontents fun hand h => ?_
  obtain ⟨r, fs, hruntime, hruntimes⟩ := Runtimes.step_runtime_runtimes hstep
  have hkept := step_worker_kept (hs.staffed.agreed.runtimes i) ha hruntime
  have hworkers (j : ℕ) : ((system.runtimes j).worker).bind WorkerPc.hand =
      (s.worker j).bind WorkerPc.hand := by
    rw [hruntimes]
    split_ifs with hj
    · subst hj
      rcases hkept with ⟨hsame, -⟩ | ⟨hended, hnew⟩
      · rw [hsame]
        rfl
      · have hnone : (s.worker j).bind WorkerPc.hand = none := by
          by_contra hsome
          obtain ⟨frame, hhand⟩ := Option.ne_none_iff_exists'.mp hsome
          obtain ⟨pc, hpc, hheld⟩ := Option.bind_eq_some_iff.mp hhand
          exact hended ⟨pc, hpc, hand_of_finished hheld⟩
        rw [hnone]
        rcases hnew with hnew | ⟨-, hnew⟩ <;> rw [hnew] <;> rfl
    · rfl
  cases hcall : s.call with
  | none =>
    rw [hand_working hcall] at h
    rw [hand_working rfl]
    intro frame
    rw [h frame]
    exact exists_congr fun j => by rw [← hworkers j]; rfl
  | some call =>
    obtain ⟨j, answer⟩ := call
    cases answer with
    | none =>
      rw [hand_pending hcall] at h
      rw [hand_pending rfl, h, CanBus.State.hand, ← hconsumer]
      rfl
    | some received =>
      rw [hand_answered hcall] at h
      rwa [hand_answered rfl]

theorem receive_forwards {budget : WorkBudget} {timeoutMs : UInt32} {system : Runtimes.State}
    {es : List Runtimes.Event} (hs : s.Piped platform sole)
    (hworker : s.worker i = some (.receive budget)) (hcall : s.call = none)
    (hstep : Runtimes.step platform s.system (.bus (.receive timeoutMs)) = some (system, es)) :
    Forwards s { system := system, call := some { receiver := i } } [] := by
  obtain ⟨-, -, fs, hbus⟩ := Runtimes.step_bus_bus hstep
  obtain ⟨hshared, -, henter, -⟩ := receive_aside hbus
  have hbefore := hand_of_worker hcall hworker fun j hj =>
    hs.staffed.unique j i hj ⟨_, hworker, rfl⟩
  refine forwards_quiet ?_ fun hand h => ?_
  · rw [State.bus, CanBus.State.contents, hshared]
    rfl
  · rw [hbefore.unique h, hand_pending rfl, State.bus, CanBus.State.hand, henter]
    rfl

/-- While a start is in progress there is neither a call nor a worker. -/
theorem hand_of_starting {hand : Option RawCanFrame} (hs : s.Piped platform sole)
    (hstarting : s.bus.control.phase = .starting) (h : s.Hand hand) : hand = none := by
  have hvacant := hs.staffed.vacant (.inl hstarting)
  have hcall : s.call = none := by
    by_contra hsome
    obtain ⟨call, hcall⟩ := Option.ne_none_iff_exists'.mp hsome
    exact hvacant _ (hs.working_of_call hcall)
  rw [hand_working hcall] at h
  by_contra hsome
  obtain ⟨frame, rfl⟩ := Option.ne_none_iff_exists'.mp hsome
  obtain ⟨i, hhand⟩ := (h frame).mp rfl
  obtain ⟨pc, hworker, hheld⟩ := Option.bind_eq_some_iff.mp hhand
  exact hvacant i ⟨pc, hworker, hand_of_finished hheld⟩

theorem starting_of_flushes {b : CanBus.State} {a : CanBus.Action} (h : b.flushes a = true) :
    b.control.phase = .starting := by
  cases a with
  | control ok =>
    simp only [CanBus.State.flushes] at h
    split at h
    · rename_i hcontrol
      rw [hcontrol]
      rfl
    · cases h
  | _ => cases h

def busView (flushes : Bool) (es : List CanBus.Event) : List (ConveyorEvent RawCanFrame Disposal) :=
  (if flushes then [.flushed] else []) ++ es.filterMap CanBus.Event.moved?

theorem idle_forwards {b : CanBus.State} {flushes : Bool} {es : List CanBus.Event}
    (hconveys : CanBus.Conveys s.bus b flushes es) (hidle : s.bus.hand = none) (hb : t.bus = b)
    (hidle' : b.hand = none) (hhand : ∀ hand, s.Hand hand → t.Hand hand)
    (hflush : flushes = true → ∀ hand, s.Hand hand → hand = none) :
    Forwards s t (busView flushes es) := by
  subst hb
  intro hand h
  refine ⟨hand, hhand hand h, ?_⟩
  cases hconveys with
  | quiet contents _ flush moved =>
    simp [busView, flush, moved, contents, ConveyorEvent.enteredItems]
  | @entered frame room contents _ valid flush events =>
    subst events
    have hevents : busView false [CanBus.Event.ring (.published frame)] = [.entered frame] := rfl
    rw [flush, hevents]
    simp [conveyor_entered room, contents, ConveyorEvent.enteredItems, valid]
  | taken _ _ after =>
    rw [hidle'] at after
    cases after
  | returned _ before =>
    rw [hidle] at before
    cases before
  | flushed contents _ _ flush events =>
    subst events
    have hevents : busView true [] = [.flushed] := rfl
    rw [flush, hevents, hflush flush hand h]
    simp [conveyor_flushed, contents, ConveyorEvent.enteredItems]

theorem pending_forwards {a : CanBus.Action} {b : CanBus.State} {es : List CanBus.Event}
    (hconveys : CanBus.Conveys s.bus b (s.bus.flushes a) es) (hanswers : Answers s.bus b es)
    (hcall : s.call = some ⟨i, none⟩) (hbusy : s.bus.consumer.isIdle = false) (hb : t.bus = b)
    (hcall' : t.call = some ⟨i, es.findSome? answer?⟩) :
    Forwards s t (busView (s.bus.flushes a) es) := by
  subst hb
  intro hand h
  rw [hand_pending hcall] at h
  subst h
  cases hanswers with
  | pending consumer quiet =>
    rw [quiet] at hcall'
    refine ⟨t.bus.hand, (hand_pending hcall').mpr rfl, ?_⟩
    cases hconveys with
    | quiet contents hand flush moved =>
      simp [busView, flush, moved, contents, hand, ConveyorEvent.enteredItems]
    | @entered frame room contents hand valid flush events =>
      subst events
      have hevents : busView false [CanBus.Event.ring (.published frame)] = [.entered frame] := rfl
      rw [flush, hevents]
      simp [conveyor_entered room, contents, hand, ConveyorEvent.enteredItems, valid]
    | @taken frame contents before after flush events =>
      subst events
      have hevents : busView false [CanBus.Event.ring (.delivered frame)] = [.taken frame] := rfl
      rw [flush, hevents, contents, before, after]
      simp [conveyor_taken, ConveyorEvent.enteredItems]
    | returned _ _ _ _ events =>
      subst events
      cases quiet
    | flushed _ before =>
      rw [before] at hbusy
      cases hbusy
  | answered before after answer hand =>
    rw [answer] at hcall'
    refine ⟨_, (hand_answered hcall').mpr rfl, ?_⟩
    rw [hand]
    cases hconveys with
    | quiet contents _ flush moved =>
      simp [busView, flush, moved, contents, ConveyorEvent.enteredItems]
    | returned contents _ _ flush events =>
      subst events
      rw [flush, contents]
      exact ⟨rfl, by simp [busView, CanBus.Event.moved?, ConveyorEvent.enteredItems]⟩
    | entered _ _ _ _ _ events | taken _ _ _ _ events | flushed _ _ _ _ events =>
      subst events
      cases answer

theorem bus_forwards {a : CanBus.Action} {b : CanBus.State} {es : List CanBus.Event}
    {system : Runtimes.State} {fs : List Runtimes.Event} (hs : s.Piped platform sole)
    (hcreate : CanBus.CreatesAcknowledged s.bus a) (ha : beginsReceive a = false)
    (hbus : CanBus.step s.bus a = some (b, es))
    (hstep : Runtimes.step platform s.system (.bus a) = some (system, fs)) :
    Forwards s
      { system := system
        call := s.call.map fun call =>
          { call with answer := call.answer <|> es.findSome? answer? } }
      (busView (s.bus.flushes a) es) := by
  obtain ⟨hsystem, hruntimes⟩ := bus_of_system hbus hstep
  have hconveys := (hs.bus_step hcreate hbus).2.2
  have hanswers := bus_answers ha hbus
  have hidle (hno : ∀ i, s.call ≠ some ⟨i, none⟩) {t : State} (hb : t.bus = b)
      (hhand : ∀ hand, s.Hand hand → t.Hand hand) :
      Forwards s t (busView (s.bus.flushes a) es) := by
    have hconsumer : s.bus.consumer.isIdle = true := by
      by_contra hbusy
      obtain ⟨i, hcall⟩ := hs.coupled.busy.mpr (Bool.eq_false_iff.mpr hbusy)
      exact hno i hcall
    have hconsumer' : b.consumer.isIdle = true := by
      cases hanswers with
      | pending consumer => rw [consumer, hconsumer]
      | answered before => simp [hconsumer] at before
    have hempty {c : CanBus.State} (hc : c.consumer.isIdle = true) : c.hand = none := by
      rw [CanBus.State.hand, CanBus.ReceivePc.isIdle_iff.mp hc]
      rfl
    exact idle_forwards hconveys (hempty hconsumer) hb (hempty hconsumer') hhand
      fun hflush hand h => hand_of_starting hs (starting_of_flushes hflush) h
  cases hcall : s.call with
  | none =>
    refine hidle (by simp [hcall]) hsystem fun hand h => ?_
    rw [hand_working hcall] at h
    rw [hand_working rfl]
    simp only [State.worker, State.runtime, hruntimes]
    exact h
  | some call =>
    obtain ⟨i, answer⟩ := call
    cases answer with
    | none =>
      exact pending_forwards hconveys hanswers hcall (hs.coupled.busy.mp ⟨i, hcall⟩) hsystem rfl
    | some received =>
      refine hidle (by simp [hcall]) hsystem fun hand h => ?_
      rw [hand_answered hcall] at h
      rwa [hand_answered rfl]

theorem conveyed_of_step {a : Action} {es : List Event} (h : step platform s a = some (t, es)) :
    conveyed platform s a = unseen s a ++ es.filterMap Event.conveyed? := by
  rw [conveyed, h]
  rfl

theorem step_forwards {a : Action} {es : List Event} (hs : s.Piped platform sole)
    (hC : Permitted platform sole s a) (h : step platform s a = some (t, es)) :
    Forwards s t (conveyed platform s a) := by
  rw [conveyed_of_step h]
  cases step_cases h with
  | @taken i input budget received system fs receives answered hstep =>
    obtain ⟨r', pc', gs, hwork, hview, -⟩ := worker_step receives hstep
    cases hwork
    rw [hview, unseen, receives]
    exact taken_forwards hs receives answered hstep
  | @runtime i a system fs elsewhere hstep =>
    obtain ⟨r, gs, hruntime, hview⟩ := conveyed_system hstep
    by_cases ha : ∃ input, a = .worker input
    · obtain ⟨input, rfl⟩ := ha
      obtain ⟨pc, -, -, hpc, -⟩ := step_worker hruntime
      have hworker : s.worker i = some pc := hpc
      have hreceives := elsewhere input rfl
      rw [hworker] at hreceives
      rw [unseen, hworker]
      exact worker_forwards hs hworker hreceives hstep
    · have hother (input : WorkerInput) : a ≠ .worker input := fun heq => ha ⟨input, heq⟩
      rw [hview, step_unprocessed hother hruntime, List.append_nil]
      cases a with
      | worker input => exact absurd rfl (hother input)
      | _ => exact runtime_forwards hs hother hstep
  | receive receives free hstep => exact receive_forwards hs receives free hstep
  | @bus a b fs system gs background hbus hstep =>
    rw [conveyed_bus hstep, unseen]
    exact bus_forwards hs hC background hbus hstep

theorem vacant_of_accepts {a : CanBus.Action} (hs : s.Piped platform sole)
    (h : s.bus.accepts a = true) (i : ℕ) : ¬ (s.runtime i).Working := by
  obtain ⟨hentering, hfree⟩ := CanBus.State.entering_of_accepts h
  have hagreed := hs.staffed.agreed
  obtain ⟨j, hcall, hunclaimed⟩ := Runtimes.entering_call hagreed.sources hentering hfree
  obtain ⟨hturn, hpc⟩ := hagreed.starter hcall
  exact hagreed.vacant hs.staffed.tied hturn hpc hunclaimed i

theorem State.Piped.idle_of_vacant (hs : s.Piped platform sole)
    (h : ∀ i, ¬ (s.runtime i).Working) : s.bus.consumer = .idle := by
  apply hs.idle_of_no_call
  by_contra hsome
  obtain ⟨call, hcall⟩ := Option.ne_none_iff_exists'.mp hsome
  exact h _ (hs.working_of_call hcall)

end

instance (platform : Platform) (sole : ℕ) (s : State) (a : Action) :
    Decidable (Permitted platform sole s a) := by
  unfold Permitted
  cases a <;> infer_instance

theorem run_piped {platform : Platform} {sole : ℕ} {configuration : ℕ → CanBus.Configuration}
    {s : State} {as : List Action} {es : List Event}
    (hC : (machine platform).Along (Permitted platform sole) (initial configuration) as)
    (hrun : (machine platform).run (initial configuration) as = some (s, es)) :
    s.Piped platform sole :=
  (machine platform).run_preserves_along (fun _ _ _ _ hs hC hstep => step_piped hs hC hstep)
    (initial_piped platform sole configuration) hC hrun

/-- In every permitted run the runtimes keep the contract of the acquisition, which
asks for one receiver that stays away from starts: a worker at `receive` never meets
the call of another, the acquisition accepts a start only while no `receive` call is in
progress, and none begins before that start has returned. -/
theorem receive_contract {platform : Platform} {sole : ℕ}
    {configuration : ℕ → CanBus.Configuration} {s : State} {as : List Action} {es : List Event}
    (hC : (machine platform).Along (Permitted platform sole) (initial configuration) as)
    (hrun : (machine platform).run (initial configuration) as = some (s, es)) :
    (∀ i call, (s.worker i).any WorkerPc.receives = true → s.call = some call →
        call.receiver = i) ∧
      (∀ a, s.bus.accepts a = true → s.bus.consumer = .idle) ∧
      (s.bus.control.phase = .starting →
        s.bus.consumer = .idle ∧ ∀ i t fs, step platform s (.receive i) ≠ some (t, fs)) := by
  have hs := run_piped hC hrun
  refine ⟨fun i call hreceives hcall => ?_, fun a haccepts => ?_, fun hstarting => ⟨?_, ?_⟩⟩
  · obtain ⟨budget, hworker⟩ := receives_eq_true.mp hreceives
    exact hs.staffed.unique _ _ (hs.working_of_call hcall) ⟨_, hworker, rfl⟩
  · exact hs.idle_of_vacant (vacant_of_accepts hs haccepts)
  · exact hs.away hstarting
  · intro i t fs hstep
    cases step_cases hstep with
    | receive receives => exact hs.staffed.vacant (.inl hstarting) i ⟨_, receives, rfl⟩

/-- Runtime 0 starts, and its worker begins to receive. -/
def beginReceiveSchedule : List Action :=
  (Runtimes.launchSchedule 0 37).map ofSystem ++ List.replicate 2 (.runtime 0 (.worker {})) ++
    [.receive 0]

theorem receive_contract_begin : ∃ s es call,
    (machine .host).run (initial fun _ => {}) beginReceiveSchedule = some (s, es) ∧
      s.call = some call ∧ call.receiver = 0 := by
  have hobserved : ((machine .host).run (initial fun _ => {}) beginReceiveSchedule).map (fun p =>
      ((p.1.worker 0).any WorkerPc.receives, p.1.call.isSome)) = some (true, true) := by
    decide +kernel
  have hC : (machine .host).Along (Permitted .host 0) (initial fun _ => {})
      beginReceiveSchedule := by
    decide +kernel
  obtain ⟨⟨s, es⟩, hrun, heq⟩ := Option.map_eq_some_iff.mp hobserved
  simp only [Prod.mk.injEq] at heq
  obtain ⟨call, hcall⟩ := Option.isSome_iff_exists.mp heq.2
  exact ⟨s, es, call, hrun, hcall, (receive_contract hC hrun).1 0 call heq.1 hcall⟩

end Pipeline
end Telemetry
end VehicleCanCore

import VehicleCanCore.CanBus.FrameQueue
import VehicleCanCore.Telemetry.Agreement

/-!
# One worker for one acquisition

The ring has room for one consumer, and nothing but the lifecycle keeps two
workers apart. On the host a worker outlives neither the claim of its source nor
the `stop()` that gives the claim up, which joins it. On the target a bounded wait
can leave a worker behind, so that only a single runtime is safe there.
-/

namespace VehicleCanCore
namespace Telemetry

open Automata

/-! ## The worker and the operation of one runtime -/

def Runtime.Working (r : Runtime) : Prop :=
  ∃ pc, r.worker = some pc ∧ pc.isFinished = false

namespace OperationPc

/-- Between a successful start of the source and the creation of the worker. -/
def launching : OperationPc → Bool
  | clearStopRequested | setWorkerActive | refresh _ | resetDiagnostics | storeRunning
  | createWorker => true
  | _ => false

/-- The source is being started, or has been started successfully. -/
def early : OperationPc → Bool
  | awaitStart => true
  | pc => pc.launching

/-- A worker may be left without a claim: it is about to be joined, or the object
is being destroyed. -/
def joining : OperationPc → Bool
  | awaitWorker _ => true
  | pc => pc.destroying

theorem joining_of_destroying {pc : OperationPc} (h : pc.destroying = true) :
    pc.joining = true := by
  cases pc <;> first | rfl | exact h

end OperationPc

theorem Runtime.Gone.not_working {platform : Platform} {r : Runtime} (h : r.Gone platform) :
    ¬ r.Working := by
  rintro ⟨pc, hpc, hrunning⟩
  exact Runtime.Gone.not_running hpc hrunning h

theorem Runtime.not_working_of_gone {r : Runtime} (h : r.workerGone .host = true) :
    ¬ r.Working := by
  rintro ⟨pc, hpc, hrunning⟩
  simp [workerGone, hpc, hrunning] at h

/-- What a step of an operation does to the worker: one that has not ended is left
alone, and stays asked to stop. -/
theorem operationStep_staff {platform : Platform} {r r' : Runtime} {input : OperationInput}
    {pc pc' : OperationPc} {es : List Event} (howned : pc.Owned platform r)
    (h : operationStep platform r input pc = some (r', pc', es)) :
    (r'.worker = r.worker ∧ (r.Working → r.stopRequested = true → r'.stopRequested = true)) ∨
      (¬ r.Working ∧ (r'.worker = none ∨
        (pc = .createWorker ∧ r'.worker = some .begin ∧ pc' = .finish .ok))) := by
  have hkept : (r.worker = r.worker ∧ (r.Working → r.stopRequested = true →
      r.stopRequested = true)) := ⟨rfl, fun _ => id⟩
  cases pc with
  | idle | destroyed => cases h
  | clearStopRequested =>
    cases h
    exact .inl ⟨rfl, fun hworking => absurd hworking howned.2.1.not_working⟩
  | requestStop =>
    cases h
    exact .inl ⟨rfl, fun _ _ => rfl⟩
  | refresh pc | refreshDiagnostic _ _ _ pc =>
    simp only [operationStep, Option.map_eq_some_iff, Prod.exists] at h
    obtain ⟨r'', pc'', hrefresh, heq⟩ := h
    obtain ⟨_, _, _, _, rfl⟩ := Runtime.refreshStep_eq hrefresh
    cases heq
    exact .inl hkept
  | createWorker =>
    simp only [operationStep] at h
    split_ifs at h <;> cases h
    · exact .inr ⟨howned.2.1.not_working, .inr ⟨rfl, rfl, rfl⟩⟩
    · exact .inl hkept
  | awaitWorker | joinWorker =>
    simp only [operationStep] at h
    split_ifs at h with hgone <;> cases h
    all_goals first
      | exact .inl hkept
      | (cases platform; exacts [.inr ⟨Runtime.not_working_of_gone hgone, .inl rfl⟩, .inl hkept])
  | awaitStart =>
    simp only [operationStep] at h
    split_ifs at h <;> cases h <;> exact .inl hkept
  | attemptStop | cleanUp =>
    simp only [operationStep] at h
    split at h <;> cases h <;> exact .inl hkept
  | _ =>
    cases h
    exact .inl hkept

theorem operationStep_events {platform : Platform} {r r' : Runtime} {input : OperationInput}
    {pc pc' : OperationPc} {es : List Event}
    (h : operationStep platform r input pc = some (r', pc', es)) : es.length ≤ 1 := by
  cases pc with
  | idle | destroyed => cases h
  | refresh | refreshDiagnostic =>
    simp only [operationStep, Option.map_eq_some_iff, Prod.exists] at h
    obtain ⟨_, _, -, heq⟩ := h
    cases heq
    simp
  | awaitStart | createWorker | awaitWorker | joinWorker =>
    simp only [operationStep] at h
    split_ifs at h <;> cases h <;> simp
  | attemptStop | cleanUp =>
    simp only [operationStep] at h
    split at h <;> cases h <;> simp
  | _ =>
    cases h
    simp

theorem OperationPc.AfterCleanup.not_early {pc : OperationPc} (h : pc.AfterCleanup) :
    pc.early = false := by
  cases h <;> rfl

theorem destroyBy_not_early {final : Bool} {ownership : SourceOwnership}
    {otherwise : OperationPc} (h : otherwise.early = false) :
    (destroyBy final otherwise ownership).early = false :=
  destroyBy_of (P := fun pc => pc.early = false) h rfl rfl

theorem operationStep_early {platform : Platform} {r r' : Runtime} {input : OperationInput}
    {pc pc' : OperationPc} {es : List Event} (hpc' : pc'.early = true)
    (h : operationStep platform r input pc = some (r', pc', es)) :
    (pc.launching = true ∧ pc'.launching = true) ∨
      (pc = .awaitStart ∧ pc'.launching = true ∧ es = [.source (.startReturned .ok)]) ∨
      (pc = .callStart ∧ pc' = .awaitStart ∧ es = [.source .start]) := by
  cases pc with
  | idle | destroyed => cases h
  | callStart =>
    cases h
    exact .inr (.inr ⟨rfl, rfl, rfl⟩)
  | clearStopRequested | setWorkerActive | resetDiagnostics | storeRunning =>
    cases h
    exact .inl ⟨rfl, rfl⟩
  | refresh pc =>
    simp only [operationStep, Option.map_eq_some_iff, Prod.exists] at h
    obtain ⟨_, pc'', -, heq⟩ := h
    cases heq
    cases pc'' <;> exact .inl ⟨rfl, rfl⟩
  | awaitStart =>
    simp only [operationStep] at h
    split_ifs at h with hok <;> cases h
    · exact .inr (.inl ⟨rfl, rfl, by rw [hok]⟩)
    all_goals cases hpc'
  | refreshDiagnostic lifecycle transport next pc =>
    simp only [operationStep, Option.map_eq_some_iff, Prod.exists] at h
    obtain ⟨_, pc'', -, heq⟩ := h
    cases heq
    cases pc'' <;> cases hpc'
  | createWorker | awaitWorker | joinWorker =>
    simp only [operationStep] at h
    split_ifs at h <;> cases h <;> cases hpc'
  | attemptStop =>
    simp only [operationStep] at h
    split at h <;> cases h
    · simp [(afterSourceStop_afterCleanup _ _).not_early] at hpc'
    · cases hpc'
  | awaitStop =>
    cases h
    simp [(afterSourceStop_afterCleanup _ _).not_early] at hpc'
  | cleanUp =>
    simp only [operationStep] at h
    split at h <;> cases h
    · simp [(afterPartialCleanup_afterCleanup _ _).not_early] at hpc'
    · cases hpc'
  | awaitCleanup =>
    cases h
    simp [(afterPartialCleanup_afterCleanup _ _).not_early] at hpc'
  | requestStop caller =>
    cases h
    cases caller with
    | start | stop => cases hpc'
    | destroy final =>
      rw [destroyBy_not_early rfl] at hpc'
      cases hpc'
  | writeDiagnostic lifecycle transport next =>
    cases h
    cases next <;> cases hpc'
  | retryCleanup =>
    cases h
    split_ifs at hpc'
    · rw [destroyBy_not_early rfl] at hpc'
      cases hpc'
    · cases hpc'
  | _ =>
    cases h
    cases hpc'

/-! ## The worker and the claim on the host -/

theorem Runtime.Gone.host {r : Runtime} (h : r.Gone .host) : r.worker = none := by
  cases hworker : r.worker with
  | none => rfl
  | some pc => simp [Runtime.Gone, hworker] at h

/-- A runtime that still has a thread owns its source, or is about to join. -/
def OperationPc.Attached (r : Runtime) (pc : OperationPc) : Prop :=
  r.worker ≠ none → pc.joining = true ∨ r.books.ownership = .successfulStart

theorem OperationPc.Attached.of_none {r : Runtime} {pc : OperationPc} (h : r.worker = none) :
    pc.Attached r := fun hworker => absurd h hworker

theorem OperationPc.Attached.of_joining {r : Runtime} {pc : OperationPc} (h : pc.joining = true) :
    pc.Attached r := fun _ => .inl h

theorem OperationPc.Attached.keep {r r' : Runtime} {pc pc' : OperationPc} (h : pc.Attached r)
    (hpc : pc.joining = false) (hworker : r'.worker = r.worker)
    (hbooks : r'.books.ownership = r.books.ownership) : pc'.Attached r' := by
  intro hthread
  rw [hworker] at hthread
  rcases h hthread with hjoining | howner
  · simp [hpc] at hjoining
  · exact .inr (hbooks.trans howner)

theorem operationStep_attached {r r' : Runtime} {input : OperationInput} {pc pc' : OperationPc}
    {es : List Event} (howned : pc.Owned .host r)
    (hretry : pc.waiting = true → r.books.stopRetrySupported = true) (h : pc.Attached r)
    (hstep : operationStep .host r input pc = some (r', pc', es)) : pc'.Attached r' := by
  by_cases hdestroying : pc.destroying = true
  · have hdestroying' := operationStep_destroying hdestroying hstep
    exact .of_joining (OperationPc.joining_of_destroying hdestroying')
  cases pc with
  | idle | destroyed => cases hstep
  | awaitStart =>
    have hnone := howned.1.2.host
    simp only [operationStep] at hstep
    split_ifs at hstep <;> cases hstep <;> exact .of_none hnone
  | refresh pc | refreshDiagnostic _ _ _ pc =>
    simp only [operationStep, Option.map_eq_some_iff, Prod.exists] at hstep
    obtain ⟨r'', pc'', hrefresh, heq⟩ := hstep
    obtain ⟨_, _, _, _, rfl⟩ := Runtime.refreshStep_eq hrefresh
    cases heq
    exact h.keep rfl rfl rfl
  | createWorker =>
    have howner : r.books.ownership = .successfulStart := howned.1.1.ownership
    simp only [operationStep] at hstep
    split_ifs at hstep <;> cases hstep
    · exact fun _ => .inr howner
    · exact h.keep rfl rfl rfl
  | awaitWorker =>
    simp only [operationStep] at hstep
    split_ifs at hstep with hgone hexpired <;> cases hstep
    · exact .of_none rfl
    · cases hexpired.1
  | requestStop caller =>
    cases hstep
    cases caller with
    | start | stop => exact h.keep rfl rfl rfl
    | destroy => simp [OperationPc.destroying] at hdestroying
  | attemptStop caller =>
    simp only [operationStep] at hstep
    cases caller with
    | destroy => simp [OperationPc.destroying] at hdestroying
    | start =>
      have hnone := Runtime.Gone.host howned.2
      split at hstep <;> cases hstep <;> exact .of_none hnone
    | stop =>
      rcases howned.1 with hreleased | hsuccessful
      · rw [hreleased.beginSourceStop] at hstep
        cases hstep
        exact .of_joining rfl
      · rw [hsuccessful.beginSourceStop] at hstep
        cases hstep
        exact fun _ => .inr hsuccessful.ownership
  | awaitStop caller =>
    have houtcome := howned.1.endSourceStop input.result
    simp only [operationStep, Option.some.injEq, Prod.mk.injEq] at hstep
    obtain ⟨rfl, rfl, rfl⟩ := hstep
    generalize r.books.endSourceStop input.result = ended at houtcome ⊢
    obtain ⟨books, cleanup⟩ := ended
    cases caller with
    | destroy => simp [OperationPc.destroying] at hdestroying
    | start => exact .of_none (Runtime.Gone.host howned.2.2)
    | stop =>
      cases houtcome with
      | released => exact .of_joining rfl
      | handedOff released oneShot => simp [hretry rfl] at oneShot
      | retained owned => exact fun _ => .inr owned.ownership
  | cleanUp caller =>
    simp only [operationStep] at hstep
    cases caller with
    | destroy => simp [OperationPc.destroying] at hdestroying
    | start | stop =>
      have hnone := Runtime.Gone.host howned.2
      split at hstep <;> cases hstep <;> exact .of_none hnone
  | awaitCleanup caller =>
    cases hstep
    cases caller with
    | destroy => simp [OperationPc.destroying] at hdestroying
    | start | stop => exact .of_none (Runtime.Gone.host howned.2.2)
  | joinWorker | retryCleanup => simp [OperationPc.destroying] at hdestroying
  | _ =>
    cases hstep
    exact h.keep rfl rfl rfl

/-! ## One step of one runtime -/

/-- What a step means for the staff: who works, and who soon may. -/
structure StaffEffect (r t : Runtime) (es : List Event) : Prop where
  working : t.Working → r.Working ∨ (r.operation = .createWorker ∧ t.operation = .finish .ok)
  early : t.operation.early = true →
    (t.operation = r.operation ∧ es.filterMap Event.sourceCall = []) ∨
      (r.operation.launching = true ∧ t.operation.launching = true) ∨
      (r.operation = .awaitStart ∧ t.operation.launching = true ∧
        es = [.source (.startReturned .ok)]) ∨
      (r.operation = .callStart ∧ t.operation = .awaitStart ∧ es = [.source .start])
  calls : es.filterMap Event.sourceCall = [] ∨ (r.operation ≠ .idle ∧ ∃ e, es = [.source e])

theorem sourceCalls_of_length {es : List Event} (h : es.length ≤ 1) :
    es.filterMap Event.sourceCall = [] ∨ ∃ e, es = [.source e] := by
  cases es with
  | nil => exact .inl rfl
  | cons e es =>
    obtain rfl : es = [] := by simpa using h
    cases e with
    | source e => exact .inr ⟨e, rfl⟩
    | _ => exact .inl rfl

theorem step_staff {platform : Platform} {r t : Runtime} {a : Action} {es : List Event}
    (hr : r.Sound platform) (h : step platform r a = some (t, es)) : StaffEffect r t es := by
  cases step_cases h with
  | configure | refused => exact ⟨.inl, fun _ => .inl ⟨rfl, rfl⟩, by simp [Event.sourceCall]⟩
  | start =>
    exact ⟨.inl, by simp [OperationPc.early, OperationPc.launching], by simp [Event.sourceCall]⟩
  | stop free owned usable begins =>
    refine ⟨.inl, fun hearly => ?_, by simp [Event.sourceCall]⟩
    rcases begins with ⟨-, rfl⟩ | ⟨-, ⟨-, rfl⟩ | ⟨-, rfl⟩⟩ <;> cases hearly
  | destroy => exact ⟨.inl, by simp [OperationPc.early, OperationPc.launching], by simp⟩
  | @operation input r' pc es hop =>
    refine ⟨fun hworking => ?_, fun hearly => .inr (operationStep_early hearly hop), ?_⟩
    · obtain ⟨q, hq, hrunning⟩ := hworking
      rcases operationStep_staff hr.owned hop with ⟨hsame, -⟩ | ⟨-, hnone | ⟨hcreate, -, hfinish⟩⟩
      · exact .inl ⟨q, hsame ▸ hq, hrunning⟩
      · rw [hnone] at hq
        cases hq
      · exact .inr ⟨hcreate, hfinish⟩
    · have hbusy : r.operation ≠ .idle := by
        intro hidle
        simp [hidle, operationStep] at hop
      rcases sourceCalls_of_length (operationStep_events hop) with hnone | hone
      · exact .inl hnone
      · exact .inr ⟨hbusy, hone⟩
  | worker active hworker =>
    have heffect := workerStep_effect hworker
    have hnone := Runtimes.workerStep_sourceCalls heffect
    refine ⟨fun _ => .inl ⟨_, active, heffect.running⟩,
      fun _ => .inl ⟨heffect.operation, hnone⟩, ?_⟩
    simp [hnone]
  | @read now usable =>
    obtain ⟨transport, heq⟩ := Runtime.updateSilenceDiagnostic_eq r now
    rw [heq]
    exact ⟨.inl, fun _ => .inl ⟨rfl, rfl⟩, by simp [Event.sourceCall]⟩

theorem step_worker_kept {platform : Platform} {r t : Runtime} {a : Action} {es : List Event}
    (hr : r.Sound platform) (ha : ∀ input, a ≠ .worker input)
    (h : step platform r a = some (t, es)) :
    (t.worker = r.worker ∧ (r.Working → r.stopRequested = true → t.stopRequested = true)) ∨
      (¬ r.Working ∧ (t.worker = none ∨
        (r.operation = .createWorker ∧ t.worker = some .begin))) := by
  cases step_cases h with
  | operation hop =>
    rcases operationStep_staff hr.owned hop with hkept | ⟨hended, hnone | ⟨hcreate, hbegin, -⟩⟩
    · exact .inl hkept
    · exact .inr ⟨hended, .inl hnone⟩
    · exact .inr ⟨hended, .inr ⟨hcreate, hbegin⟩⟩
  | worker => exact absurd rfl (ha _)
  | @read now usable =>
    obtain ⟨transport, heq⟩ := Runtime.updateSilenceDiagnostic_eq r now
    rw [heq]
    exact .inl ⟨rfl, fun _ => id⟩
  | _ => exact .inl ⟨rfl, fun _ => id⟩

theorem step_attached {r t : Runtime} {a : Action} {es : List Event} (hr : r.Sound .host)
    (hretry : r.operation.waiting = true → r.books.stopRetrySupported = true)
    (hattached : r.operation.Attached r) (h : step .host r a = some (t, es)) :
    t.operation.Attached t := by
  cases step_cases h with
  | configure | refused => exact hattached
  | start free stopped usable valid =>
    have hidle := hr.idle free usable
    rw [hidle] at hattached
    exact hattached.keep rfl rfl rfl
  | stop free owned usable begins =>
    have hidle := hr.idle free usable
    rw [hidle] at hattached
    exact hattached.keep rfl rfl rfl
  | destroy idle => exact .of_joining rfl
  | operation hop =>
    have hattached' := operationStep_attached hr.owned hretry hattached hop
    exact hattached'
  | worker active hworker =>
    have heffect := workerStep_effect hworker
    intro _
    show _ ∨ _
    rw [heffect.operation, heffect.books]
    exact hattached (by simp [active])
  | @read now usable =>
    obtain ⟨transport, heq⟩ := Runtime.updateSilenceDiagnostic_eq r now
    rw [heq]
    exact hattached

/-! ## Calls on the sources -/

namespace Sources

theorem State.advance_call {s : State} {bus : CanBus.State} {es : List CanBus.Event} {i : ℕ}
    {r : ResultCode} (h : .returned i r ∈ (s.advance bus es).2) :
    ∃ op, s.call = some (i, op) ∧ ∃ self self' : CanBusSource, ∃ e ∈ es,
      self.take e = some (self', r) := by
  unfold State.advance at h
  split at h
  · simp at h
  · rename_i j op hcall
    split at h
    · simp at h
    · rename_i self' result htake
      simp only [List.mem_singleton, Event.returned.injEq] at h
      obtain ⟨rfl, rfl⟩ := h
      obtain ⟨self, -, hfind⟩ := Option.bind_eq_some_iff.mp htake
      obtain ⟨e, he, htaken⟩ := List.exists_of_findSome?_eq_some hfind
      exact ⟨op, hcall, self, self', e, he, htaken⟩

theorem step_callStart {s t : State} {i : ℕ} {es : List Event} (hs : s.Sound)
    (h : step s (.call i .start) = some (t, es)) :
    t.bus.control.phase ≠ .starting ∧ ∀ j, .returned j .ok ∉ es := by
  cases step_cases h with
  | manage manages => cases manages
  | stop stops | stopRefused stops => exact absurd rfl stops
  | start free object hstep =>
    obtain ⟨-, hidle, -, hresult⟩ := CanBus.step_start hs.bus hstep
    rw [State.advance_bus]
    rcases hresult with ⟨hphase, rfl⟩ | ⟨hpc, rfl⟩
    · refine ⟨by simp [hphase], fun j hj => ?_⟩
      obtain ⟨-, -, -, -, e, he, -⟩ := State.advance_call hj
      simp at he
    · refine ⟨by simp [hpc, CanBus.ControlPc.phase], fun j hj => ?_⟩
      obtain ⟨-, -, self, self', e, he, htake⟩ := State.advance_call hj
      obtain rfl : e = .started ⟨.invalidConfiguration, false⟩ := by simpa using he
      simp [CanBusSource.take, CanBusSource.afterStart, mapStartResult] at htake

theorem step_callStop {s t : State} {i : ℕ} {op : Operation} {es : List Event} (hop : op ≠ .start)
    (hs : s.Sound) (h : step s (.call i op) = some (t, es)) :
    t.bus.control.phase = .stopping ∨ t.bus = s.bus := by
  cases step_cases h with
  | manage manages => cases manages
  | start => exact absurd rfl hop
  | stop _ _ _ _ hstep =>
    obtain ⟨-, -, -, hphase, -⟩ := CanBus.step_stopCall hs.bus hstep
    exact .inl hphase
  | stopRefused => exact .inr rfl

/-- A source reports success for the acquisition only. -/
theorem step_startOk {s t : State} {i : ℕ} {a : CanBus.Action} {es : List Event} (hs : s.Sound)
    (hcall : s.call = some (i, .start)) (h : step s (.bus a) = some (t, es))
    (hreturned : .returned i .ok ∈ es) : s.bus.control = .startSucceeded := by
  have hin := hs.inCall
  rw [hcall] at hin
  obtain ⟨-, hphase⟩ := State.inCall_start hin
  cases step_cases h with
  | manage manages => cases manages
  | @bus _ bus _ background hstep =>
    obtain ⟨-, -, self, self', e, he, htake⟩ := State.advance_call hreturned
    cases e with
    | started o =>
      simp only [CanBusSource.take, CanBusSource.afterStart, Option.some.injEq, Prod.mk.injEq,
        mapStartResult_ok] at htake
      obtain ⟨result, cleanupRequired⟩ := o
      obtain ⟨-, rfl⟩ := htake
      exact CanBus.step_started hs.bus background hstep he
    | stopped =>
      have hprogress := (CanBus.step_progress hs.bus background hstep).2
      generalize s.bus.control.phase = p at hprogress hphase
      generalize bus.control.phase = p' at hprogress
      cases hprogress with
      | within quiet => cases quiet _ he
      | stopped => simp at hphase
      | _ => simp at he
    | _ => cases htake

end Sources

namespace Runtimes

theorem returned_of_answerOf {es : List Sources.Event} {r : ResultCode}
    (h : answerOf es = some r) : ∃ i, .returned i r ∈ es := by
  obtain ⟨e, he, hresult⟩ := List.exists_of_findSome?_eq_some h
  cases e with
  | busStop => cases hresult
  | returned i r' =>
    cases hresult
    exact ⟨i, he⟩

namespace State

variable {s t : State} {i : ℕ} {fs : List Sources.Event}

theorem serve_runtimes {e : SourceEvent} (h : s.serve i e = some (t, fs)) :
    t.runtimes = s.runtimes := by
  have hcall {op : Sources.Operation} (h : s.callSource i op = some (t, fs)) :
      t.runtimes = s.runtimes := by
    simp only [callSource, Option.map_eq_some_iff, Prod.exists] at h
    obtain ⟨_, _, -, heq⟩ := h
    cases heq
    rfl
  cases e with
  | start => exact hcall h
  | cleanup call => cases call <;> exact hcall h
  | supportsStopRetry | startReturned | cleanupReturned =>
    simp only [serve, Option.ite_none_right_eq_some, Option.some.injEq, Prod.mk.injEq] at h
    obtain ⟨-, rfl, -⟩ := h
    rfl

theorem serveAll_runtimes {es : List SourceEvent} (h : s.serveAll i es = some (t, fs)) :
    t.runtimes = s.runtimes := by
  induction es generalizing s t fs with
  | nil =>
    cases h
    rfl
  | cons e es ih =>
    simp only [serveAll, Option.bind_eq_some_iff, Option.map_eq_some_iff, Prod.exists] at h
    obtain ⟨u, _, hserve, _, _, hrest, heq⟩ := h
    cases heq
    exact (ih hrest).trans (serve_runtimes hserve)

/-- No call on a source leads into the inside of a start. -/
theorem serve_within {within : CanBus.ControlPc → Prop}
    (hwithin : ∀ pc, within pc → pc.phase = .starting) {e : SourceEvent} (hs : s.sources.Sound)
    (h : s.serve i e = some (t, fs)) (ht : within t.sources.bus.control) :
    within s.sources.bus.control := by
  have hcall {op : Sources.Operation} (h : s.callSource i op = some (t, fs)) :
      within s.sources.bus.control := by
    simp only [callSource, Option.map_eq_some_iff, Prod.exists] at h
    obtain ⟨u, es, hstep, heq⟩ := h
    cases heq
    by_cases hop : op = .start
    · subst hop
      exact absurd (hwithin _ ht) (Sources.step_callStart hs hstep).1
    · rcases Sources.step_callStop hop hs hstep with hstopping | hsame
      · have hstarting : u.bus.control.phase = .starting := hwithin _ ht
        simp [hstopping] at hstarting
      · exact hsame ▸ ht
  cases e with
  | start => exact hcall h
  | cleanup call => cases call <;> exact hcall h
  | supportsStopRetry | startReturned | cleanupReturned =>
    simp only [serve, Option.ite_none_right_eq_some, Option.some.injEq, Prod.mk.injEq] at h
    obtain ⟨-, rfl, -⟩ := h
    exact ht

end State

/-! ## The staff of the acquisition -/

namespace State

/-- The acquisition is at the points `within` of a start, or has been started for a
runtime that has not created its worker yet. -/
def Early (within : CanBus.ControlPc → Prop) (s : State) : Prop :=
  within s.sources.bus.control ∨
    ∃ i, ((s.runtimes i).operation = .awaitStart ∧ s.answer = some .ok) ∨
      (s.runtimes i).operation.launching = true

/-- From the acceptance of a start to the creation of its worker. -/
def Launching (s : State) : Prop := s.Early fun pc => pc.phase = .starting

/-- On the host no thread outlives the claim of its source; on the target only one
runtime has ever been used. -/
def Tied (platform : Platform) (sole : ℕ) (s : State) : Prop :=
  match platform with
  | .host => ∀ i, (s.runtimes i).operation.Attached (s.runtimes i)
  | .esp => ∀ i, i ≠ sole → s.runtimes i = {}

structure Staffed (platform : Platform) (sole : ℕ) (s : State) : Prop where
  agreed : s.Agreed platform
  tied : s.Tied platform sole
  unique : ∀ i j, (s.runtimes i).Working → (s.runtimes j).Working → i = j
  vacant : s.Launching → ∀ i, ¬ (s.runtimes i).Working

end State

theorem not_working_init : ¬ ({} : Runtime).Working := by
  rintro ⟨pc, hpc, -⟩
  cases hpc

theorem starting_call {u : Sources.State} (hu : u.Sound)
    (hstarting : u.bus.control.phase = .starting) : ∃ i, u.call = some (i, .start) := by
  have hin := hu.inCall
  cases hcall : u.call with
  | none =>
    rw [hcall] at hin
    simp [hin.1] at hstarting
  | some call =>
    obtain ⟨i, op⟩ := call
    rw [hcall] at hin
    cases op with
    | start => exact ⟨i, rfl⟩
    | stop | retryStop => simp [hin.1] at hstarting

theorem entering_call {u : Sources.State} (hu : u.Sound)
    (hentering : u.bus.control.phase = .entering)
    (hfree : u.bus.shared.lifecycle.state = .stopped) :
    ∃ i, u.call = some (i, .start) ∧ ∀ j, u.owns j = false := by
  have hin := hu.inCall
  cases hcall : u.call with
  | none =>
    rw [hcall] at hin
    simp [hin.1] at hentering
  | some call =>
    obtain ⟨i, op⟩ := call
    rw [hcall] at hin
    cases op with
    | start =>
      obtain ⟨-, ⟨-, hexclusive⟩ | ⟨hstarting, -⟩⟩ := Sources.State.inCall_start hin
      · have hnone := hexclusive.active.not.mpr (not_not.mpr hfree)
        exact ⟨i, rfl, by simpa using hnone⟩
      · simp [hstarting] at hentering
    | stop | retryStop => simp [hin.1] at hentering

section

variable {platform : Platform} {sole : ℕ} {s : State} {i : ℕ}

theorem State.Agreed.starter (h : s.Agreed platform) (hcall : s.sources.call = some (i, .start)) :
    s.turn = some i ∧ (s.runtimes i).operation = .awaitStart := by
  have hturn := h.exists_waiting hcall
  refine ⟨hturn, ?_⟩
  have hagrees := h.agrees i
  cases hpc : (s.runtimes i).operation
  case awaitStart => rfl
  case awaitStop | awaitCleanup =>
    rw [hpc] at hagrees
    rcases hagrees.2 with ⟨⟨op, hop, hcall'⟩, -⟩ | ⟨hnone, -⟩
    · rw [hcall] at hcall'
      cases hcall'
      exact absurd rfl hop
    · simp [hcall] at hnone
  all_goals
    have hcalm := h.calm_of_turn hturn (by rw [hpc]; rfl)
    simp [hcall] at hcalm

theorem State.Agreed.not_launching (h : s.Agreed platform) (hturn : s.turn = some i)
    (hwaiting : (s.runtimes i).operation.waiting = false)
    (hlaunching : (s.runtimes i).operation.launching = false) : ¬ s.Launching := by
  have hcalm := h.calm_of_turn hturn hwaiting
  rintro (hstarting | ⟨j, hearly⟩)
  · obtain ⟨j, hcall⟩ := starting_call h.sources hstarting
    simp [hcalm.1] at hcall
  · by_cases hj : j = i
    · rw [hj, hcalm.2, hlaunching] at hearly
      simp at hearly
    · rw [h.idle (.inr hturn) hj] at hearly
      simp [OperationPc.launching] at hearly

theorem starting_of_returned {a : CanBus.Action} {u : Sources.State} {es : List Sources.Event}
    {j : ℕ} {r : ResultCode} (h : s.Agreed platform)
    (hpc : (s.runtimes i).operation = .awaitStart)
    (hstep : Sources.step s.sources (.bus a) = some (u, es)) (hreturned : .returned j r ∈ es) :
    s.sources.call = some (i, .start) ∧ .returned i r ∈ es := by
  have hagrees := h.agrees i
  rw [hpc] at hagrees
  cases Sources.step_cases hstep with
  | manage manages => cases manages
  | bus background hbus =>
    obtain ⟨op, hcall, -⟩ := Sources.State.advance_call hreturned
    rcases hagrees.2.2 with ⟨hstart, -⟩ | ⟨hfree, -⟩
    · rw [hcall] at hstart
      cases hstart
      exact ⟨hcall, hreturned⟩
    · simp [hcall] at hfree

/-- A runtime at its start owns nothing, and once the acquisition is stopped nobody
else does: no worker is left. -/
theorem State.Agreed.vacant (h : s.Agreed platform) (htied : s.Tied platform sole)
    (hturn : s.turn = some i) (hpc : (s.runtimes i).operation = .awaitStart)
    (hunclaimed : ∀ j, s.sources.owns j = false) (j : ℕ) : ¬ (s.runtimes j).Working := by
  have howned := (h.runtimes i).owned
  rw [hpc] at howned
  by_cases hj : j = i
  · exact hj ▸ howned.1.2.not_working
  cases platform with
  | host =>
    rintro ⟨pc, hworker, -⟩
    have hidle := h.idle (.inr hturn) hj
    have hattached := htied j
    rw [hidle] at hattached
    rcases hattached (by simp [hworker]) with hjoining | howner
    · cases hjoining
    · have hclaim := (h.holds hidle).agree.mp (by simp [howner])
      simp [hunclaimed] at hclaim
  | esp =>
    have hsole : i = sole := by
      by_contra hother
      rw [htied i hother] at hpc
      cases hpc
    rw [htied j (fun hj' => hj (hj'.trans hsole.symm))]
    exact not_working_init

end

theorem early_of_bus {platform : Platform} {s : State} {within : CanBus.ControlPc → Prop}
    (hsucceeded : within .startSucceeded) {a : CanBus.Action} {u : Sources.State}
    {es : List Sources.Event} (hs : s.Agreed platform)
    (hstep : Sources.step s.sources (.bus a) = some (u, es))
    (h : (s.withSources u es).Early within) : within u.bus.control ∨ s.Early within := by
  rcases h with hwithin | ⟨i, ⟨hpc, hanswer⟩ | hlaunching⟩
  · exact .inl hwithin
  · right
    cases hold : answerOf es with
    | none => exact .inr ⟨i, .inl ⟨hpc, by simpa [State.withSources, hold] using hanswer⟩⟩
    | some r =>
      obtain rfl : r = .ok := by simpa [State.withSources, hold] using hanswer
      obtain ⟨j, hreturned⟩ := returned_of_answerOf hold
      obtain ⟨hcall, hreturned⟩ := starting_of_returned hs hpc hstep hreturned
      exact .inl (Sources.step_startOk hs.sources hcall hstep hreturned ▸ hsucceeded)
  · exact .inr (.inr ⟨i, .inr hlaunching⟩)

theorem bus_staffed {platform : Platform} {sole : ℕ} {s : State} {a : CanBus.Action}
    {u : Sources.State} {es : List Sources.Event} (hs : s.Staffed platform sole)
    (hstep : Sources.step s.sources (.bus a) = some (u, es)) :
    (s.withSources u es).Staffed platform sole := by
  refine ⟨bus_agreed hs.agreed hstep, hs.tied, hs.unique, fun hlaunching => ?_⟩
  have hsucceeded : (fun pc : CanBus.ControlPc => pc.phase = .starting) .startSucceeded := rfl
  rcases early_of_bus hsucceeded hs.agreed hstep hlaunching with hstarting | hbefore
  · cases Sources.step_cases hstep with
    | manage manages => cases manages
    | bus background hbus =>
      rw [Sources.State.advance_bus] at hstarting
      rcases CanBus.step_accepts hs.agreed.sources.bus hbus hstarting with hbefore | haccepts
      · exact hs.vacant (.inl hbefore)
      · obtain ⟨hentering, hfree⟩ := CanBus.State.entering_of_accepts haccepts
        obtain ⟨i, hcall, hunclaimed⟩ := entering_call hs.agreed.sources hentering hfree
        obtain ⟨hturn, hpc⟩ := hs.agreed.starter hcall
        exact hs.agreed.vacant hs.tied hturn hpc hunclaimed
  · exact hs.vacant hbefore

section

variable {platform : Platform} {sole : ℕ} {s t : State} {i : ℕ} {a : Telemetry.Action}
  {r : Runtime} {es : List Telemetry.Event} {fs : List Sources.Event}

theorem callSource_start_answer (hs : s.sources.Sound) (hanswer : s.answer = none)
    (h : s.serve i .start = some (t, fs)) : t.answer ≠ some .ok := by
  simp only [State.serve, State.callSource, Option.map_eq_some_iff, Prod.exists] at h
  obtain ⟨u, gs, hcall, heq⟩ := h
  cases heq
  intro hok
  have hanswered : answerOf fs = some .ok := by simpa [State.withSources, hanswer] using hok
  obtain ⟨j, hreturned⟩ := returned_of_answerOf hanswered
  exact (Sources.step_callStart hs hcall).2 j hreturned

theorem early_of_step {within : CanBus.ControlPc → Prop}
    (hwithin : ∀ pc, within pc → pc.phase = .starting) (hs : s.Agreed platform)
    (hstep : Telemetry.step platform (s.runtimes i) a = some (r, es))
    (hserved : s.serveAll i (es.filterMap Event.sourceCall) = some (t, fs))
    (h : (t.setRuntime i r).Early within) : s.Early within := by
  obtain ⟨-, hearlier, hcalls⟩ := step_staff (hs.runtimes i) hstep
  have hsame (hnone : es.filterMap Event.sourceCall = []) : t = s := by
    rw [hnone] at hserved
    cases hserved
    rfl
  rcases h with hstarting | ⟨j, hearly⟩
  · rcases hcalls with hnone | ⟨-, e, rfl⟩
    · exact .inl (hsame hnone ▸ hstarting)
    · simp only [Event.sourceCall, List.filterMap_cons, List.filterMap_nil,
        State.serveAll_singleton] at hserved
      exact .inl (State.serve_within hwithin hs.sources hserved hstarting)
  rw [State.setRuntime_runtimes, State.setRuntime_answer] at hearly
  by_cases hj : j = i
  · rw [if_pos hj] at hearly
    have hr : r.operation.early = true := by
      rcases hearly with ⟨hpc, -⟩ | hlaunching
      · rw [hpc]
        rfl
      · cases hpc : r.operation <;> simp_all [OperationPc.early, OperationPc.launching]
    rcases hearlier hr with ⟨hpc, hnone⟩ | ⟨hbefore, -⟩ | ⟨hpc, -, rfl⟩ |
      ⟨hpc, hpc', rfl⟩
    · rw [hpc, hsame hnone] at hearly
      exact .inr ⟨i, hearly⟩
    · exact .inr ⟨i, .inr hbefore⟩
    · simp only [Event.sourceCall, List.filterMap_cons, List.filterMap_nil,
        State.serveAll_singleton, State.serve, Option.ite_none_right_eq_some] at hserved
      exact .inr ⟨i, .inl ⟨hpc, hserved.1⟩⟩
    · have hanswer : t.answer = some .ok := by
        rcases hearly with ⟨-, hanswer⟩ | hlaunching
        · exact hanswer
        · simp [hpc', OperationPc.launching] at hlaunching
      have hturn : s.turn = some i := (hs.turn i).mpr (by simp [hpc])
      obtain ⟨-, hnone⟩ := hs.calm_of_turn hturn (by rw [hpc]; rfl)
      simp only [Event.sourceCall, List.filterMap_cons, List.filterMap_nil,
        State.serveAll_singleton] at hserved
      exact absurd hanswer (callSource_start_answer hs.sources hnone hserved)
  · rw [if_neg hj, State.serveAll_runtimes hserved] at hearly
    rcases hearly with ⟨hpc, hanswer⟩ | hlaunching
    · rcases hcalls with hnone | ⟨hbusy, -⟩
      · rw [hsame hnone] at hanswer
        exact .inr ⟨j, .inl ⟨hpc, hanswer⟩⟩
      · have hidle := hs.idle (.inr ((hs.turn i).mpr hbusy)) hj
        simp [hpc] at hidle
    · exact .inr ⟨j, .inr hlaunching⟩

theorem runtime_tied (hs : s.Agreed platform) (htied : s.Tied platform sole)
    (hsole : platform = .esp → i = sole)
    (hstep : Telemetry.step platform (s.runtimes i) a = some (r, es))
    (hserved : s.serveAll i (es.filterMap Event.sourceCall) = some (t, fs)) :
    (t.setRuntime i r).Tied platform sole := by
  cases platform with
  | host =>
    intro j
    rw [State.setRuntime_runtimes]
    split_ifs with hj
    · have hretry (hwaiting : (s.runtimes i).operation.waiting = true) :
          (s.runtimes i).books.stopRetrySupported = true := by
        have hagrees := hs.agrees i
        cases hpc : (s.runtimes i).operation <;> rw [hpc] at hwaiting hagrees <;> cases hwaiting
        · exact hagrees.2.1
        all_goals exact hagrees.1
      exact step_attached (hs.runtimes i) hretry (htied i) hstep
    · rw [State.serveAll_runtimes hserved]
      exact htied j
  | esp =>
    intro j hj
    have hi := hsole rfl
    rw [State.setRuntime_runtimes, if_neg (fun hji => hj (hji.trans hi)),
      State.serveAll_runtimes hserved]
    exact htied j hj

theorem runtime_staffed (hs : s.Staffed platform sole) (hsole : platform = .esp → i = sole)
    (hallowed : allowed s.turn i a = true)
    (hstep : Telemetry.step platform (s.runtimes i) a = some (r, es))
    (hserved : s.serveAll i (es.filterMap Event.sourceCall) = some (t, fs)) :
    (t.setRuntime i r).Staffed platform sole := by
  have hagreed := runtime_agreed hs.agreed hallowed hstep hserved
  have htied := runtime_tied hs.agreed hs.tied hsole hstep hserved
  have hlaunching := early_of_step (fun _ => id) hs.agreed hstep hserved
  have hworking (j : ℕ) : ((t.setRuntime i r).runtimes j).Working → (s.runtimes j).Working ∨
      (j = i ∧ (s.runtimes i).operation = .createWorker ∧ r.operation = .finish .ok) := by
    rw [State.setRuntime_runtimes]
    split_ifs with hj
    · intro h
      rw [hj]
      rcases (step_staff (hs.agreed.runtimes i) hstep).working h with hbefore | hcreate
      · exact .inl hbefore
      · exact .inr ⟨rfl, hcreate⟩
    · rw [State.serveAll_runtimes hserved]
      exact .inl
  by_cases hcreate : (s.runtimes i).operation = .createWorker
  · have hnone := hs.vacant (.inr ⟨i, .inr (by rw [hcreate]; rfl)⟩)
    have honly (j : ℕ) (hj : ((t.setRuntime i r).runtimes j).Working) :
        j = i ∧ r.operation = .finish .ok := by
      rcases hworking j hj with hbefore | ⟨hji, -, hpc⟩
      · exact absurd hbefore (hnone j)
      · exact ⟨hji, hpc⟩
    refine ⟨hagreed, htied, fun j k hj hk => (honly j hj).1.trans (honly k hk).1.symm,
      fun hearly j hj => ?_⟩
    have hpc : ((t.setRuntime i r).runtimes i).operation = .finish .ok := by
      rw [State.setRuntime_runtimes, if_pos rfl]
      exact (honly j hj).2
    have hturn := (hagreed.turn i).mpr (by simp [hpc])
    exact hagreed.not_launching hturn (by rw [hpc]; rfl) (by rw [hpc]; rfl) hearly
  · have hbefore (j : ℕ) (hj : ((t.setRuntime i r).runtimes j).Working) :
        (s.runtimes j).Working := by
      rcases hworking j hj with hbefore | ⟨-, hcreating, -⟩
      · exact hbefore
      · exact absurd hcreating hcreate
    exact ⟨hagreed, htied, fun j k hj hk => hs.unique j k (hbefore j hj) (hbefore k hk),
      fun hearly j hj => hs.vacant (hlaunching hearly) j (hbefore j hj)⟩

end

/-- On the target a single runtime is used. -/
def OnlyUses (platform : Platform) (sole : ℕ) (_ : State) : Action → Prop
  | .runtime i _ => platform = .esp → i = sole
  | .bus _ => True

theorem step_staffed {platform : Platform} {sole : ℕ} {s t : State} {a : Action} {es : List Event}
    (hs : s.Staffed platform sole) (hsole : OnlyUses platform sole s a)
    (h : step platform s a = some (t, es)) : t.Staffed platform sole := by
  cases step_cases h with
  | runtime permitted hstep served => exact runtime_staffed hs hsole permitted hstep served
  | bus hstep => exact bus_staffed hs hstep

theorem initial_staffed (platform : Platform) (sole : ℕ)
    (configuration : ℕ → CanBus.Configuration) :
    (initial configuration).Staffed platform sole where
  agreed := initial_agreed platform configuration
  tied := by
    cases platform with
    | host => exact fun i => .of_none rfl
    | esp => exact fun i _ => rfl
  unique i j hi := absurd hi not_working_init
  vacant _ i := not_working_init

/-- Over any number of runtimes on the host, or a single one on the target, whose
lifecycle calls do not overlap: at most one worker runs, and none from the moment the
acquisition accepts a start to the moment that start's own worker is created. -/
theorem sole_worker {platform : Platform} {sole : ℕ} {configuration : ℕ → CanBus.Configuration}
    {s : State} {as : List Action} {es : List Event}
    (hC : (machine platform).Along (OnlyUses platform sole) (initial configuration) as)
    (hrun : (machine platform).run (initial configuration) as = some (s, es)) :
    (∀ i j, (s.runtimes i).Working → (s.runtimes j).Working → i = j) ∧
      (s.Launching → ∀ i, ¬ (s.runtimes i).Working) := by
  have hs : s.Staffed platform sole := (machine platform).run_preserves_along
    (fun s a t es hs hsole hstep => step_staffed hs hsole hstep)
    (initial_staffed platform sole configuration) hC hrun
  exact ⟨hs.unique, hs.vacant⟩

/-- Runtime `i` starts; the acquisition takes `n` steps for it. -/
def launchSchedule (i n : ℕ) : List Action :=
  [.runtime i .start] ++ List.replicate 4 (.runtime i (.operation {})) ++
    List.replicate n (.bus (.control true)) ++ List.replicate 11 (.runtime i (.operation {}))

/-- Runtime 0 has started and is stopped; its source is released, and its worker
is still inside a `receive` call. -/
def releaseSchedule : List Action :=
  launchSchedule 0 37 ++ List.replicate 2 (.runtime 0 (.worker {})) ++
    [.runtime 0 (.stop false)] ++ List.replicate 9 (.runtime 0 (.operation {})) ++
    List.replicate 4 (.bus (.control true)) ++ List.replicate 4 (.bus (.task 0 {})) ++
    List.replicate 11 (.bus (.control true)) ++ [.runtime 0 (.operation {})]

/-- The worker ends and is joined, and runtime 1 starts. -/
def handOverSchedule : List Action :=
  releaseSchedule ++ List.replicate 4 (.runtime 0 (.worker {})) ++
    List.replicate 10 (.runtime 0 (.operation {})) ++ launchSchedule 1 38

theorem sole_worker_handOver : ∃ s es,
    (machine .host).run (initial fun _ => {}) handOverSchedule = some (s, es) ∧
      (s.runtimes 1).Working ∧ ∀ i, (s.runtimes i).Working → i = 1 := by
  have hobserved : ((machine .host).run (initial fun _ => {}) handOverSchedule).map (fun p =>
      (p.1.runtimes 1).worker.map WorkerPc.isFinished) = some (some false) := by decide +kernel
  obtain ⟨⟨s, es⟩, hrun, hworker⟩ := Option.map_eq_some_iff.mp hobserved
  obtain ⟨pc, hpc, hrunning⟩ := Option.map_eq_some_iff.mp hworker
  have hworking : (s.runtimes 1).Working := ⟨pc, hpc, hrunning⟩
  have hC : (machine .host).Along (OnlyUses .host 0) (initial fun _ => {}) handOverSchedule :=
    Machine.along_of_forall (P := OnlyUses .host 0 (initial fun _ => {})) fun a _ => by
      cases a <;> simp [OnlyUses]
  obtain ⟨honly, -⟩ := sole_worker hC hrun
  exact ⟨s, es, hrun, hworking, fun i hi => honly i 1 hi hworking⟩

/-- The bounded wait of the target expires before the worker has ended. -/
def leaveBehindSchedule : List Action :=
  releaseSchedule ++ [.runtime 0 (.operation { ok := false }), .runtime 0 (.operation {})] ++
    launchSchedule 1 38

/-- Two runtimes on the target can leave two workers at one acquisition. -/
theorem two_workers_left_behind : ∃ s es,
    (machine .esp).run (initial fun _ => {}) leaveBehindSchedule = some (s, es) ∧
      (s.runtimes 0).Working ∧ (s.runtimes 1).Working := by
  have hobserved : ((machine .esp).run (initial fun _ => {}) leaveBehindSchedule).map (fun p =>
      ((p.1.runtimes 0).worker.map WorkerPc.isFinished,
        (p.1.runtimes 1).worker.map WorkerPc.isFinished)) = some (some false, some false) := by
    decide +kernel
  obtain ⟨⟨s, es⟩, hrun, heq⟩ := Option.map_eq_some_iff.mp hobserved
  simp only [Prod.mk.injEq, Option.map_eq_some_iff] at heq
  exact ⟨s, es, hrun, heq.1, heq.2⟩

end Runtimes
end Telemetry
end VehicleCanCore

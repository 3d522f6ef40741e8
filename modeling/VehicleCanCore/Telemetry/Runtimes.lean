import VehicleCanCore.Telemetry.CanBusSource
import VehicleCanCore.Telemetry.SourceProtocol

/-!
# Several runtimes over one acquisition

Every runtime has a `CanBusSource` of its own, all of them over the process-wide
acquisition. Lifecycle calls are serialized across runtimes; workers, readers and
the acquisition's own threads run at any moment. A source call returns when the
acquisition has returned, and its result waits for the runtime's next step.
-/

namespace VehicleCanCore
namespace Telemetry

open Automata

namespace Runtimes

/-- `answer` is the result of a source call that the runtime has not taken yet,
`turn` the runtime with a lifecycle operation in progress. -/
structure State where
  sources : Sources.State
  runtimes : ℕ → Runtime := fun _ => {}
  answer : Option ResultCode := none
  turn : Option ℕ := none

def initial (configuration : ℕ → CanBus.Configuration) : State where
  sources := { sources := fun i => some { configuration := configuration i } }

inductive Event
  | source (e : Sources.Event)
  | runtime (i : ℕ) (e : Telemetry.Event)
  deriving DecidableEq

inductive Action
  | runtime (i : ℕ) (a : Telemetry.Action)
  | bus (a : CanBus.Action)

def answerOf (es : List Sources.Event) : Option ResultCode :=
  es.findSome? fun
    | .returned _ result => some result
    | _ => none

namespace State

def withSources (s : State) (sources : Sources.State) (es : List Sources.Event) : State :=
  { s with sources := sources, answer := answerOf es <|> s.answer }

def callSource (s : State) (i : ℕ) (op : Sources.Operation) : Option (State × List Sources.Event) :=
  (Sources.step s.sources (.call i op)).map fun (sources, es) => (s.withSources sources es, es)

/-- What a lifecycle call of runtime `i` on its source does, or its return. -/
def serve (s : State) (i : ℕ) : SourceEvent → Option (State × List Sources.Event)
  | .supportsStopRetry supported =>
    if supported = CanBusSource.supportsStopRetry then some (s, []) else none
  | .start => s.callSource i .start
  | .cleanup .stop => s.callSource i .stop
  | .cleanup .retryStop => s.callSource i .retryStop
  | .startReturned result | .cleanupReturned result =>
    if s.answer = some result then some ({ s with answer := none }, []) else none

/-- All calls of one step, of which there is at most one. -/
def serveAll (s : State) (i : ℕ) : List SourceEvent → Option (State × List Sources.Event)
  | [] => some (s, [])
  | e :: es =>
    (s.serve i e).bind fun (t, fs) => (t.serveAll i es).map fun (u, gs) => (u, fs ++ gs)

def setRuntime (s : State) (i : ℕ) (r : Runtime) : State :=
  { s with
    runtimes := Function.update s.runtimes i r
    turn := if r.operation.isIdle then s.turn.filter (· ≠ i) else some i }

end State

/-- The application does not call `start()` or `stop()` while another runtime is
inside such a call, and destroys no runtime. -/
def allowed (turn : Option ℕ) (i : ℕ) : Telemetry.Action → Bool
  | .start | .stop false => turn = none || turn = some i
  | .destroy => false
  | _ => true

def step (platform : Platform) (s : State) : Action → Option (State × List Event)
  | .runtime i a =>
    if allowed s.turn i a then
      (Telemetry.step platform (s.runtimes i) a).bind fun (r, es) =>
        (s.serveAll i (es.filterMap Event.sourceCall)).map fun (t, fs) =>
          (t.setRuntime i r, fs.map .source ++ es.map (.runtime i))
    else none
  | .bus a =>
    (Sources.step s.sources (.bus a)).map fun (sources, es) =>
      (s.withSources sources es, es.map .source)

def machine (platform : Platform) : Machine State Action Event := ⟨step platform⟩

/-! ## Steps -/

namespace State

variable (s : State) (i j : ℕ) (r : Runtime)

@[simp] theorem setRuntime_sources : (s.setRuntime i r).sources = s.sources := rfl

@[simp] theorem setRuntime_answer : (s.setRuntime i r).answer = s.answer := rfl

theorem setRuntime_runtimes :
    (s.setRuntime i r).runtimes j = if j = i then r else s.runtimes j := by
  unfold setRuntime
  by_cases h : j = i
  · subst h
    simp
  · simp [h]

theorem serveAll_singleton (e : SourceEvent) : s.serveAll i [e] = s.serve i e := by
  unfold serveAll
  cases h : s.serve i e <;> simp [serveAll]

end State

inductive Stepped (platform : Platform) (s : State) : Action → State → List Event → Prop
  | runtime {i : ℕ} {a : Telemetry.Action} {r : Runtime} {es : List Telemetry.Event} {t : State}
    {fs : List Sources.Event} (permitted : allowed s.turn i a = true)
    (hstep : Telemetry.step platform (s.runtimes i) a = some (r, es))
    (served : s.serveAll i (es.filterMap Event.sourceCall) = some (t, fs)) :
    Stepped platform s (.runtime i a) (t.setRuntime i r) (fs.map .source ++ es.map (.runtime i))
  | bus {a : CanBus.Action} {sources : Sources.State} {es : List Sources.Event}
    (hstep : Sources.step s.sources (.bus a) = some (sources, es)) :
    Stepped platform s (.bus a) (s.withSources sources es) (es.map .source)

theorem step_cases {platform : Platform} {s t : State} {a : Action} {es : List Event}
    (h : step platform s a = some (t, es)) : Stepped platform s a t es := by
  cases a with
  | runtime i a =>
    simp only [step] at h
    split_ifs at h with hallowed
    simp only [Option.bind_eq_some_iff, Option.map_eq_some_iff, Prod.exists] at h
    obtain ⟨r, fs, hstep, u, gs, hserved, heq⟩ := h
    cases heq
    exact .runtime hallowed hstep hserved
  | bus a =>
    simp only [step, Option.map_eq_some_iff, Prod.exists] at h
    obtain ⟨sources, fs, hstep, heq⟩ := h
    cases heq
    exact .bus hstep

/-! ## Calls on a source -/

theorem settles_others {u v : Sources.State} {i : ℕ} {op : Sources.Operation} {r : ResultCode}
    (h : op.Settles u v i r) {j : ℕ} (hj : j ≠ i) : v.owns j = u.owns j := by
  rw [Bool.eq_iff_iff]
  cases op with
  | start => simp [h.1 j, hj]
  | stop | retryStop => simp [h.1 j, hj]

section

variable {s t : State} {i : ℕ} {fs : List Sources.Event}

theorem callSource_start (hs : s.sources.Sound) (hfree : s.sources.call = none)
    (hanswer : s.answer = none) (howns : s.sources.owns i = false)
    (h : s.callSource i .start = some (t, fs)) :
    t.sources.Sound ∧ t.runtimes = s.runtimes ∧ t.turn = s.turn ∧
      ((Sources.Open s.sources t.sources i .start ∧ t.answer = none ∧ fs = []) ∨
        ∃ r, Sources.Answered s.sources t.sources i .start r ∧ t.answer = some r ∧
          fs = [.returned i r]) := by
  simp only [State.callSource, Option.map_eq_some_iff, Prod.exists] at h
  obtain ⟨u, es, hstep, heq⟩ := h
  cases heq
  obtain ⟨hu, heffect⟩ := Sources.step_free hs hfree hstep
  refine ⟨hu, rfl, rfl, ?_⟩
  rcases heffect with ⟨i', op', hcall, heffect⟩ | ⟨hno, -⟩
  · cases hcall
    rcases heffect with ⟨hopen, -, rfl | ⟨-, howner⟩⟩ | ⟨r, hanswered, rfl⟩
    · exact .inl ⟨hopen, hanswer, rfl⟩
    · simp [howns] at howner
    · exact .inr ⟨r, hanswered, rfl, rfl⟩
  · exact absurd rfl (hno i .start)

/-- Only the holder of the claim stops the acquisition. -/
theorem callSource_stop {op : Sources.Operation} (hop : op ≠ .start) (hs : s.sources.Sound)
    (hfree : s.sources.call = none) (hanswer : s.answer = none)
    (h : s.callSource i op = some (t, fs)) :
    t.sources.Sound ∧ t.runtimes = s.runtimes ∧ t.turn = s.turn ∧
      ((s.sources.owns i = true ∧ Sources.Open s.sources t.sources i op ∧ t.answer = none ∧
          fs = [.busStop i]) ∨
        (s.sources.owns i = false ∧ t.sources = s.sources ∧ t.answer = some .notRunning ∧
          fs = [.returned i .notRunning])) := by
  simp only [State.callSource, Option.map_eq_some_iff, Prod.exists] at h
  obtain ⟨u, es, hstep, heq⟩ := h
  cases heq
  obtain ⟨hu, heffect⟩ := Sources.step_free hs hfree hstep
  refine ⟨hu, rfl, rfl, ?_⟩
  cases Sources.step_cases hstep with
  | manage manages => cases manages
  | start => exact absurd rfl hop
  | stop stops free object owner =>
    refine .inl ⟨(Sources.State.owns_of_source object).trans owner, ?_, hanswer, rfl⟩
    rcases heffect with ⟨i', op', hcall, ⟨hopen, -⟩ | ⟨r, -, hreturned⟩⟩ | ⟨hno, -⟩
    · cases hcall
      exact hopen
    · simp at hreturned
    · exact absurd rfl (hno i op)
  | stopRefused stops free object unowned =>
    exact .inr ⟨(Sources.State.owns_of_source object).trans unowned, rfl, rfl, rfl⟩

end

end Runtimes
end Telemetry
end VehicleCanCore

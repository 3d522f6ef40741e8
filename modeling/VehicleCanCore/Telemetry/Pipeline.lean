import VehicleCanCore.CanBus.FrameQueue
import VehicleCanCore.Telemetry.Agreement

/-!
# From the driver to the processor

Any number of runtimes over their sources and the acquisition, with the one call
that `Runtimes` leaves to the environment: a worker that receives calls
`can_bus::receive` through its source. The call is begun in one step, goes on among the
steps of everybody else, and its answer is taken in another step of the worker.
-/

namespace VehicleCanCore
namespace Telemetry

open VehicleCanCore.Core Automata

/-- The rest of `receive` once `can_bus::receive` has returned; without a frame
written, the caller's is the one it has initialized. -/
def CanBusSource.afterReceive (result : CanBus.Result) (frame : Option RawCanFrame) : Received :=
  match result with
  | .ok => .frame (frame.getD {})
  | .timeout => .timeout
  | .notStarted => .notStarted
  | .stopping | .faulted | .driverFailure | .taskFailure | .invalidConfiguration
  | .alreadyStarted => .fault

/-- The call of `source_->receive` is the worker's next step, or in progress. -/
def WorkerPc.receives : WorkerPc → Bool
  | receive _ => true
  | _ => false

namespace Pipeline

/-- A call of `receive`: by the worker of which runtime, and what it has returned. -/
structure Call where
  receiver : ℕ
  answer : Option Received := none

structure State where
  system : Runtimes.State
  call : Option Call := none

def initial (configuration : ℕ → CanBus.Configuration) : State where
  system := Runtimes.initial configuration

inductive Event
  | system (e : Runtimes.Event)
  | bus (e : CanBus.Event)

inductive Action
  | runtime (i : ℕ) (a : Telemetry.Action)
  | receive (i : ℕ)
  | bus (a : CanBus.Action)

def ofSystem : Runtimes.Action → Action
  | .runtime i a => .runtime i a
  | .bus a => .bus a

def answer? : CanBus.Event → Option Received
  | .received result frame => some (CanBusSource.afterReceive result frame)
  | _ => none

namespace State

variable (s : State)

def bus : CanBus.State := s.system.sources.bus

def runtime (i : ℕ) : Runtime := s.system.runtimes i

def worker (i : ℕ) : Option WorkerPc := (s.runtime i).worker

def answer (i : ℕ) : Option Received :=
  s.call.bind fun call => if call.receiver = i then call.answer else none

end State

def beginsReceive : CanBus.Action → Bool
  | .receive _ => true
  | _ => false

/-- Workers are the only callers of `can_bus::receive`, one call at a time. -/
def step (platform : Platform) (s : State) : Action → Option (State × List Event)
  | .runtime i (.worker input) =>
    if (s.worker i).any WorkerPc.receives then
      (s.answer i).bind fun received =>
        (Runtimes.step platform s.system
          (.runtime i (.worker { input with received := received }))).map fun (system, es) =>
            ({ system := system }, es.map .system)
    else
      (Runtimes.step platform s.system (.runtime i (.worker input))).map fun (system, es) =>
        ({ s with system := system }, es.map .system)
  | .runtime i a =>
    (Runtimes.step platform s.system (.runtime i a)).map fun (system, es) =>
      ({ s with system := system }, es.map .system)
  | .receive i =>
    if (s.worker i).any WorkerPc.receives && s.call.isNone then
      (Runtimes.step platform s.system
        (.bus (.receive (s.runtime i).config.receiveTimeoutMs))).map fun (system, _) =>
          ({ system := system, call := some { receiver := i } }, [])
    else none
  | .bus a =>
    if beginsReceive a then none
    else
      (CanBus.step s.bus a).bind fun (_, es) =>
        (Runtimes.step platform s.system (.bus a)).map fun (system, fs) =>
          ({ system := system
             call := s.call.map fun call =>
               { call with answer := call.answer <|> es.findSome? answer? } },
            es.map .bus ++ fs.map .system)

def machine (platform : Platform) : Machine State Action Event := ⟨step platform⟩

/-! ## What becomes of the frames -/

/-- A frame is given to the processor, or dropped by a worker that is to stop. -/
inductive Disposal
  | processed
  | discarded
  deriving DecidableEq, Repr

def Event.conveyed? : Event → Option (ConveyorEvent RawCanFrame Disposal)
  | .bus e => e.moved?
  | .system (.runtime _ (.processed frame _)) => some (.disposed .processed frame)
  | .system _ => none

/-- Nothing shows that a worker drops the frame that it has received. -/
def drops (stopRequested : Bool) : WorkerPc → List (ConveyorEvent RawCanFrame Disposal)
  | .received _ (.frame frame) _ => if stopRequested then [.disposed .discarded frame] else []
  | _ => []

/-- The part of a step that no event shows. -/
def unseen (s : State) : Action → List (ConveyorEvent RawCanFrame Disposal)
  | .bus a => if s.bus.flushes a then [.flushed] else []
  | .runtime i (.worker _) => (s.worker i).elim [] (drops (s.runtime i).stopRequested)
  | _ => []

/-- What a step looks like to somebody who follows the frames. -/
def conveyed (platform : Platform) (s : State) (a : Action) :
    List (ConveyorEvent RawCanFrame Disposal) :=
  unseen s a ++ (step platform s a).elim [] fun p => p.2.filterMap Event.conveyed?

/-! ## Steps -/

/-- The shapes of a step; each but the begin of a `receive` call is a step of the
runtimes over their sources, and that one is a step of the acquisition. -/
inductive Stepped (platform : Platform) (s : State) : Action → State → List Event → Prop
  | taken {i : ℕ} {input : WorkerInput} {budget : WorkBudget} {received : Received}
    {system : Runtimes.State} {es : List Runtimes.Event}
    (receives : s.worker i = some (.receive budget)) (answered : s.call = some ⟨i, some received⟩)
    (hstep : Runtimes.step platform s.system
      (.runtime i (.worker { input with received := received })) = some (system, es)) :
    Stepped platform s (.runtime i (.worker input)) { system := system } (es.map .system)
  | runtime {i : ℕ} {a : Telemetry.Action} {system : Runtimes.State} {es : List Runtimes.Event}
    (elsewhere : ∀ input, a = .worker input → (s.worker i).any WorkerPc.receives = false)
    (hstep : Runtimes.step platform s.system (.runtime i a) = some (system, es)) :
    Stepped platform s (.runtime i a) { s with system := system } (es.map .system)
  | receive {i : ℕ} {budget : WorkBudget} {system : Runtimes.State} {es : List Runtimes.Event}
    (receives : s.worker i = some (.receive budget)) (free : s.call = none)
    (hstep : Runtimes.step platform s.system
      (.bus (.receive (s.runtime i).config.receiveTimeoutMs)) = some (system, es)) :
    Stepped platform s (.receive i) { system := system, call := some { receiver := i } } []
  | bus {a : CanBus.Action} {b : CanBus.State} {es : List CanBus.Event} {system : Runtimes.State}
    {fs : List Runtimes.Event} (background : beginsReceive a = false)
    (hbus : CanBus.step s.bus a = some (b, es))
    (hstep : Runtimes.step platform s.system (.bus a) = some (system, fs)) :
    Stepped platform s (.bus a)
      { system := system
        call := s.call.map fun call =>
          { call with answer := call.answer <|> es.findSome? answer? } }
      (es.map .bus ++ fs.map .system)

theorem receives_eq_true {worker : Option WorkerPc} :
    worker.any WorkerPc.receives = true ↔ ∃ budget, worker = some (.receive budget) := by
  cases worker with
  | none => simp
  | some pc => cases pc <;> simp [WorkerPc.receives]

theorem State.answer_eq_some {s : State} {i : ℕ} {received : Received} :
    s.answer i = some received ↔ s.call = some ⟨i, some received⟩ := by
  unfold State.answer
  rw [Option.bind_eq_some_iff]
  constructor
  · rintro ⟨⟨j, answer⟩, hcall, hanswer⟩
    split_ifs at hanswer with hj
    rw [hcall, ← hanswer, ← hj]
  · intro hcall
    exact ⟨_, hcall, if_pos rfl⟩

theorem step_cases {platform : Platform} {s t : State} {a : Action} {es : List Event}
    (h : step platform s a = some (t, es)) : Stepped platform s a t es := by
  cases a with
  | runtime i a =>
    have hrest (ha : ∀ input, a = .worker input → (s.worker i).any WorkerPc.receives = false)
        (h : (Runtimes.step platform s.system (.runtime i a)).map
          (fun (system, es) => (({ s with system := system } : State), es.map Event.system)) =
          some (t, es)) : Stepped platform s (.runtime i a) t es := by
      simp only [Option.map_eq_some_iff, Prod.exists] at h
      obtain ⟨system, fs, hstep, heq⟩ := h
      cases heq
      exact .runtime ha hstep
    cases a with
    | worker input =>
      simp only [step] at h
      split_ifs at h with hreceives
      · simp only [Option.bind_eq_some_iff, Option.map_eq_some_iff, Prod.exists] at h
        obtain ⟨received, hanswer, system, fs, hstep, heq⟩ := h
        cases heq
        obtain ⟨budget, hworker⟩ := receives_eq_true.mp hreceives
        exact .taken hworker (State.answer_eq_some.mp hanswer) hstep
      · exact hrest (fun _ _ => Bool.eq_false_iff.mpr hreceives) h
    | _ => exact hrest (by simp) h
  | receive i =>
    simp only [step] at h
    split_ifs at h with hfree
    simp only [Bool.and_eq_true, Option.isNone_iff_eq_none] at hfree
    simp only [Option.map_eq_some_iff, Prod.exists] at h
    obtain ⟨system, fs, hstep, heq⟩ := h
    cases heq
    obtain ⟨budget, hworker⟩ := receives_eq_true.mp hfree.1
    exact .receive hworker hfree.2 hstep
  | bus a =>
    simp only [step] at h
    split_ifs at h with hbegins
    simp only [Option.bind_eq_some_iff, Option.map_eq_some_iff, Prod.exists] at h
    obtain ⟨b, es', hbus, system, fs, hstep, heq⟩ := h
    cases heq
    exact .bus (Bool.eq_false_iff.mpr hbegins) hbus hstep

end Pipeline
end Telemetry
end VehicleCanCore
